import Nodecraft.Proofs.Sandbox.Congruence

/-!
# Congruences and the functions that no script defines

Methods and capabilities call back through a `Caller`, each over a list that was fixed when it
started. A congruence that relates two callers therefore relates every method and every capability
over them, by induction on that list. `splice` is left to the relation itself: it is the only
function that can break off a run. So are the capabilities that register watchers.
-/

set_option autoImplicit false

namespace Nodecraft.Sandbox

open Script

/-- Every function that no script defines, except `splice`. -/
def Native.IsRegular : Native → Prop
  | .array m => m ≠ .splice
  | _ => True

/-- Every function except `splice`. -/
def Function.IsRegular : Function → Prop
  | .native n => n.IsRegular
  | _ => True

theorem Function.isRegular_or (fn : Function) : fn.IsRegular ∨ fn = .native (.array .splice) := by
  cases fn with
  | native n =>
    cases n with
    | array m =>
      by_cases hm : m = .splice
      · exact .inr (by rw [hm])
      · exact .inl hm
    | _ => exact .inl trivial
  | _ => exact .inl trivial

/-- What a call of `splice` does. -/
def Action.spliceCall (self : Value) (args : List Value) : Action Value := do
  splice (← arrayReceiver self "splice") args

/-- The capabilities that register watchers. -/
def Capability.Watches (c : Capability) : Prop := c = .watch ∨ c = .watchEffect

namespace Congruence

variable {R : (α : Type) → Action α → Action α → Prop} {Admits : FunctionDef → Prop}
  (hR : Congruence R Admits) {call call' : Caller} (hcall : Caller.Related R call call')

include hR

theorem textReceiver (self : Value) (method : String) :
    R String (Action.textReceiver self method) (Action.textReceiver self method) := by
  cases self with
  | string s => exact hR.pure s
  | _ => exact hR.typeError _ (.of_typeName _ _)

theorem arrayReceiver (self : Value) (method : String) :
    R ArrayId (Action.arrayReceiver self method) (Action.arrayReceiver self method) := by
  cases self with
  | array a => exact hR.pure a
  | _ => exact hR.typeError _ (.of_typeName _ _)

theorem callback (args : List Value) (method : String) :
    R Value (Action.callback args method) (Action.callback args method) := by
  dsimp only [Action.callback]
  split
  · exact hR.pure _
  · exact hR.bind (hR.text _) fun _ ↦ hR.typeError _ (.of_suffix (by decide))
  · exact hR.typeError _ (.of_suffix (by decide))

/-! ### Numbers -/

theorem toFixed (x digits : Float) :
    R Value (Action.toFixed x digits) (Action.toFixed x digits) := by
  unfold Action.toFixed
  extract_lets digits
  split
  · exact hR.typeError _ (.of_ne (by decide))
  · exact hR.pure _

theorem toRadix (x : Float) (radix : Nat) :
    R Value (Action.toRadix x radix) (Action.toRadix x radix) := by
  dsimp only [Action.toRadix]
  split
  · exact hR.typeError _ (.of_ne (by decide))
  · split
    · exact hR.pure _
    · exact hR.pure _

theorem numberMethod (m : NumberMethod) (self : Value) (args : List Value) :
    R Value (Action.numberMethod m self args) (Action.numberMethod m self args) := by
  refine hR.bind (hR.number self) fun x ↦ ?_
  cases m with
  | toFixed => exact hR.bind (hR.number _) fun digits ↦ hR.toFixed x digits
  | toString =>
    dsimp only
    split
    · exact hR.toRadix x 10
    · exact hR.bind (hR.number _) fun _ ↦ hR.toRadix x _
  | valueOf => exact hR.pure _

/-! ### Texts -/

theorem pad (self : Value) (args : List Value) (atStart : Bool) :
    R Value (Action.pad self args atStart) (Action.pad self args atStart) := by
  refine hR.bind (hR.textReceiver self _) fun s ↦ hR.bind (hR.number _) fun x ↦ ?_
  dsimp only
  split
  · exact hR.typeError _ (.of_ne (by decide))
  · split
    · refine hR.bind (hR.pure _) fun fill ↦ ?_
      split
      · exact hR.pure _
      · exact hR.pure _
    · refine hR.bind (hR.text _) fun fill ↦ ?_
      split
      · exact hR.pure _
      · exact hR.pure _

theorem repeatText (self : Value) (args : List Value) :
    R Value (Action.repeatText self args) (Action.repeatText self args) := by
  refine hR.bind (hR.textReceiver self _) fun s ↦ hR.bind (hR.number _) fun x ↦ ?_
  dsimp only
  split
  · exact hR.typeError _ (.of_ne (by decide))
  · split
    · exact hR.typeError _ (.of_ne (by decide))
    · exact hR.pure _

/-- Replacements are asked for at the same occurrences. -/
theorem replaceOccurrences (pattern : List Char) (all : Bool) {replacement replacement' :
    Nat → Action String} (hr : ∀ i, R String (replacement i) (replacement' i)) (fuel : Nat) :
    ∀ position cs, R String (Action.replaceOccurrences pattern all replacement fuel position cs)
      (Action.replaceOccurrences pattern all replacement' fuel position cs) := by
  induction fuel with
  | zero => intro position cs; exact hR.pure _
  | succ fuel ih =>
    intro position cs
    dsimp only [Action.replaceOccurrences]
    split
    · exact hR.pure _
    · refine hR.bind (hr _) fun inserted ↦ ?_
      split
      · exact hR.bind (ih _ _) fun _ ↦ hR.pure _
      · exact hR.bind (hR.pure _) fun _ ↦ hR.pure _

theorem replaceBetween (all : Bool) {replacement replacement' : Nat → Action String}
    (hr : ∀ i, R String (replacement i) (replacement' i)) (cs : List Char) :
    ∀ position, R String (Action.replaceBetween all replacement position cs)
      (Action.replaceBetween all replacement' position cs) := by
  induction cs with
  | nil => intro position; exact hr position
  | cons c cs ih =>
    intro position
    refine hR.bind (hr position) fun inserted ↦ ?_
    split
    · exact hR.bind (ih _) fun _ ↦ hR.pure _
    · exact hR.pure _

include hcall in
theorem replacementText (pattern : String) (position : Nat) (v : Value) :
    R String (Action.replacementText call pattern position v)
      (Action.replacementText call' pattern position v) := by
  cases v with
  | function f => exact hR.bind (hcall _ _ _) fun v ↦ hR.text v
  | _ => exact hR.text _

include hcall in
/-- Functions that make replacements are called alike. -/
theorem replace (self : Value) (args : List Value) (all : Bool) :
    R Value (Action.replace call self args all) (Action.replace call' self args all) := by
  refine hR.bind (hR.textReceiver self _) fun s ↦ hR.bind (hR.text _) fun pattern ↦ ?_
  have hreplacement (position : Nat) :=
    hR.replacementText hcall pattern position (argument args 1)
  dsimp only
  split
  · exact hR.map (hR.replaceBetween all hreplacement _ 0) Value.string
  · exact hR.map (hR.replaceOccurrences _ all hreplacement _ 0 _) Value.string

include hcall in
theorem textMethod (m : TextMethod) (self : Value) (args : List Value) :
    R Value (Action.textMethod call m self args) (Action.textMethod call' m self args) := by
  cases m with
  | toUpperCase | toLowerCase | trim | trimStart | trimEnd | toString | valueOf =>
    exact hR.bind (hR.textReceiver self _) fun _ ↦ hR.pure _
  | includes | startsWith | endsWith =>
    exact hR.bind (hR.textReceiver self _) fun _ ↦ hR.bind (hR.text _) fun _ ↦ hR.pure _
  | indexOf =>
    refine hR.bind (hR.textReceiver self _) fun s ↦ hR.bind (hR.text _) fun t ↦ ?_
    split
    · exact hR.pure _
    · exact hR.pure _
  | charAt => exact hR.bind (hR.textReceiver self _) fun _ ↦ hR.bind (hR.number _) fun _ ↦ hR.pure _
  | slice => exact hR.bind (hR.textReceiver self _) fun _ ↦ hR.read fun _ ↦ hR.pure _
  | split =>
    refine hR.bind (hR.textReceiver self _) fun s ↦ ?_
    split
    · exact hR.newArray _
    · exact hR.bind (hR.text _) fun _ ↦ hR.newArray _
  | replace => exact hR.replace hcall self args false
  | replaceAll => exact hR.replace hcall self args true
  | padStart => exact hR.pad self args true
  | padEnd => exact hR.pad self args false
  | «repeat» => exact hR.repeatText self args

/-! ### Arrays -/

theorem items (a : ArrayId) : R (List Value) (Action.items a) (Action.items a) :=
  hR.read fun _ ↦ hR.pure _

theorem setItems (a : ArrayId) (values : List Value) :
    R Unit (Action.setItems a values) (Action.setItems a values) :=
  hR.modifyHeap _ fun h ↦ .modifyArray h a _

theorem sizeOf (a : ArrayId) : R Value (Action.sizeOf a) (Action.sizeOf a) :=
  hR.read fun _ ↦ hR.pure _

theorem pop (a : ArrayId) : R Value (Action.pop a) (Action.pop a) :=
  hR.read fun _ ↦ hR.bind (hR.modifyHeap _ fun h ↦ .modifyArray h a _) fun _ ↦ hR.pure _

theorem shift (a : ArrayId) : R Value (Action.shift a) (Action.shift a) := by
  refine hR.bind (hR.items a) fun values ↦ ?_
  cases values with
  | nil => exact hR.pure _
  | cons first rest => exact hR.bind (hR.setItems a rest) fun _ ↦ hR.pure _

theorem slice (a : ArrayId) (args : List Value) :
    R Value (Action.slice a args) (Action.slice a args) :=
  hR.read fun _ ↦ hR.bind (hR.items a) fun _ ↦ hR.newArray _

/-- `splice` converts its counts while it holds the array, and is broken off if they read it. -/
theorem splice (hoverlap : R Value (throw .overlap) (throw .overlap)) (a : ArrayId)
    (args : List Value) : R Value (Action.splice a args) (Action.splice a args) := by
  refine hR.read fun h ↦ ?_
  split
  · exact hoverlap
  · exact hR.bind (hR.items a) fun _ ↦ hR.bind (hR.setItems a _) fun _ ↦ hR.newArray _

theorem concat (a : ArrayId) (args : List Value) :
    R Value (Action.concat a args) (Action.concat a args) :=
  hR.read fun _ ↦ hR.newArray _

section Callbacks

include hcall

/-- Callbacks of a method are called on the items in their order. -/
theorem mapCalls (f self : Value) (values : List Value) :
    ∀ i, R (List Value) (Action.mapCalls call f self i values)
      (Action.mapCalls call' f self i values) := by
  induction values with
  | nil => intro i; exact hR.pure _
  | cons v rest ih =>
    intro i
    exact hR.bind (hcall _ _ _) fun _ ↦ hR.bind (ih _) fun _ ↦ hR.pure _

theorem firstCall (f self : Value) (wanted : Bool) (values : List Value) :
    ∀ i, R (Option (Nat × Value)) (Action.firstCall call f self wanted i values)
      (Action.firstCall call' f self wanted i values) := by
  induction values with
  | nil => intro i; exact hR.pure _
  | cons v rest ih =>
    intro i
    refine hR.bind (hcall _ _ _) fun r ↦ ?_
    split
    · exact hR.pure _
    · exact ih _

theorem foldCalls (f self : Value) (values : List Value) :
    ∀ i acc, R Value (Action.foldCalls call f self i acc values)
      (Action.foldCalls call' f self i acc values) := by
  induction values with
  | nil => intro i acc; exact hR.pure _
  | cons v rest ih => intro i acc; exact hR.bind (hcall _ _ _) fun _ ↦ ih _ _

theorem reduce (f self : Value) (start : Option Value) (values : List Value) :
    R Value (Action.reduce call f self start values)
      (Action.reduce call' f self start values) := by
  cases start with
  | some acc => exact hR.foldCalls hcall f self values 0 acc
  | none =>
    cases values with
    | nil => exact hR.typeError _ (.of_ne (by decide))
    | cons first rest => exact hR.foldCalls hcall f self rest 1 first

/-- A comparator is a callback as well. -/
theorem itemOrder (comparator : Option Value) (a b : Value) :
    R Ordering (Action.itemOrder call comparator a b) (Action.itemOrder call' comparator a b) := by
  cases comparator with
  | some f =>
    exact hR.bind (hcall _ _ _) fun v ↦ hR.bind (hR.number v) fun _ ↦ hR.pure _
  | none => exact hR.bind (hR.text a) fun _ ↦ hR.bind (hR.text b) fun _ ↦ hR.pure _

omit hcall in
theorem insertItem {order order' : Value → Value → Action Ordering}
    (horder : ∀ a b, R Ordering (order a b) (order' a b)) (v : Value) (sorted : List Value) :
    R (List Value) (Action.insertItem order v sorted) (Action.insertItem order' v sorted) := by
  induction sorted with
  | nil => exact hR.pure _
  | cons w rest ih =>
    refine hR.bind (horder w v) fun o ↦ ?_
    cases o with
    | gt => exact hR.bind ih fun _ ↦ hR.pure _
    | lt => exact hR.pure _
    | eq => exact hR.pure _

omit hcall in
theorem insertAll {order order' : Value → Value → Action Ordering}
    (horder : ∀ a b, R Ordering (order a b) (order' a b)) (values : List Value) :
    ∀ sorted, R (List Value) (Action.insertAll order sorted values)
      (Action.insertAll order' sorted values) := by
  induction values with
  | nil => intro sorted; exact hR.pure _
  | cons v rest ih =>
    intro sorted
    exact hR.bind (hR.insertItem horder v sorted) fun _ ↦ ih _

/-- A sort compares the same items in the same order. -/
theorem sort (a : ArrayId) (args : List Value) :
    R Unit (Action.sort call a args) (Action.sort call' a args) :=
  hR.bind (hR.items a) fun values ↦
    hR.bind (hR.insertAll (hR.itemOrder hcall _) values []) fun _ ↦ hR.setItems a _

omit hcall in
/-- Callbacks go through the items that the receiver has when the method starts. -/
theorem arrayCalls {α : Type} (args : List Value) (self : Value) (method : String)
    {x y : Value → List Value → Action α} (h : ∀ f values, R α (x f values) (y f values)) :
    R α
      (do
        let f ← Action.callback args method
        x f (← Action.items (← Action.arrayReceiver self method)))
      (do
        let f ← Action.callback args method
        y f (← Action.items (← Action.arrayReceiver self method))) :=
  hR.bind (hR.callback args method) fun f ↦
    hR.bind (hR.arrayReceiver self method) fun a ↦ hR.bind (hR.items a) fun values ↦ h f values

/-- Every method of arrays except the one that may overlap. -/
theorem arrayMethod (m : ArrayMethod) (hm : m ≠ .splice) (self : Value) (args : List Value) :
    R Value (Action.arrayMethod call m self args) (Action.arrayMethod call' m self args) := by
  cases m with
  | push =>
    exact hR.bind (hR.arrayReceiver self _) fun a ↦
      hR.bind (hR.modifyHeap _ fun h ↦ .modifyArray h a _) fun _ ↦ hR.sizeOf a
  | pop => exact hR.bind (hR.arrayReceiver self _) fun a ↦ hR.pop a
  | shift => exact hR.bind (hR.arrayReceiver self _) fun a ↦ hR.shift a
  | unshift =>
    exact hR.bind (hR.arrayReceiver self _) fun a ↦ hR.bind (hR.items a) fun _ ↦
      hR.bind (hR.setItems a _) fun _ ↦ hR.sizeOf a
  | splice => exact absurd rfl hm
  | slice => exact hR.bind (hR.arrayReceiver self _) fun a ↦ hR.slice a args
  | concat => exact hR.bind (hR.arrayReceiver self _) fun a ↦ hR.concat a args
  | reverse =>
    exact hR.bind (hR.arrayReceiver self _) fun a ↦
      hR.bind (hR.modifyHeap _ fun h ↦ .modifyArray h a _) fun _ ↦ hR.pure _
  | join =>
    refine hR.bind (hR.arrayReceiver self _) fun a ↦ ?_
    split
    · exact hR.read fun _ ↦ hR.pure _
    · exact hR.read fun _ ↦ hR.bind (hR.text _) fun _ ↦ hR.pure _
  | includes =>
    exact hR.bind (hR.arrayReceiver self _) fun a ↦ hR.bind (hR.items a) fun _ ↦ hR.pure _
  | indexOf =>
    refine hR.bind (hR.arrayReceiver self _) fun a ↦ hR.bind (hR.items a) fun values ↦ ?_
    split
    · exact hR.pure _
    · exact hR.pure _
  | forEach =>
    exact hR.arrayCalls args self _ fun f values ↦
      hR.bind (hR.discard (hR.mapCalls hcall f self values 0)) fun _ ↦ hR.pure _
  | map =>
    exact hR.arrayCalls args self _ fun f values ↦
      hR.bind (hR.mapCalls hcall f self values 0) fun _ ↦ hR.newArray _
  | filter =>
    exact hR.arrayCalls args self _ fun f values ↦
      hR.bind (hR.mapCalls hcall f self values 0) fun _ ↦ hR.newArray _
  | find =>
    exact hR.arrayCalls args self _ fun f values ↦
      hR.bind (hR.firstCall hcall f self true values 0) fun _ ↦ hR.pure _
  | findIndex =>
    refine hR.arrayCalls args self _ fun f values ↦
      hR.bind (hR.firstCall hcall f self true values 0) fun hit ↦ ?_
    split
    · exact hR.pure _
    · exact hR.pure _
  | some =>
    exact hR.arrayCalls args self _ fun f values ↦
      hR.bind (hR.firstCall hcall f self true values 0) fun _ ↦ hR.pure _
  | every =>
    exact hR.arrayCalls args self _ fun f values ↦
      hR.bind (hR.firstCall hcall f self false values 0) fun _ ↦ hR.pure _
  | reduce =>
    exact hR.arrayCalls args self _ fun f values ↦ hR.reduce hcall f self _ values
  | sort =>
    exact hR.bind (hR.arrayReceiver self _) fun a ↦
      hR.bind (hR.sort hcall a args) fun _ ↦ hR.pure _

end Callbacks

/-! ### Functions -/

include hcall in
theorem functionMethod (m : FunctionMethod) (self : Value) (args : List Value) :
    R Value (Action.functionMethod call m self args)
      (Action.functionMethod call' m self args) := by
  cases m with
  | call => exact hcall _ _ _
  | apply =>
    dsimp only [Action.functionMethod]
    split
    · exact hR.read fun _ ↦ hcall _ _ _
    · exact hcall _ _ _
    · exact hcall _ _ _
    · exact hR.typeError _ (.of_ne (by decide))
  | bind =>
    cases self with
    | function f => exact hR.newFunction _ trivial
    | _ => exact hR.typeError _ (.of_typeName _ _)

/-! ### Capabilities -/

theorem ref (v : Value) : R Value (Action.ref v) (Action.ref v) := by
  refine hR.read fun h ↦ ?_
  split
  · exact hR.pure v
  · exact hR.map (hR.newObject _ _) Value.object

theorem computed (v : Value) : R Value (Action.computed v) (Action.computed v) := by
  cases v with
  | function f => exact hR.map (hR.newObject _ _) Value.object
  | object o =>
    refine hR.read fun h ↦ ?_
    dsimp only
    split
    · exact hR.map (hR.newObject _ _) Value.object
    · exact hR.typeError _ (.of_ne (by decide))
  | _ => exact hR.typeError _ (.of_ne (by decide))

theorem watchSource (v : Value) : R WatchSource (Action.watchSource v) (Action.watchSource v) := by
  cases v with
  | function f => exact hR.pure _
  | _ => exact hR.read fun _ ↦ hR.pure _

theorem newWatcher (source : WatchSource) (callback last : Value) :
    R Watcher (Action.newWatcher source callback last) (Action.newWatcher source callback last) :=
  hR.bind (hR.allocate _ Heap.Extends.newSwitch) fun _ ↦ hR.read fun _ ↦ hR.pure _

theorem register (hook : LifecycleHook) (callback : Value) :
    R Value (Action.register hook callback) (Action.register hook callback) := by
  dsimp only [Action.register]
  split
  · exact hR.typeError _ (.of_suffix (by decide))
  · exact hR.bind (hR.addHook hook callback) fun _ ↦ hR.pure _

theorem nodeData (store : NodeStore) (id : Value) :
    R Value (Action.nodeData store id) (Action.nodeData store id) := by
  dsimp only [Action.nodeData]
  split
  · exact hR.typeError _ (.of_ne (by decide))
  · refine hR.bind (hR.text id) fun name ↦ ?_
    split
    · exact hR.allocate _ fun h ↦ .ofDocument h _
    · exact hR.pure _

section Calls

include hcall

theorem unref (v : Value) : R Value (Action.unref call v) (Action.unref call' v) := by
  refine hR.read fun h ↦ ?_
  split
  · exact hR.getProperty hcall v "value"
  · exact hR.pure v

/-- A source is read by a call or as a cell. -/
theorem readSource (source : WatchSource) :
    R Value (Action.readSource call source) (Action.readSource call' source) := by
  cases source with
  | getter f => exact hcall _ _ _
  | cell v => exact hR.getProperty hcall v "value"
  | value v => exact hR.pure v
  | effect f => exact hR.pure _

/-- Watching reads the source once and adds a watcher. -/
theorem watch (hadd : ∀ w, R Unit (Action.addWatcher w) (Action.addWatcher w))
    (source callback options : Value) :
    R Value (Action.watch call source callback options)
      (Action.watch call' source callback options) := by
  dsimp only [Action.watch]
  split
  · exact hR.typeError _ (.of_ne (by decide))
  · refine hR.bind (hR.watchSource source) fun source ↦ hR.bind hR.isRegistering fun b ↦ ?_
    split
    · exact hR.newNative _
    · refine hR.bind (hR.readSource hcall source) fun current ↦
        hR.bind (hR.newWatcher source callback current) fun watcher ↦
        hR.bind (hR.newNative _) fun stop ↦ hR.bind (hadd watcher) fun _ ↦
        hR.read fun h ↦ ?_
      split
      · exact hR.bind (hR.discard (hcall _ _ _)) fun _ ↦ hR.pure stop
      · exact hR.pure stop

theorem watchEffect (hadd : ∀ w, R Unit (Action.addWatcher w) (Action.addWatcher w))
    (effect : Value) :
    R Value (Action.watchEffect call effect) (Action.watchEffect call' effect) := by
  dsimp only [Action.watchEffect]
  split
  · exact hR.typeError _ (.of_ne (by decide))
  · refine hR.bind hR.isRegistering fun b ↦ ?_
    split
    · exact hR.newNative _
    · exact hR.bind (hR.discard (hcall _ _ _)) fun _ ↦ hR.bind (hR.newWatcher _ _ _) fun w ↦
        hR.bind (hR.newNative _) fun stop ↦ hR.bind (hadd w) fun _ ↦ hR.pure stop

/-- Capabilities that register watchers, where any watcher may be registered. -/
theorem watches (hadd : ∀ w, R Unit (Action.addWatcher w) (Action.addWatcher w)) {c : Capability}
    (hc : c.Watches) (args : List Value) :
    R Value (Action.capability call c args) (Action.capability call' c args) := by
  rcases hc with rfl | rfl
  · exact hR.watch hcall hadd _ _ _
  · exact hR.watchEffect hcall hadd _

theorem readPath (segments : List String) :
    ∀ v, R Value (Action.readPath call v segments) (Action.readPath call' v segments) := by
  induction segments with
  | nil => intro v; exact hR.pure v
  | cons key rest ih =>
    intro v
    dsimp only [Action.readPath]
    split
    · exact hR.pure _
    · exact hR.bind (hR.getProperty hcall v key) fun v ↦ ih v

/-- Every capability, if those that add watchers are handled. -/
theorem capability (c : Capability) (args : List Value) (hwatches : c.Watches →
      R Value (Action.capability call c args) (Action.capability call' c args)) :
    R Value (Action.capability call c args) (Action.capability call' c args) := by
  cases c with
  | ref => exact hR.ref _
  | reactive => exact hR.pure _
  | computed => exact hR.computed _
  | watch => exact hwatches (.inl rfl)
  | watchEffect => exact hwatches (.inr rfl)
  | defineComponent => exact hR.pure _
  | nextTick => exact hR.nextTick _
  | defineProps => exact hR.properties
  | unref => exact hR.unref hcall _
  | isRef => exact hR.read fun _ ↦ hR.pure _
  | register hook => exact hR.register hook _

/-- Every native function, if those that add watchers are handled. -/
theorem native (n : Native) (hn : n.IsRegular) (self : Value) (args : List Value)
    (hwatches : ∀ c : Capability, c.Watches →
      R Value (Action.capability call c args) (Action.capability call' c args)) :
    R Value (Action.native call n self args) (Action.native call' n self args) := by
  cases n with
  | text m => exact hR.textMethod hcall m self args
  | number m => exact hR.numberMethod m self args
  | array m => exact hR.arrayMethod hcall m hn self args
  | hasOwnProperty => exact hR.read fun _ ↦ hR.pure _
  | function m => exact hR.functionMethod hcall m self args
  | capability c => exact hR.capability hcall c args (hwatches c)
  | stop switch =>
    cases switch with
    | some id => exact hR.bind (hR.modifyHeap _ fun h ↦ .switchOff h id) fun _ ↦ hR.pure _
    | none => exact hR.pure _
  | nodeData store => exact hR.nodeData store _
  | emit => exact hR.pure _
  | path root segments => exact hR.readPath hcall segments root

end Calls

end Congruence

end Nodecraft.Sandbox
