import Nodecraft.Proofs.Component.Setup
import Nodecraft.Proofs.Sandbox.Counters
import Nodecraft.Proofs.Template.Rules

/-!
# Operations on instances over two machines

A mounted instance has its machine call functions, read properties and sources, flush what was
deferred, and render and handle events. A relation that holds of these actions over two machines
(`Machine.Serves`), and of the few changes that an operation makes to the instance itself, is kept by
running one part of an operation after another (`Instance.Respects`), and then it holds of whole
operations.

The relation is about operations at an instance: what a watcher reports is reported of the watcher that
the instance has.
-/

set_option autoImplicit false

namespace Nodecraft

open Sandbox

/-- The state that an operation leaves, however it ends. -/
def left {ε σ α : Type} : EStateM.Result ε σ α → σ
  | .ok _ s => s
  | .error _ s => s

/-- Whether an operation has not failed. -/
def succeeds {ε σ α : Type} : EStateM.Result ε σ α → Bool
  | .ok _ _ => true
  | .error _ _ => false

/-- What succeeds returns something. -/
theorem exists_eq_ok {ε σ α : Type} {r : EStateM.Result ε σ α} (h : succeeds r = true) :
    ∃ a, r = .ok a (left r) := by
  cases r with
  | ok a s => exact ⟨a, rfl⟩
  | error e s => cases h

/-- A relation between actions that holds of what instances have two machines do. -/
structure Sandbox.Machine.Serves (R : (α : Type) → Action α → Action α → Prop) (m m' : Machine) :
    Prop where
  typeError {α : Type} (message : String) :
    R α (Action.typeError message) (Action.typeError message)
  ofDocument (j : Json) : R Value (Action.ofDocument j) (Action.ofDocument j)
  newFunction (fn : Function) : R Value (Action.newFunction fn) (Action.newFunction fn)
  newObject (kind : ObjectKind) (fields : Fields Value) :
    R ObjectId (Action.newObject kind fields) (Action.newObject kind fields)
  newWatcher (source : WatchSource) (callback last : Value) :
    R Watcher (Action.newWatcher source callback last) (Action.newWatcher source callback last)
  call : Caller.Related R m.call m'.call
  getProperty (target : Value) (key : String) :
    R Value (Action.getProperty m.call target key) (Action.getProperty m'.call target key)
  readSource (source : WatchSource) :
    R Value (Action.readSource m.call source) (Action.readSource m'.call source)
  flushTicks : R Unit (Action.flushTicks m.call) (Action.flushTicks m'.call)
  run (t : Template) (registered : Template.Registered) (state : Value) :
    R Template.Output (t.runOn m registered state) (t.runOn m' registered state)
  invoke (t : Template) (bound : Template.BoundHandler) (event : Value) :
    R Unit (t.invokeOn m bound event) (t.invokeOn m' bound event)

/-- A relation that the rules of evaluation respect holds of what instances have machines do. -/
theorem Sandbox.Machine.Related.serves {R : (α : Type) → Action α → Action α → Prop}
    {m m' : Machine} (h : ∀ size, Machine.Related R (fun _ ↦ True) size m m')
    (htake : R (List Value) Action.takeTicks Action.takeTicks)
    (hraise : ∀ {α : Type} (e : ScriptError), e.isCatchable = true →
      R α (Action.raise e) (Action.raise e))
    (hunfinished : ∀ {α : Type}, R α (throw .unfinished) (throw .unfinished)) : m.Serves R m' where
  typeError _ := hraise _ rfl
  ofDocument j := (h 0).allocate _ fun h ↦ .ofDocument h j
  newFunction fn := (h 0).newFunction fn fn.within_true
  newObject := (h 0).newObject
  newWatcher := (h 0).newWatcher
  call := (h 0).call
  getProperty := (h 0).getProperty (h 0).call
  readSource := (h 0).readSource (h 0).call
  flushTicks := (h 0).flushTicks htake (hraise _ rfl)
  run t registered state :=
    (Template.Respects.of_asked (fun size ↦ (h size).asked) hraise hunfinished).run
      registered t state
  invoke := Template.invokeOn_related h

theorem Sandbox.Machine.Serves.all (m m' : Machine) : m.Serves (fun _ _ _ ↦ True) m' :=
  ⟨fun _ ↦ trivial, fun _ ↦ trivial, fun _ ↦ trivial, fun _ _ ↦ trivial, fun _ _ _ ↦ trivial,
    fun _ _ _ ↦ trivial, fun _ _ ↦ trivial, fun _ ↦ trivial, trivial, fun _ _ _ ↦ trivial,
    fun _ _ _ ↦ trivial⟩

theorem Sandbox.Machine.Serves.mono {R R' : (α : Type) → Action α → Action α → Prop} {m m' : Machine}
    (h : m.Serves R m') (hR : ∀ {α : Type} {x y : Action α}, R α x y → R' α x y) : m.Serves R' m' where
  typeError message := hR (h.typeError message)
  ofDocument j := hR (h.ofDocument j)
  newFunction fn := hR (h.newFunction fn)
  newObject kind fields := hR (h.newObject kind fields)
  newWatcher source callback last := hR (h.newWatcher source callback last)
  call f self args := hR (h.call f self args)
  getProperty target key := hR (h.getProperty target key)
  readSource source := hR (h.readSource source)
  flushTicks := hR h.flushTicks
  run t registered state := hR (h.run t registered state)
  invoke t bound event := hR (h.invoke t bound event)

namespace Instance

/-- An instance in another world. -/
def inWorld (i : Instance) (w : World) : Instance := { i with world := w }

theorem get_eq (i : Instance) : (EStateM.get : Op Instance) i = .ok i i := rfl

/-- What scripts do is done in the world of the instance. -/
theorem lift_of_ok {α : Type} {x : Action α} {i : Instance} {a : α} {w : World}
    (h : x i.world = .ok a w) : lift x i = .ok a (i.inWorld w) := by
  unfold lift
  rw [h]
  rfl

theorem lift_of_error {α : Type} {x : Action α} {i : Instance} {e : Failure} {w : World}
    (h : x i.world = .error e w) : lift x i = .error e (i.inWorld w) := by
  unfold lift
  rw [h]
  rfl

/-- Whatever comes of it, the world that is left is the instance's. -/
theorem left_lift {α : Type} (x : Action α) (i : Instance) :
    left (lift x i) = i.inWorld (finalWorld (x i.world)) := by
  cases hx : x i.world with
  | ok a w => rw [lift_of_ok hx]; rfl
  | error e w => rw [lift_of_error hx]; rfl

/-- One operation after another leaves what the second one leaves, unless the first one fails. -/
theorem left_bind {α β : Type} (x : Op α) (f : α → Op β) (i : Instance) :
    left ((x >>= f) i) = left (x i) ∨
      ∃ a, x i = .ok a (left (x i)) ∧ left ((x >>= f) i) = left (f a (left (x i))) := by
  cases hx : x i with
  | ok a j => exact .inr ⟨a, rfl, congrArg left (bind_of_ok hx)⟩
  | error e j => exact .inl (congrArg left (bind_of_error hx))

theorem lift_eq_ok {α : Type} {x : Action α} {i j : Instance} {a : α} (h : lift x i = .ok a j) :
    ∃ w, x i.world = .ok a w ∧ j = i.inWorld w := by
  cases hx : x i.world with
  | error e w =>
    rw [lift_of_error hx] at h
    cases h
  | ok b w =>
    rw [lift_of_ok hx] at h
    cases h
    exact ⟨w, rfl, rfl⟩

/-! ### The way to a mounted instance -/

/-- Everything up to the moment at which the created hook is called. Gives the options. -/
def prepare : Op Component.Options := do
  runSetup
  let options := (← EStateM.get).component.options
  bindMethods options.methods
  bindComputed options.computed
  return options

/-- What follows setup in it. -/
def bindOptions : Op Component.Options := do
  let options := (← EStateM.get).component.options
  bindMethods options.methods
  bindComputed options.computed
  return options

/-- Preparation is setup, then the options. -/
theorem prepare_eq : prepare = (do runSetup; bindOptions) := rfl

/-- The hooks of mounting, with the watchers of the options between them. -/
def launchOn (m : Machine) (watch : Fields Value) : Op Unit := do
  callHookOn m .created
  addOptionWatchersOn m watch
  callHookOn m .beforeMount
  callHookOn m .mounted

/-- A start is preparation, launch and the first settling. -/
theorem start_eq : start = (do
    let options ← prepare
    launchOn machine options.watch
    settle) := by
  unfold start prepare launchOn
  simp only [bind_assoc, pure_bind]
  rfl

/-! ### Relations between operations -/

/-- A relation between operations at an instance that is kept by running one after another and holds
of what operations are made of. -/
structure Respects (S : (α : Type) → Instance → Op α → Op α → Prop)
    (R : (α : Type) → Action α → Action α → Prop) (m m' : Machine) : Prop
    extends m.Serves R m' where
  pure {α : Type} (i : Instance) (a : α) : S α i (pure a) (pure a)
  bind {α β : Type} {i : Instance} {x y : Op α} {f g : α → Op β} : S α i x y →
    (∀ a j, x i = .ok a j → S β j (f a) (g a)) → S β i (x >>= f) (y >>= g)
  read {β : Type} {i : Instance} {f g : Instance → Op β} : S β i (f i) (g i) →
    S β i (EStateM.get >>= f) (EStateM.get >>= g)
  lift {α : Type} (i : Instance) {x y : Action α} : R α x y → S α i (lift x) (lift y)

/-- The relation holds between an instance and what the operation leaves of it, however it ends. -/
def Op.Within {α : Type} (R : Instance → Instance → Prop) (x : Op α) : Prop :=
  ∀ i, R i (left (x i))

/-- A relation between instances that outlasts one operation after another. -/
theorem Respects.ofPreorder {R : Instance → Instance → Prop}
    {Q : (α : Type) → Action α → Action α → Prop} {m m' : Machine} (hserves : m.Serves Q m')
    (hrefl : ∀ i, R i i) (htrans : ∀ {i j k}, R i j → R j k → R i k)
    (hlift : ∀ {α : Type} (i : Instance) {x y : Action α}, Q α x y →
      R i (i.inWorld (finalWorld (x i.world)))) :
    Respects (fun _ i x _ ↦ R i (left (x i))) Q m m' where
  toServes := hserves
  pure i _ := hrefl i
  bind {_ _ i x _ f _} hx hf := by
    cases hr : x i with
    | ok a j =>
      rw [hr] at hx
      rw [bind_of_ok hr]
      exact htrans hx (hf a j hr)
    | error e j =>
      rw [hr] at hx
      rw [bind_of_error hr]
      exact hx
  read hf := hf
  lift {_} i {x y} hxy := by
    rw [left_lift]
    exact hlift i hxy

/-- A relation that also holds of what rendering does, and the end of an instance. -/
structure Works (S : (α : Type) → Instance → Op α → Op α → Prop)
    (R : (α : Type) → Action α → Action α → Prop) (m m' : Machine) : Prop
    extends Respects S R m m' where
  shows (i : Instance) (handlers : Array Template.BoundHandler) :
    S PUnit i (modify fun i ↦ { i with handlers := handlers })
      (modify fun i ↦ { i with handlers := handlers })
  /-- A state loses its functions. -/
  close (i : Instance) : S Unit i
    (Instance.lift (Action.modifyHeap fun h ↦ h.modifyObject i.state fun object ↦
      { object with fields := object.fields.filter fun f ↦ !f.2.isFunction }))
    (Instance.lift (Action.modifyHeap fun h ↦ h.modifyObject i.state fun object ↦
      { object with fields := object.fields.filter fun f ↦ !f.2.isFunction }))
  finish (i : Instance) : S PUnit i
    (modify fun i ↦ { i with mounted := false, hooks := .empty, handlers := #[] })
    (modify fun i ↦ { i with mounted := false, hooks := .empty, handlers := #[] })

/-- A relation that also holds of what watchers report. -/
structure Observes (S : (α : Type) → Instance → Op α → Op α → Prop)
    (R : (α : Type) → Action α → Action α → Prop) (m m' : Machine) : Prop
    extends Respects S R m m' where
  report {i : Instance} {index : Nat} {w : Watcher} (current : Value) (snapshot : Json) :
    i.hooks.watchers[index]? = some w →
    S Unit i (report index w current snapshot) (report index w current snapshot)

/-- Watchers of the options are registered with what their getters have just given. -/
def RegistersWatchers (S : (α : Type) → Instance → Op α → Op α → Prop) (m : Machine) : Prop :=
  ∀ {i j k : Instance} {getter callback current : Value} {w : Watcher},
    callOn m getter .undefined [] i = .ok current j →
    lift (Action.newWatcher (.getter getter) callback current) j = .ok w k →
    S PUnit k
      (modify fun i ↦ { i with hooks := { i.hooks with watchers := i.hooks.watchers.push w } })
      (modify fun i ↦ { i with hooks := { i.hooks with watchers := i.hooks.watchers.push w } })

/-- A relation that also holds of putting values into the state. -/
structure Defines (S : (α : Type) → Instance → Op α → Op α → Prop)
    (R : (α : Type) → Action α → Action α → Prop) (m m' : Machine) : Prop
    extends Respects S R m m' where
  define (i : Instance) (key : String) (v : Value) : S Unit i (define key v) (define key v)

/-- A relation that also holds of what is done to an instance while it is mounted. -/
structure Mounts (S : (α : Type) → Instance → Op α → Op α → Prop)
    (R : (α : Type) → Action α → Action α → Prop) (m m' : Machine) : Prop
    extends Defines S R m m' where
  setup (setup : Value) : R (Value × HookRegistry) (registering (callSetup setup))
    (registering (callSetup setup))
  /-- An instance takes over what setup has registered. -/
  hooks {i j : Instance} {setup : Value} {r : Value × HookRegistry} :
    Instance.lift (registering (callSetup setup)) i = .ok r j →
    S PUnit j (modify fun i ↦ { i with hooks := r.2 }) (modify fun i ↦ { i with hooks := r.2 })
  watch : RegistersWatchers S m

namespace Respects

variable {S : (α : Type) → Instance → Op α → Op α → Prop}
  {R : (α : Type) → Action α → Action α → Prop} {m m' : Machine} (h : Respects S R m m')
  {α : Type}

include h

theorem discard {i : Instance} {x y : Op α} (hxy : S α i x y) :
    S PUnit i (discard x) (discard y) :=
  h.bind hxy fun _ j _ ↦ h.pure j _

theorem ownState (i : Instance) : S Value i ownState ownState := h.read (h.pure i _)

theorem heap (i : Instance) : S Heap i heap heap := h.read (h.pure i _)

/-- Calls of machines that serve alike. -/
theorem callOn (i : Instance) (f self : Value) (args : List Value) :
    S Value i (callOn m f self args) (callOn m' f self args) :=
  h.lift i (h.call f self args)

theorem getOn (i : Instance) (key : String) : S Value i (getOn m key) (getOn m' key) :=
  h.bind (h.ownState i) fun _ j _ ↦ h.lift j (h.getProperty _ key)

/-! ### Functions bound to the state -/

theorem bind? (i : Instance) (v : Value) : S (Option Value) i (bind? v) (bind? v) := by
  cases v with
  | function f =>
    exact h.bind (h.ownState i) fun self j _ ↦
      h.bind (h.lift j (h.newFunction _)) fun _ k _ ↦ h.pure k _
  | _ => exact h.pure i _

theorem bindOwn? (i : Instance) (o : ObjectId) (key : String) :
    S (Option Value) i (bindOwn? o key) (bindOwn? o key) := by
  refine h.bind (h.heap i) fun heap j _ ↦ ?_
  cases heap.own? o key with
  | none => exact h.pure j _
  | some v => exact h.bind? j v

/-- Cells are made alike. -/
theorem cellOf (i : Instance) (getter setter : Option Value) :
    S (Option Value) i (cellOf getter setter) (cellOf getter setter) := by
  cases getter with
  | none => exact h.pure i _
  | some getter => exact h.bind (h.lift i (h.newObject _ _)) fun _ j _ ↦ h.pure j _

theorem computedCell? (i : Instance) (definition : Value) :
    S (Option Value) i (computedCell? definition) (computedCell? definition) := by
  have hplain (v : Value) : S (Option Value) i
      (Instance.bind? v >>= fun getter ↦ Instance.cellOf getter none)
      (Instance.bind? v >>= fun getter ↦ Instance.cellOf getter none) :=
    h.bind (h.bind? i v) fun getter j _ ↦ h.cellOf j getter none
  cases definition with
  | object o =>
    exact h.bind (h.bindOwn? i o "get") fun getter j _ ↦
      h.bind (h.bindOwn? j o "set") fun setter k _ ↦ h.cellOf k getter setter
  | _ => exact hplain _

/-! ### Hooks and watchers of the options -/

theorem callAllOn (callbacks : List Value) : ∀ i : Instance,
    S Unit i (callAllOn m callbacks) (callAllOn m' callbacks) := by
  induction callbacks with
  | nil => exact fun i ↦ h.pure i _
  | cons f rest ih =>
    exact fun i ↦ h.bind (h.discard (h.callOn i f .undefined [])) fun _ j _ ↦ ih j

/-- The callbacks of a hook are called in their order. -/
theorem callHookOn (i : Instance) (hook : LifecycleHook) :
    S Unit i (callHookOn m hook) (callHookOn m' hook) := by
  have hall (i : Instance) : S Unit i (do Instance.callAllOn m ((← EStateM.get).hooks.callbacks hook))
      (do Instance.callAllOn m' ((← EStateM.get).hooks.callbacks hook)) :=
    h.read (h.callAllOn _ i)
  refine h.read ?_
  cases i.component.hook hook with
  | none => exact hall i
  | some f =>
    exact h.bind (h.ownState i) fun self j _ ↦
      h.bind (h.discard (h.callOn j f self [])) fun _ k _ ↦ hall k

theorem watchCallbackOn (i : Instance) (handler : Value) :
    S Value i (watchCallbackOn m handler) (watchCallbackOn m' handler) := by
  cases handler with
  | string method => exact h.getOn i method
  | _ => exact h.bind (h.bind? i _) fun _ j _ ↦ h.pure j _

section

variable (hwatch : RegistersWatchers S m)

include hwatch

theorem addOptionWatcherOn (i : Instance) (path : String) (definition : Value) :
    S Unit i (addOptionWatcherOn m path definition) (addOptionWatcherOn m' path definition) := by
  refine h.bind (h.heap i) fun heap j _ ↦ ?_
  generalize watchParts heap definition = parts
  refine h.bind (h.watchCallbackOn j parts.1) fun callback k _ ↦ ?_
  split
  · refine h.bind (h.ownState k) fun self k _ ↦ ?_
    refine h.bind (h.lift k (h.newFunction _)) fun getter k _ ↦ ?_
    refine h.bind (h.callOn k getter .undefined []) fun current k hcurrent ↦ ?_
    refine h.bind (h.lift k (h.newWatcher _ _ _)) fun watcher k hwatcher ↦ ?_
    refine h.bind (hwatch hcurrent hwatcher) fun _ k _ ↦ ?_
    split
    · exact h.bind (h.ownState k) fun self l _ ↦ h.discard (h.callOn l callback self _)
    · exact h.pure k _
  · exact h.pure k _

theorem addOptionWatchersOn (watch : Fields Value) : ∀ i : Instance,
    S Unit i (addOptionWatchersOn m watch) (addOptionWatchersOn m' watch) := by
  induction watch with
  | nil => exact fun i ↦ h.pure i _
  | cons f rest ih =>
    exact fun i ↦ h.bind (h.addOptionWatcherOn hwatch i f.1 f.2) fun _ j _ ↦ ih j

/-- A launch adds the watchers of the options and calls the hooks. -/
theorem launchOn (i : Instance) (watch : Fields Value) :
    S Unit i (launchOn m watch) (launchOn m' watch) :=
  h.bind (h.callHookOn i .created) fun _ i _ ↦
    h.bind (h.addOptionWatchersOn hwatch watch i) fun _ i _ ↦
    h.bind (h.callHookOn i .beforeMount) fun _ i _ ↦ h.callHookOn i .mounted

end

/-! ### Operations -/

theorem stateFieldsOn (keys : List String) : ∀ i : Instance,
    S (List (String × Json)) i (stateFieldsOn m keys) (stateFieldsOn m' keys) := by
  induction keys with
  | nil => exact fun i ↦ h.pure i _
  | cons key rest ih =>
    refine fun i ↦ h.bind (h.getOn i key) fun v j _ ↦ ?_
    have hentry (v : Value) : S (List (String × Json)) j
        (do
          let entry := (key, (← Instance.heap).document v)
          return entry :: (← Instance.stateFieldsOn m rest))
        (do
          let entry := (key, (← Instance.heap).document v)
          return entry :: (← Instance.stateFieldsOn m' rest)) :=
      h.bind (h.heap j) fun _ k _ ↦ h.bind (ih k) fun _ l _ ↦ h.pure l _
    cases v with
    | undefined => exact ih j
    | function f => exact ih j
    | _ => exact hentry _

theorem stateJsonOn (i : Instance) : S Json i (stateJsonOn m) (stateJsonOn m') :=
  h.read (h.bind (h.stateFieldsOn _ i) fun _ j _ ↦ h.pure j _)

/-- An event is handled alike. -/
theorem handleOn (i : Instance) (id : Nat) (event : Json) :
    S Unit i (handleOn m id event) (handleOn m' id event) := by
  refine h.read ?_
  cases i.handlers[id]? with
  | none => exact h.lift i (h.typeError _)
  | some bound =>
    exact h.bind (h.lift i (h.ofDocument event)) fun v j _ ↦ h.lift j (h.invoke _ bound v)

theorem documents (js : List Json) : ∀ i : Instance,
    S (List Value) i (js.mapM fun j ↦ Instance.lift (Action.ofDocument j))
      (js.mapM fun j ↦ Instance.lift (Action.ofDocument j)) := by
  induction js with
  | nil => exact fun i ↦ h.pure i _
  | cons j rest ih =>
    intro i
    rw [List.mapM_cons]
    exact h.bind (h.lift i (h.ofDocument j)) fun _ k _ ↦ h.bind (ih k) fun _ l _ ↦ h.pure l _

/-- A method is run alike. -/
theorem runMethodOn (i : Instance) (name : String) (args : List Json) :
    S Value i (runMethodOn m name args) (runMethodOn m' name args) := by
  refine h.bind (h.getOn i name) fun method j _ ↦ ?_
  split
  · exact h.bind (h.documents args j) fun args k _ ↦ h.bind (h.ownState k) fun self l _ ↦
      h.callOn l method self args
  · exact h.lift j (h.typeError _)

end Respects

namespace Works

variable {S : (α : Type) → Instance → Op α → Op α → Prop}
  {R : (α : Type) → Action α → Action α → Prop} {m m' : Machine} (h : Works S R m m')

include h

/-- A template is rendered alike. -/
theorem renderOn (i : Instance) : S (List View.Node) i (renderOn m) (renderOn m') :=
  h.read (h.bind (h.lift i (h.run _ _ _)) fun output j _ ↦
    h.bind (h.shows j output.handlers) fun _ k _ ↦ h.pure k _)

/-- An instance is unmounted alike. -/
theorem unmountOn (i : Instance) : S Unit i (unmountOn m) (unmountOn m') := by
  refine h.read ?_
  split
  · exact h.bind (h.callHookOn i .beforeUnmount) fun _ j _ ↦
      h.bind (h.callHookOn j .unmounted) fun _ k _ ↦
      h.read (h.bind (h.close k) fun _ l _ ↦ h.finish l)
  · exact h.pure i _

end Works

namespace Observes

variable {S : (α : Type) → Instance → Op α → Op α → Prop}
  {R : (α : Type) → Action α → Action α → Prop} {m m' : Machine} (h : Observes S R m m')

include h

/-! ### Settling -/

/-- A watcher takes its turn alike. -/
theorem runWatcherOn (i : Instance) (index : Nat) :
    S Unit i (runWatcherOn m index) (runWatcherOn m' index) := by
  refine h.read ?_
  cases hw : i.hooks.watchers[index]? with
  | none => exact h.pure i _
  | some w =>
    have hsource (source : WatchSource) : S Unit i
        (do
          let current ← Instance.lift (Action.readSource m.call source)
          let snapshot := (← Instance.heap).document current
          if w.hasChanged current snapshot then
            Instance.report index w current snapshot
            Functor.discard (Instance.callOn m w.callback (← Instance.ownState) [current, w.last]))
        (do
          let current ← Instance.lift (Action.readSource m'.call source)
          let snapshot := (← Instance.heap).document current
          if w.hasChanged current snapshot then
            Instance.report index w current snapshot
            Functor.discard
              (Instance.callOn m' w.callback (← Instance.ownState) [current, w.last])) := by
      refine h.bind (h.lift i (h.readSource source)) fun current j hj ↦ ?_
      obtain ⟨w₁, -, rfl⟩ := lift_eq_ok hj
      refine h.read ?_
      split
      · exact h.bind (h.report current _ hw) fun _ k _ ↦ h.bind (h.ownState k) fun self l _ ↦
          h.discard (h.callOn l _ self _)
      · exact h.pure _ _
    dsimp only
    split
    · cases w.source with
      | effect f => exact h.discard (h.callOn i f .undefined [])
      | _ => exact hsource _
    · exact h.pure i _

theorem runWatchersFromOn (count : Nat) : ∀ (i : Instance) (index : Nat),
    S Unit i (runWatchersFromOn m index count) (runWatchersFromOn m' index count) := by
  induction count with
  | zero => exact fun i _ ↦ h.pure i _
  | succ count ih =>
    exact fun i index ↦ h.bind (h.runWatcherOn i index) fun _ j _ ↦ ih j (index + 1)

/-- An instance settles alike. -/
theorem settleOn (i : Instance) : S Unit i (settleOn m) (settleOn m') :=
  h.bind (h.read (h.runWatchersFromOn _ i 0)) fun _ j _ ↦ h.lift j h.flushTicks

theorem triggerOn (i : Instance) (id : Nat) (event : Json) :
    S Unit i (triggerOn m id event) (triggerOn m' id event) :=
  h.bind (h.handleOn i id event) fun _ j _ ↦ h.settleOn j

theorem callMethodOn (i : Instance) (name : String) (args : List Json) :
    S Value i (callMethodOn m name args) (callMethodOn m' name args) :=
  h.bind (h.runMethodOn i name args) fun _ j _ ↦ h.bind (h.settleOn j) fun _ k _ ↦ h.pure k _

end Observes

namespace Defines

variable {S : (α : Type) → Instance → Op α → Op α → Prop}
  {R : (α : Type) → Action α → Action α → Prop} {m m' : Machine} (h : Defines S R m m')

include h

/-! ### Mounting -/

theorem mergeSetup (fields : Fields Value) : ∀ i : Instance,
    S Unit i (mergeSetup fields) (mergeSetup fields) := by
  induction fields with
  | nil => exact fun i ↦ h.pure i _
  | cons f rest ih =>
    obtain ⟨key, v⟩ := f
    intro i
    unfold Instance.mergeSetup
    split
    · exact h.bind (h.define i key v) fun _ j _ ↦ ih j
    · exact ih i

theorem defineNew (i : Instance) (key : String) {value? : Op (Option Value)}
    (hvalue : ∀ j, S (Option Value) j value? value?) :
    S Unit i (defineNew key value?) (defineNew key value?) := by
  have hhas : S Bool i (hasOwn key) (hasOwn key) := h.read (h.pure i _)
  refine h.bind hhas fun has j _ ↦ ?_
  split
  · refine h.bind (hvalue j) fun v? k _ ↦ ?_
    cases v? with
    | none => exact h.pure k _
    | some v => exact h.define k key v
  · exact h.pure j _

theorem bindMethods (methods : Fields Value) : ∀ i : Instance,
    S Unit i (bindMethods methods) (bindMethods methods) := by
  induction methods with
  | nil => exact fun i ↦ h.pure i _
  | cons f rest ih =>
    exact fun i ↦ h.bind (h.defineNew i f.1 fun j ↦ h.bind? j f.2) fun _ j _ ↦ ih j

theorem bindComputed (computed : Fields Value) : ∀ i : Instance,
    S Unit i (bindComputed computed) (bindComputed computed) := by
  induction computed with
  | nil => exact fun i ↦ h.pure i _
  | cons f rest ih =>
    exact fun i ↦ h.bind (h.defineNew i f.1 fun j ↦ h.computedCell? j f.2) fun _ j _ ↦ ih j

/-- The options are bound alike. -/
theorem bindOptions (i : Instance) : S Component.Options i bindOptions bindOptions :=
  h.read (h.bind (h.bindMethods _ i) fun _ j _ ↦ h.bind (h.bindComputed _ j) fun _ k _ ↦ h.pure k _)

end Defines

namespace Mounts

variable {S : (α : Type) → Instance → Op α → Op α → Prop}
  {R : (α : Type) → Action α → Action α → Prop} {m m' : Machine} (h : Mounts S R m m')

include h

/-- Setup is run alike. -/
theorem runSetup (i : Instance) : S Unit i runSetup runSetup := by
  refine h.read ?_
  cases i.component.options.setup with
  | none => exact h.pure i _
  | some setup =>
    exact h.bind (h.lift i (h.setup setup)) fun r j hsetup ↦
      h.bind (h.hooks hsetup) fun _ k _ ↦ h.bind (h.heap k) fun _ l _ ↦ h.mergeSetup _ l

/-- An instance is prepared alike. -/
theorem prepare (i : Instance) : S Component.Options i prepare prepare := by
  rw [prepare_eq]
  exact h.bind (h.runSetup i) fun _ j _ ↦ h.bindOptions j

omit h in
/-- The life of an instance up to the moment at which it is mounted. -/
theorem start (h : Mounts S R machine machine) (ho : Observes S R machine machine) (i : Instance) :
    S Unit i start start := by
  rw [start_eq]
  exact h.bind (h.prepare i) fun _ j _ ↦ h.bind (h.launchOn h.watch j _) fun _ k _ ↦ ho.settleOn k

end Mounts

end Instance

end Nodecraft
