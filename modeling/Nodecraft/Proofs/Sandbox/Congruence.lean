import Nodecraft.Proofs.Sandbox.Extension
import Nodecraft.Proofs.Sandbox.Outcome

/-!
# Relations between actions that the parts of evaluation respect

Every rule of evaluation is put together from a few primitive actions: reading and extending the
heap, raising errors, counting steps, entering and leaving, and running one action after another.
A relation between actions that holds of these and is kept by the ways of combining them is a
`Congruence`, and it then holds of every rule over related machines. A property of single actions
is the case of a relation that ignores its second action. What may be written to an object depends
on the object, so writing to objects is one of the primitive actions here.

This module goes through the actions that evaluate no code themselves: properties, names and
operators. Where such an action calls a function (a getter, say), it does so through a `Caller`,
and related callers give related actions.
-/

set_option autoImplicit false

namespace Nodecraft.Sandbox

open Script Evaluation

/-! ### Errors that scripts raise -/

/-- The error of a flush whose callbacks keep queueing themselves. -/
def ScriptError.requeueing : ScriptError := .type "nextTick callbacks kept re-queueing themselves"

/-- Errors that evaluation raises. A script could catch them, and they are not the error of a flush,
which no script can ask for. -/
structure ScriptError.IsScripted (e : ScriptError) : Prop where
  isCatchable : e.isCatchable = true
  ne_requeueing : e ≠ .requeueing

namespace ScriptError.IsScripted

theorem thrown (message : String) (value : Value) : (ScriptError.thrown message value).IsScripted :=
  ⟨rfl, nofun⟩

theorem unbound (name : String) : (ScriptError.unbound name).IsScripted := ⟨rfl, nofun⟩

/-- One error of a type is no script's: that of callbacks which keep queueing themselves. -/
theorem of_ne {message : String} (h : message ≠ "nextTick callbacks kept re-queueing themselves") :
    (ScriptError.type message).IsScripted :=
  ⟨rfl, fun he ↦ h (ScriptError.type.inj he)⟩

/-- A message is told from that of a flush by how it begins. -/
theorem of_start {s t : String}
    (h : ¬s.toList <+: "nextTick callbacks kept re-queueing themselves".toList) :
    (ScriptError.type (s ++ t)).IsScripted := by
  refine of_ne fun he ↦ h ?_
  rw [← he, String.toList_append]
  exact List.prefix_append _ _

/-- A message is told from that of a flush by how it ends. -/
theorem of_suffix {s t : String}
    (h : ¬t.toList <:+ "nextTick callbacks kept re-queueing themselves".toList) :
    (ScriptError.type (s ++ t)).IsScripted := by
  refine of_ne fun he ↦ h ?_
  rw [← he, String.toList_append]
  exact List.suffix_append _ _

/-- A message that ends with the name of a type. -/
theorem of_typeName (s : String) (v : Value) : (ScriptError.type (s ++ v.typeName)).IsScripted := by
  refine of_suffix ?_
  cases v <;> dsimp only [Value.typeName] <;> decide

end ScriptError.IsScripted

/-- The code of a function, if it has any, is of an admitted kind. -/
def Function.Within (Admits : FunctionDef → Prop) : Function → Prop
  | .closure code _ => Admits code
  | .native _ => True
  | .bound _ _ => True

theorem Function.within_true (fn : Function) : fn.Within fun _ ↦ True := by
  cases fn <;> exact trivial

/-- Calls of the same function with the same arguments are related. -/
def Caller.Related (R : (α : Type) → Action α → Action α → Prop) (call call' : Caller) : Prop :=
  ∀ f self args, R Value (call f self args) (call' f self args)

/-- A relation that holds of the primitive actions and is kept by their combinations, as long as
the code of all functions is admitted. -/
structure Congruence (R : (α : Type) → Action α → Action α → Prop)
    (Admits : FunctionDef → Prop) : Prop where
  pure {α : Type} (a : α) : R α (pure a) (pure a)
  bind {α β : Type} {x y : Action α} {f g : α → Action β} :
    R α x y → (∀ a, R β (f a) (g a)) → R β (x >>= f) (y >>= g)
  raise {α : Type} (e : ScriptError) : e.IsScripted → R α (Action.raise e) (Action.raise e)
  read {β : Type} {f g : Heap → Action β} :
    (∀ h, R β (f h) (g h)) → R β (Action.heap >>= f) (Action.heap >>= g)
  /-- What is done with a function depends on what the function is. -/
  function {β : Type} (id : FunctionId) {f g : Function → Action β} :
    (∀ fn, fn.Within Admits → R β (f fn) (g fn)) →
    R β (Action.heap >>= fun h ↦ f (h.function id)) (Action.heap >>= fun h ↦ g (h.function id))
  modifyHeap (f : Heap → Heap) : (∀ h : Heap, h.Extends (f h)) →
    R Unit (Action.modifyHeap f) (Action.modifyHeap f)
  allocate {α : Type} (f : Heap → α × Heap) : (∀ h : Heap, h.Extends (f h).2) →
    R α (Action.allocate f) (Action.allocate f)
  writeObject {call call' : Caller} : Caller.Related R call call' →
    ∀ (o : ObjectId) (key : String) (v : Value),
      R Unit (Action.writeObject call o key v) (Action.writeObject call' o key v)
  newFunction (fn : Function) : fn.Within Admits →
    R Value (Action.newFunction fn) (Action.newFunction fn)
  isRegistering : R Bool Action.isRegistering Action.isRegistering
  addHook (hook : LifecycleHook) (callback : Value) :
    R Unit (Action.addHook hook callback) (Action.addHook hook callback)
  nextTick (callback : Value) : R Value (Action.nextTick callback) (Action.nextTick callback)
  properties : R Value (return (← Action.run).props) (return (← Action.run).props)
  entering {α : Type} {x y : Action α} :
    R α x y → R α (Action.entering x) (Action.entering y)
  catching {α : Type} {x y : Action α} {f g : ScriptError → Action α} : R α x y →
    (∀ e, e.isCatchable = true → R α (f e) (g e)) →
    R α (Action.catching x f) (Action.catching y g)

/-- Two congruences for the same code are one for pairs of actions related by both. -/
theorem Congruence.and {R R' : (α : Type) → Action α → Action α → Prop}
    {Admits : FunctionDef → Prop} (hR : Congruence R Admits) (hR' : Congruence R' Admits) :
    Congruence (fun α x y ↦ R α x y ∧ R' α x y) Admits where
  pure a := ⟨hR.pure a, hR'.pure a⟩
  bind hxy hfg := ⟨hR.bind hxy.1 fun a ↦ (hfg a).1, hR'.bind hxy.2 fun a ↦ (hfg a).2⟩
  raise e he := ⟨hR.raise e he, hR'.raise e he⟩
  read hfg := ⟨hR.read fun h ↦ (hfg h).1, hR'.read fun h ↦ (hfg h).2⟩
  function id _ _ hfg := ⟨hR.function id fun fn hfn ↦ (hfg fn hfn).1,
    hR'.function id fun fn hfn ↦ (hfg fn hfn).2⟩
  modifyHeap f hf := ⟨hR.modifyHeap f hf, hR'.modifyHeap f hf⟩
  allocate f hf := ⟨hR.allocate f hf, hR'.allocate f hf⟩
  writeObject hcall o key v := ⟨hR.writeObject (fun f self args ↦ (hcall f self args).1) o key v,
    hR'.writeObject (fun f self args ↦ (hcall f self args).2) o key v⟩
  newFunction fn hfn := ⟨hR.newFunction fn hfn, hR'.newFunction fn hfn⟩
  isRegistering := ⟨hR.isRegistering, hR'.isRegistering⟩
  addHook hook callback := ⟨hR.addHook hook callback, hR'.addHook hook callback⟩
  nextTick callback := ⟨hR.nextTick callback, hR'.nextTick callback⟩
  properties := ⟨hR.properties, hR'.properties⟩
  entering h := ⟨hR.entering h.1, hR'.entering h.2⟩
  catching hxy hfg := ⟨hR.catching hxy.1 fun e he ↦ (hfg e he).1,
    hR'.catching hxy.2 fun e he ↦ (hfg e he).2⟩

namespace Congruence

variable {R : (α : Type) → Action α → Action α → Prop} {Admits : FunctionDef → Prop}
  (hR : Congruence R Admits)

include hR

/-! ### Conversions, allocations and errors -/

theorem typeError {α : Type} (message : String) (he : (ScriptError.type message).IsScripted) :
    R α (Action.typeError message) (Action.typeError message) :=
  hR.raise _ he

theorem text (v : Value) : R String (Action.text v) (Action.text v) :=
  hR.read fun _ ↦ hR.pure _

theorem number (v : Value) : R Float (Action.number v) (Action.number v) :=
  hR.read fun _ ↦ hR.pure _

/-- A value may be changed afterwards. -/
theorem map {α β : Type} {x y : Action α} (h : R α x y) (f : α → β) :
    R β (x >>= fun a ↦ Pure.pure (f a)) (y >>= fun a ↦ Pure.pure (f a)) :=
  hR.bind h fun _ ↦ hR.pure _

theorem discard {α : Type} {x y : Action α} (h : R α x y) :
    R PUnit (Functor.discard x) (Functor.discard y) :=
  hR.map h fun _ ↦ PUnit.unit

theorem newArray (items : Array Value) : R Value (Action.newArray items) (Action.newArray items) :=
  hR.map (hR.allocate _ fun h ↦ .newArray h items) Value.array

theorem newObject (kind : ObjectKind) (fields : Fields Value) :
    R ObjectId (Action.newObject kind fields) (Action.newObject kind fields) :=
  hR.allocate _ fun h ↦ .newObject h fun _ ↦ rfl

theorem newPlain (fields : Fields Value) :
    R Value (Action.newPlain fields) (Action.newPlain fields) :=
  hR.map (hR.newObject _ _) Value.object

theorem newNative (n : Native) : R Value (Action.newNative n) (Action.newNative n) :=
  hR.newFunction (.native n) trivial

theorem newScope (scope : Scope) : R ScopeId (Action.newScope scope) (Action.newScope scope) :=
  hR.allocate _ fun h ↦ .newScope h scope

theorem childScope (parent : ScopeId) :
    R ScopeId (Action.childScope parent) (Action.childScope parent) :=
  hR.newScope _

theorem caught (e : ScriptError) : R Value (Action.caught e) (Action.caught e) := by
  cases e with
  | thrown message value => exact hR.pure value
  | unbound name => exact hR.newPlain _
  | type message => exact hR.newPlain _
  | callDepth limit => exact hR.newPlain _
  | stepBudget limit => exact hR.newPlain _
  | stackExhausted => exact hR.newPlain _

theorem throwValue {α : Type} (v : Value) :
    R α (Action.throwValue v) (Action.throwValue v) :=
  hR.read fun _ ↦ hR.raise _ (.thrown _ _)

/-! ### Declarations -/

theorem declare (s : ScopeId) (name : String) (v : Value) (mutable : Bool) :
    R Unit (Action.declare s name v mutable) (Action.declare s name v mutable) :=
  hR.modifyHeap _ fun h ↦ .declare h s name v mutable

theorem declareAs (kind : DeclKind) (s : ScopeId) (name : String) (v : Value) :
    R Unit (Action.declareAs kind s name v) (Action.declareAs kind s name v) := by
  cases kind with
  | var =>
    exact hR.modifyHeap (fun h ↦ h.declare (h.functionScope s) name v true) fun h ↦
      .declare h _ name v true
  | letKind => exact hR.declare s name v true
  | constKind => exact hR.declare s name v false

/-! ### Reading properties -/

theorem methodValue (n : Option Native) :
    R Value (Action.methodValue n) (Action.methodValue n) := by
  cases n with
  | none => exact hR.pure _
  | some n => exact hR.newNative n

theorem readField (o : ObjectId) (key : String) :
    R Value (Action.readField o key) (Action.readField o key) := by
  refine hR.read fun h ↦ ?_
  cases h.own? o key with
  | none => exact hR.methodValue _
  | some v => exact hR.pure v

theorem iterate (v : Value) : R (List Value) (Action.iterate v) (Action.iterate v) := by
  cases v with
  | array a => exact hR.read fun _ ↦ hR.pure _
  | string s => exact hR.pure _
  | _ => exact hR.typeError _ (.of_suffix (by decide))

variable {call call' : Caller} (hcall : Caller.Related R call call')

section

include hcall

theorem readPlain (o : ObjectId) (key : String) :
    R Value (Action.readPlain call o key) (Action.readPlain call' o key) := by
  refine hR.read fun h ↦ ?_
  cases (h.object o).kind with
  | computed getter setter =>
    dsimp only
    split
    · exact hcall _ _ _
    · exact hR.readField o key
  | _ => exact hR.readField o key

theorem readObject (o : ObjectId) (key : String) :
    R Value (Action.readObject call o key) (Action.readObject call' o key) := by
  refine hR.read fun h ↦ ?_
  cases (h.object o).kind with
  | state =>
    dsimp only
    split
    · split
      · exact hR.readPlain hcall _ _
      · exact hR.pure _
    · exact hR.pure _
    · exact hR.methodValue _
  | _ => exact hR.readPlain hcall o key

/-- A property of any value is read alike with related callers, which getters and cells may call. -/
theorem getProperty (target : Value) (key : String) :
    R Value (Action.getProperty call target key) (Action.getProperty call' target key) := by
  cases target with
  | undefined => exact hR.typeError _ (.of_suffix (by decide))
  | null => exact hR.typeError _ (.of_suffix (by decide))
  | bool b => exact hR.pure _
  | number x => exact hR.methodValue _
  | string s =>
    dsimp only [Action.getProperty]
    split
    · exact hR.pure _
    · split
      · exact hR.pure _
      · exact hR.methodValue _
  | array a =>
    dsimp only [Action.getProperty]
    split
    · exact hR.read fun _ ↦ hR.pure _
    · split
      · exact hR.read fun _ ↦ hR.pure _
      · exact hR.methodValue _
  | function f =>
    dsimp only [Action.getProperty]
    split
    · exact hR.read fun _ ↦ hR.pure _
    · exact hR.methodValue _
  | object o => exact hR.readObject hcall o key

/-- So is a name, which may belong to the state of a component. -/
theorem lookup (name : String) (s : ScopeId) :
    R (Option Value) (Action.lookup call name s) (Action.lookup call' name s) := by
  refine hR.read fun h ↦ ?_
  cases h.resolve name s with
  | none => exact hR.pure _
  | some found =>
    cases found with
    | binding scope b => exact hR.pure _
    | field target => exact hR.map (hR.getProperty hcall target name) some

theorem readName (name : String) (s : ScopeId) :
    R Value (Action.read call name s) (Action.read call' name s) := by
  refine hR.bind (hR.lookup hcall name s) fun found ↦ ?_
  cases found with
  | none => exact hR.raise _ (.unbound _)
  | some v => exact hR.pure v

end

/-! ### Writing properties -/

theorem setArrayLength (a : ArrayId) (v : Value) :
    R Unit (Action.setArrayLength a v) (Action.setArrayLength a v) := by
  refine hR.bind (hR.number v) fun x ↦ ?_
  split
  · exact hR.typeError _ (.of_ne (by decide))
  · exact hR.modifyHeap _ fun h ↦ .modifyArray h a _

theorem setArrayItem (a : ArrayId) (key : String) (v : Value) :
    R Unit (Action.setArrayItem a key v) (Action.setArrayItem a key v) := by
  dsimp only [Action.setArrayItem]
  split
  · split
    · exact hR.modifyHeap _ fun h ↦ .modifyArray h a _
    · exact hR.typeError _ (.of_suffix (by decide))
  · exact hR.typeError _ (.of_suffix (by decide))

section

include hcall

/-- A property of any value is written alike with related callers. -/
theorem setProperty (target : Value) (key : String) (v : Value) :
    R Unit (Action.setProperty call target key v) (Action.setProperty call' target key v) := by
  cases target with
  | array a =>
    dsimp only [Action.setProperty]
    split
    · exact hR.setArrayLength a v
    · exact hR.setArrayItem a key v
  | object o => exact hR.writeObject hcall o key v
  | _ => exact hR.bind (hR.text _) fun _ ↦ hR.typeError _ (.of_suffix (by decide))

/-- So is a name. -/
theorem assign (name : String) (v : Value) (s : ScopeId) :
    R Unit (Action.assign call name v s) (Action.assign call' name v s) := by
  refine hR.read fun h ↦ ?_
  cases h.resolve name s with
  | none => exact hR.raise _ (.unbound _)
  | some found =>
    cases found with
    | binding scope b =>
      dsimp only
      split
      · exact hR.declare scope name v true
      · exact hR.typeError _ (.of_ne (by decide))
    | field target => exact hR.setProperty hcall target name v

end

/-! ### Operators -/

theorem unary (op : UnaryOp) (v : Value) : R Value (Action.unary op v) (Action.unary op v) := by
  cases op with
  | neg => exact hR.map (hR.number v) fun x ↦ Value.number (-x)
  | plus => exact hR.map (hR.number v) Value.number
  | not => exact hR.pure _
  | bitNot => exact hR.bind (hR.number v) fun _ ↦ hR.pure _
  | typeof => exact hR.pure _
  | void => exact hR.pure _

theorem add (a b : Value) : R Value (Action.add a b) (Action.add a b) := by
  refine hR.read fun h ↦ ?_
  dsimp only
  split
  · exact hR.pure _
  · exact hR.pure _
  · exact hR.pure _

theorem isMember (a b : Value) : R Value (Action.isMember a b) (Action.isMember a b) := by
  refine hR.read fun h ↦ ?_
  cases b with
  | object o => exact hR.pure _
  | array items => exact hR.pure _
  | _ =>
    refine hR.typeError _ ?_
    rw [String.append_assoc, String.append_assoc]
    exact .of_start (by decide)

theorem numeric (f : Float → Float → Float) (a b : Value) :
    R Value (Action.numeric f a b) (Action.numeric f a b) :=
  hR.bind (hR.number a) fun _ ↦ hR.bind (hR.number b) fun _ ↦ hR.pure _

theorem bitwise (f : Nat → Nat → Int) (a b : Value) :
    R Value (Action.bitwise f a b) (Action.bitwise f a b) :=
  hR.bind (hR.number a) fun _ ↦ hR.bind (hR.number b) fun _ ↦ hR.pure _

theorem ordered (accept : Ordering → Bool) (a b : Value) :
    R Value (Action.ordered accept a b) (Action.ordered accept a b) :=
  hR.read fun _ ↦ hR.pure _

/-- Operators call nothing. -/
theorem binary (op : BinaryOp) (a b : Value) :
    R Value (Action.binary op a b) (Action.binary op a b) := by
  dsimp only [Action.binary]
  cases op with
  | add => exact hR.add a b
  | isIn => exact hR.isMember a b
  | sub | mul | div | rem | exp => exact hR.numeric _ a b
  | eq | ne => exact hR.read fun _ ↦ hR.pure _
  | strictEq | strictNe => exact hR.pure _
  | lt | le | gt | ge => exact hR.ordered _ a b
  | shl | shr | ushr | bitOr | bitXor | bitAnd => exact hR.bitwise _ a b

end Congruence

end Nodecraft.Sandbox
