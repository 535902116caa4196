import Nodecraft.Proofs.Component.Operations
import Nodecraft.Proofs.Pairing.Later

/-!
# What instances leave of a heap

Logic, views and every operation on an instance leave a later heap, whether they succeed or fail. An
instance writes to its state without asking whether it is frozen, but its state never is
(`Instance.Sound`), and scripts have no way to freeze it.
-/

set_option autoImplicit false

namespace Nodecraft.Template

open Sandbox Pairing

theorem respects_lasts : Respects (fun _ x _ ↦ x.Lasts) machine machine where
  pure := .pure
  bind hx hf := hx.bind hf
  read := .read
  typeError _ := .failure _
  unfinished := .failure _
  newScope scope := .allocate fun h ↦ .newScope h scope
  valueOf s e := by
    rw [valueOf_eq]
    refine (Action.Lasts.eval s e).catching fun e ↦ ?_
    cases e with
    | unbound name => exact .pure _
    | _ => exact .failure _
  pattern kind s target v := .of_alike ((machine_alike total patience).pattern kind target
    ⟨rfl, fun _ ↦ trivial⟩ (Value.Alike.refl reflexive_total v))
  getProperty := .getProperty

/-- A render leaves a later heap. -/
theorem run_lasts (t : Template) (registered : Registered) (state : Value) :
    (t.run registered state).Lasts :=
  respects_lasts.run registered t state

/-- So does a handler. -/
theorem invoke_lasts (t : Template) (bound : BoundHandler) (event : Value) :
    (t.invoke bound event).Lasts := by
  unfold invoke invokeOn
  cases t.handlers[bound.handler]? with
  | none => exact .failure _
  | some handler =>
    refine .bind (.allocate fun h ↦ .newScope h _) fun s ↦ ?_
    refine .bind (.modifyHeap fun h ↦ .modifyScope h s _) fun _ ↦ ?_
    have hcallable (e : Script.Expr) : (discard do
        machine.call (← machine.eval s e) .undefined [event] : Action Unit).Lasts :=
      ((Action.Lasts.eval s e).bind fun f ↦ .call f _ _).discard
    have hkey (key : Script.MemberKey) : (Evaluation.memberKey machine s key).Lasts :=
      .of_alike ((machine_alike total patience).memberKey key ⟨rfl, fun _ ↦ trivial⟩)
    cases handler with
    | inline body => exact (Action.Lasts.program s body).discard
    | callable e =>
      cases e with
      | member object key _ =>
        exact (Action.Lasts.eval s object).bind fun target ↦ (hkey key).bind fun key ↦
          (Action.Lasts.getProperty target key).bind fun f ↦ (Action.Lasts.call f _ _).discard
      | _ => exact (Action.Lasts.eval s _).bind fun f ↦ (Action.Lasts.call f _ _).discard

end Nodecraft.Template

namespace Nodecraft

open Sandbox Pairing

/-! ### Logic -/

namespace Component

/-- So does the evaluation of a body. -/
theorem lasts_optionsOf (s : ScopeId) (body : Script.Block) : (optionsOf machine s body).Lasts :=
  .of_alike (optionsOf_alike (machine_alike total patience) ⟨rfl, fun _ ↦ trivial⟩)

/-- So do the cells of the instance data. -/
theorem later_nodeCells (data : NodeData) (store : NodeStore) (h : Heap) :
    h.Later (nodeCells data store h).2 :=
  (Heap.Later.ofDocument h (.object data)).trans (.newFunction _ _)

/-- Logic leaves a later heap, however it ends. -/
theorem later_evaluate (whitelist : Whitelist) (limits : Limits) (body : Logic.Body)
    (data : NodeData) (store : NodeStore) (h : Heap) :
    h.Later (heapOf (evaluate whitelist limits body data store h)) := by
  rw [← evaluateOn_machine]
  by_cases hbody : body.program = []
  · rw [evaluateOn_of_nil _ _ _ hbody]
    exact .refl h
  · rw [evaluateOn_of_ne_nil _ _ _ hbody, heapOf_onHeap]
    have hroot : h.Later (rootWorld whitelist limits data store h).heap :=
      (Heap.Later.ofDocument h (.object data)).trans
        ((later_nodeCells data store _).trans (.newScope _ _))
    exact hroot.trans (lasts_optionsOf _ _ _)

theorem alike_total (options : Options) : Options.Alike total options options :=
  have hv := Value.Alike.refl reflexive_total
  ⟨rfl, OptionAlike.refl hv _, OptionAlike.refl hv _, FieldsAlike.refl hv _,
    FieldsAlike.refl hv _, FieldsAlike.refl hv _, ListAlike.refl (fun f ↦ ⟨rfl, hv f.2⟩) _,
    FieldsAlike.refl hv _⟩

/-- So does the data factory. -/
theorem lasts_factory (c : Component) : c.factory.Lasts :=
  .of_alike (factory_alike (alike_total c.options))

end Component

/-! ### Operations -/

namespace Instance

/-- The state is an object of the heap that is not frozen. -/
structure Sound (i : Instance) : Prop where
  exists_state : i.state.index < i.world.heap.objects.size
  frozen : (i.world.heap.object i.state).frozen = false

/-- An instance after an operation. -/
structure Later (i j : Instance) : Prop where
  state : j.state = i.state
  heap : i.world.heap.Later j.world.heap

theorem Later.refl (i : Instance) : i.Later i := ⟨rfl, .refl _⟩

theorem Later.trans {i j k : Instance} (h : i.Later j) (h' : j.Later k) : i.Later k :=
  ⟨h'.state.trans h.state, h.heap.trans h'.heap⟩

/-- What is sound stays so in later heaps. -/
theorem Later.sound {i j : Instance} (h : i.Later j) (hi : i.Sound) : j.Sound := by
  constructor
  · rw [h.state]
    exact Nat.lt_of_lt_of_le hi.exists_state h.heap.objects_le
  · rw [h.state]
    exact (h.heap.object hi.exists_state).frozen.trans hi.frozen

/-- The operation leaves a later instance of every one that is sound, however it ends. -/
def Op.Lasts {α : Type} (x : Op α) : Prop := ∀ i : Instance, i.Sound → i.Later (left (x i))

/-- Whatever the machine does leaves a later heap. -/
theorem serves_lasts : machine.Serves (fun _ x _ ↦ x.Lasts) machine where
  typeError _ := .failure _
  ofDocument j := .allocate fun h ↦ .ofDocument h j
  newFunction _ := .bind (.allocate fun h ↦ .newFunction h _) fun _ ↦ .pure _
  newObject _ _ := .allocate fun h ↦ .newObject h _
  newWatcher source callback last :=
    .of_alike (.newWatcher (WatchSource.Alike.refl reflexive_total source)
      (Value.Alike.refl reflexive_total callback) (Value.Alike.refl reflexive_total last))
  call := .call
  getProperty := .getProperty
  readSource source :=
    .of_alike (.readSource (machine_alike total patience).call
      (WatchSource.Alike.refl reflexive_total source))
  flushTicks := .flushTicks
  run := Template.run_lasts
  invoke := Template.invoke_lasts

/-- So does every operation. -/
theorem works_lasts :
    Works (fun _ i x _ ↦ i.Sound → i.Later (left (x i))) (fun _ x _ ↦ x.Lasts) machine machine where
  toRespects := .ofPreorder (R := fun i j ↦ i.Sound → i.Later j) serves_lasts
    (fun i _ ↦ .refl i) (fun h h' hi ↦ (h hi).trans (h' ((h hi).sound hi)))
    fun i _ _ hx _ ↦ ⟨rfl, hx i.world⟩
  shows _ _ _ := ⟨rfl, .refl _⟩
  -- the functions that a state loses are not lost by a frozen object
  close _ hi := ⟨rfl, .modifyFields hi.frozen fun fields ↦ fields.filter fun f ↦ !f.2.isFunction⟩
  finish _ _ := ⟨rfl, .refl _⟩

/-- So does settling. -/
theorem observes_lasts :
    Observes (fun _ i x _ ↦ i.Sound → i.Later (left (x i))) (fun _ x _ ↦ x.Lasts) machine machine where
  toRespects := works_lasts.toRespects
  report _ _ _ _ := ⟨rfl, .refl _⟩

/-- So does mounting. -/
theorem mounts_lasts :
    Mounts (fun _ i x _ ↦ i.Sound → i.Later (left (x i))) (fun _ x _ ↦ x.Lasts) machine machine where
  toRespects := works_lasts.toRespects
  -- a state that is written over is not frozen
  define _ key v hi := ⟨rfl, .modifyFields hi.frozen fun fields ↦ fields.insert key v⟩
  setup setup := .of_alike (Component.registering_alike (Component.callSetup_alike
    (Value.Alike.refl reflexive_total setup)))
  hooks _ _ := ⟨rfl, .refl _⟩
  watch _ _ _ := ⟨rfl, .refl _⟩

/-! ### Mounting -/

/-- An action that leaves a later heap, and gives an object of it that is not frozen. -/
structure Makes (x : Action ObjectId) : Prop where
  lasts : x.Lasts
  exists_object {w w₁ : World} {o : ObjectId} : x w = .ok o w₁ → o.index < w₁.heap.objects.size
  frozen {w w₁ : World} {o : ObjectId} : x w = .ok o w₁ → (w₁.heap.object o).frozen = false

theorem Makes.newObject (kind : ObjectKind) (fields : Fields Value) :
    Makes (Action.newObject kind fields) where
  lasts := .allocate fun h ↦ .newObject h _
  exists_object := by
    rintro w w₁ o hok
    obtain ⟨rfl, rfl⟩ := EStateM.Result.ok.inj hok
    exact Nat.lt_of_lt_of_eq (Nat.lt_succ_self _) (Array.size_push _).symm
  frozen := by
    rintro w w₁ o hok
    obtain ⟨rfl, rfl⟩ := EStateM.Result.ok.inj hok
    exact congrArg Object.frozen ((Cells.getD_push _ _ _ _).trans (if_pos rfl))

/-- An object is made by what comes last. -/
theorem Makes.bind {α : Type} {x : Action α} {f : α → Action ObjectId} (hx : x.Lasts)
    (hf : ∀ a, Makes (f a)) : Makes (x >>= f) where
  lasts := hx.bind fun a ↦ (hf a).lasts
  exists_object {w w₁ o} hok := by
    rw [Action.bind_apply] at hok
    cases hr : x w with
    | ok a w₂ => exact (hf a).exists_object (by rwa [hr] at hok)
    | error e w₂ => rw [hr] at hok; exact nomatch hok
  frozen {w w₁ o} hok := by
    rw [Action.bind_apply] at hok
    cases hr : x w with
    | ok a w₂ => exact (hf a).frozen (by rwa [hr] at hok)
    | error e w₂ => rw [hr] at hok; exact nomatch hok

/-- The state of an instance is an object of its own that is not frozen. -/
theorem makes_create (c : Component) : Makes (create c) := by
  rw [c.create_eq]
  refine .bind c.lasts_factory fun user ↦ ?_
  exact .bind (.of_alike c.reservedEntries_alike) fun reserved ↦ .newObject .state _

/-- Mounting leaves a later heap, and a mounted instance is sound. -/
theorem mount_spec (c : Component) (h : Heap) : h.Later (heapOf (mount c h)) ∧
    ∀ i h₁, mount c h = .ok i h₁ → i.Sound ∧ i.world.heap = h₁ := by
  have hcreate := makes_create c
  have hlater : h.Later (finalWorld (create c
      ⟨(h.ofData c.data).2, Run.start c.limits (h.ofData c.data).1⟩)).heap :=
    Heap.Later.trans (.ofDocument h (.object c.data)) (hcreate.lasts
      ⟨(h.ofData c.data).2, Run.start c.limits (h.ofData c.data).1⟩)
  unfold mount
  dsimp only
  cases hr : create c ⟨(h.ofData c.data).2, Run.start c.limits (h.ofData c.data).1⟩ with
  | error e w =>
    rw [hr] at hlater
    exact ⟨hlater, fun _ _ hok ↦ nomatch hok⟩
  | ok state w =>
    rw [hr] at hlater
    have hborn : Sound ⟨c, w, state, .empty, #[], true⟩ :=
      ⟨hcreate.exists_object hr, hcreate.frozen hr⟩
    have hstart : Later _ (left (start _)) := mounts_lasts.start observes_lasts _ hborn
    dsimp only
    cases hs : start ⟨c, w, state, .empty, #[], true⟩ with
    | error e i =>
      rw [hs] at hstart
      exact ⟨hlater.trans hstart.heap, fun _ _ hok ↦ nomatch hok⟩
    | ok u i =>
      rw [hs] at hstart
      refine ⟨hlater.trans hstart.heap, fun j h₁ hok ↦ ?_⟩
      obtain ⟨rfl, rfl⟩ := EStateM.Result.ok.inj hok
      exact ⟨hstart.sound hborn, rfl⟩

end Instance

end Nodecraft
