import Nodecraft.Proofs.Pairing.Diagonal
import Nodecraft.Proofs.Pairing.Run

/-!
# What lasts

Whatever scripts do, functions stay what they are, objects keep their kind, and frozen objects keep
their fields: the heap becomes a later one (`Heap.Later`). Any heap is like itself along the pairing
of all cells, so what scripts may do to a heap (`Grows`) is what they do to every heap
(`Action.Lasts.of_alike`).
-/

set_option autoImplicit false

namespace Nodecraft.Sandbox

open Script Pairing

/-- A heap after scripts have used it. -/
structure Heap.Later (h h₁ : Heap) : Prop where
  objects_le : h.objects.size ≤ h₁.objects.size
  functions_le : h.functions.size ≤ h₁.functions.size
  object {o : ObjectId} : o.index < h.objects.size → (h.object o).Later (h₁.object o)
  function {f : FunctionId} : f.index < h.functions.size → h₁.function f = h.function f

/-- A frozen object is the same at every later time. -/
theorem Object.Later.eq_of_frozen {o o₁ : Object} (h : o.Later o₁) (hfrozen : o.frozen = true) :
    o₁ = o := by
  obtain ⟨kind, fields, frozen⟩ := o
  obtain ⟨kind₁, fields₁, frozen₁⟩ := o₁
  rw [Object.mk.injEq]
  exact ⟨h.kind, h.fields hfrozen, h.frozen⟩

/-- Only cells of the heap can be frozen. -/
theorem Heap.lt_of_frozen {h : Heap} {o : ObjectId} (ho : (h.object o).frozen = true) :
    o.index < h.objects.size := by
  refine Nat.lt_of_not_le fun hle ↦ ?_
  unfold Heap.object at ho
  rw [Cells.getD_of_le hle] at ho
  exact nomatch ho

/-- A heap that has grown along a pairing is a later heap. -/
theorem Grows.later {p q : Pairing} {h h₁ : Heap} (hg : Grows p h q h₁) : h.Later h₁ :=
  ⟨hg.objects.size_le, hg.functions.size_le, hg.object, hg.function⟩

namespace Heap.Later

variable {h h₁ h₂ : Heap}

theorem refl (h : Heap) : h.Later h :=
  ⟨Nat.le_refl _, Nat.le_refl _, fun _ ↦ .refl _, fun _ ↦ rfl⟩

theorem trans (hl : h.Later h₁) (hl' : h₁.Later h₂) : h.Later h₂ where
  objects_le := Nat.le_trans hl.objects_le hl'.objects_le
  functions_le := Nat.le_trans hl.functions_le hl'.functions_le
  object ho := (hl.object ho).trans (hl'.object (Nat.lt_of_lt_of_le ho hl.objects_le))
  function hf :=
    (hl'.function (Nat.lt_of_lt_of_le hf hl.functions_le)).trans (hl.function hf)

/-- Frozen objects are for good. -/
theorem frozen (hl : h.Later h₁) {o : ObjectId} (ho : (h.object o).frozen = true) :
    h₁.object o = h.object o :=
  (hl.object (Heap.lt_of_frozen ho)).eq_of_frozen ho

theorem newScope (h : Heap) (scope : Scope) : h.Later (h.newScope scope).2 :=
  ⟨Nat.le_refl _, Nat.le_refl _, fun _ ↦ .refl _, fun _ ↦ rfl⟩

theorem modifyScope (h : Heap) (s : ScopeId) (f : Scope → Scope) : h.Later (h.modifyScope s f) :=
  ⟨Nat.le_refl _, Nat.le_refl _, fun _ ↦ .refl _, fun _ ↦ rfl⟩

theorem newFunction (h : Heap) (fn : Function) : h.Later (h.newFunction fn).2 where
  objects_le := Nat.le_refl _
  functions_le := by simp [Heap.newFunction]
  object _ := .refl _
  function hf := (Cells.getD_push _ _ _ _).trans (if_neg (Nat.ne_of_lt hf))

theorem newObject (h : Heap) (object : Object) : h.Later (h.newObject object).2 where
  objects_le := by simp [Heap.newObject]
  functions_le := Nat.le_refl _
  object {o} ho := by
    have hsame : (h.newObject object).2.object o = h.object o :=
      (Cells.getD_push _ _ _ _).trans (if_neg (Nat.ne_of_lt ho))
    rw [hsame]
    exact .refl _
  function _ := rfl

theorem ofDocument (h : Heap) (j : Json) : h.Later (h.ofDocument j).2 := by
  obtain ⟨q, hm, -⟩ := h.alike_total.ofDocument j
  exact hm.grows.later

/-- An object that is not frozen may get other fields. -/
theorem modifyFields {o : ObjectId} (ho : (h.object o).frozen = false)
    (f : Fields Value → Fields Value) :
    h.Later (h.modifyObject o fun object ↦ { object with fields := f object.fields }) where
  objects_le := by simp [Heap.modifyObject]
  functions_le := Nat.le_refl _
  object {o₁} _ := by
    obtain ⟨i⟩ := o
    obtain ⟨i₁⟩ := o₁
    unfold Heap.object Heap.modifyObject
    rw [Cells.getD_modify]
    by_cases hi : i = i₁ ∧ i₁ < h.objects.size
    · rw [if_pos hi]
      obtain ⟨rfl, -⟩ := hi
      exact ⟨rfl, rfl, fun hfrozen ↦ absurd (ho.symm.trans hfrozen) Bool.false_ne_true⟩
    · rw [if_neg hi]
      exact .refl _
  function _ := rfl

end Heap.Later

/-- The action leaves a later heap, however it ends. -/
def Action.Lasts {α : Type} (x : Action α) : Prop :=
  ∀ w : World, w.heap.Later (finalWorld (x w)).heap

namespace Action.Lasts

variable {α β : Type} {x : Action α}

/-- An action that is like itself under the pairing of all cells only moves its heap on. -/
theorem of_alike {Q : Pairing → α → α → Prop} (hx : Action.Alike total Q x x) : x.Lasts := by
  intro w
  obtain ⟨q, hg, -⟩ := hx total (Pairing.le_refl total) w w w.alike_total
  exact hg.later

theorem pure (a : α) : (Pure.pure a : Action α).Lasts := fun w ↦ .refl w.heap

theorem failure (e : Failure) : (throw e : Action α).Lasts := fun w ↦ .refl w.heap

/-- A sequence moves the heap on when each of its parts does. -/
theorem bind {f : α → Action β} (hx : x.Lasts) (hf : ∀ a, (f a).Lasts) : (x >>= f).Lasts := by
  intro w
  have hw := hx w
  rw [Action.bind_apply]
  generalize x w = r at hw ⊢
  cases r with
  | ok a w₁ => exact hw.trans (hf a w₁)
  | error e w₁ => exact hw

theorem read {f : Heap → Action β} (hf : ∀ h, (f h).Lasts) : (Action.heap >>= f).Lasts :=
  fun w ↦ hf w.heap w

theorem modifyHeap {f : Heap → Heap} (hf : ∀ h : Heap, h.Later (f h)) :
    (Action.modifyHeap f).Lasts :=
  fun w ↦ hf w.heap

theorem allocate {f : Heap → α × Heap} (hf : ∀ h : Heap, h.Later (f h).2) :
    (Action.allocate f).Lasts :=
  fun w ↦ hf w.heap

theorem catching {handler : ScriptError → Action α} (hx : x.Lasts)
    (hhandler : ∀ e, (handler e).Lasts) : (Action.catching x handler).Lasts := by
  intro w
  have hw := hx w
  by_cases hcatch : Catchable (x w)
  · obtain ⟨e, w₁, hxw, he⟩ := hcatch
    rw [Action.catching_of_catchable hxw he]
    rw [hxw] at hw
    exact hw.trans (hhandler e w₁)
  · rw [Action.catching_of_not hcatch]
    exact hw

theorem discard (hx : x.Lasts) : (Functor.discard x).Lasts := hx.bind fun _ ↦ pure _

/-! ### What an interpreter does -/

/-- Every task moves the heap on. -/
theorem task (task : Task) : (task.run machine).Lasts := by
  have halike : Task.Alike total task task := by
    cases task with
    | enter entry =>
      cases entry with
      | program s body => exact .enter (.program ⟨rfl, fun _ ↦ trivial⟩)
      | call f self args =>
        exact .enter (.call (Value.Alike.refl reflexive_total f)
          (Value.Alike.refl reflexive_total self)
          (ListAlike.refl (Value.Alike.refl reflexive_total) args))
      | eval s e => exact .enter (.eval ⟨rfl, fun _ ↦ trivial⟩)
    | flushTicks => exact .flushTicks
  exact of_alike ((machine_alike total patience).run halike)

theorem call (f self : Value) (args : List Value) : (Action.call f self args).Lasts :=
  of_alike ((machine_alike total patience).call total (Pairing.le_refl total) _ _ _ _ _ _
    (Value.Alike.refl reflexive_total f) (Value.Alike.refl reflexive_total self)
    (ListAlike.refl (Value.Alike.refl reflexive_total) args))

theorem eval (s : ScopeId) (e : Expr) : (Action.eval s e).Lasts :=
  of_alike ((machine_alike total patience).value e ⟨rfl, fun _ ↦ trivial⟩)

theorem program (s : ScopeId) (body : Block) : (Action.runProgram s body).Lasts :=
  of_alike ((machine_alike total patience).program body ⟨rfl, fun _ ↦ trivial⟩)

theorem flushTicks : (Action.flushTicks Action.call).Lasts :=
  of_alike (machine_alike total patience).flushTicks

theorem getProperty (target : Value) (key : String) :
    (Action.getProperty Action.call target key).Lasts :=
  of_alike (.getProperty (machine_alike total patience).call
    (Value.Alike.refl reflexive_total target) key)

end Action.Lasts

end Nodecraft.Sandbox
