import Nodecraft.Proofs.Sandbox.Extension
import Nodecraft.Proofs.Sandbox.Outcome

/-!
# Reading and writing objects, case by case

What reading or writing a key of an object does depends on the kind of the object, on whether it is
frozen and, for component state, on what is under the key. One equation for each case.
-/

set_option autoImplicit false

namespace Nodecraft.Sandbox

/-- A world in which a field has been written. -/
def World.insertField (w : World) (o : ObjectId) (key : String) (v : Value) : World :=
  { w with heap := w.heap.insertField o key v }

namespace Action

variable {call : Caller} {o c : ObjectId} {key : String} {v : Value} {w : World}

theorem readBind_apply {α : Type} (f : Heap → Action α) (w : World) :
    (heap >>= f) w = f w.heap w :=
  rfl

/-! ### Objects that are not component state -/

/-- Nothing frozen is written. -/
theorem writePlain_of_frozen (hfrozen : (w.heap.object o).frozen = true) :
    writePlain call o key v w = writePlain.frozenError key w :=
  congrFun (if_pos hfrozen) w

/-- A computed cell with a setter calls it, and what the setter returns is dropped. -/
theorem writePlain_setter {getter f : Value} (hfrozen : (w.heap.object o).frozen = false)
    (hkind : (w.heap.object o).kind = .computed getter (some f)) :
    writePlain call o "value" v w = discard (call f .undefined [v]) w := by
  unfold writePlain
  simp only [readBind_apply, hfrozen, hkind, Bool.false_eq_true, if_false, beq_self_eq_true, if_true]

/-- A computed cell without a setter takes no value, and says nothing. -/
theorem writePlain_readonly {getter : Value} (hfrozen : (w.heap.object o).frozen = false)
    (hkind : (w.heap.object o).kind = .computed getter none) :
    writePlain call o "value" v w = .ok () w := by
  unfold writePlain
  simp only [readBind_apply, hfrozen, hkind, Bool.false_eq_true, if_false, beq_self_eq_true, if_true]
  rfl

/-- Everything else is a field. -/
theorem writePlain_field (hfrozen : (w.heap.object o).frozen = false)
    (hkey : (w.heap.object o).kind.isComputed = true → key ≠ "value") :
    writePlain call o key v w = .ok () (w.insertField o key v) := by
  unfold writePlain
  simp only [readBind_apply, hfrozen, Bool.false_eq_true, if_false]
  cases hkind : (w.heap.object o).kind with
  | computed getter setter =>
    rw [hkind] at hkey
    simp only [beq_eq_false_iff_ne.2 (hkey rfl), Bool.false_eq_true, if_false]
    rfl
  | _ => rfl

/-! ### Component state -/

/-- Only component state writes through to cells. -/
theorem writeObject_of_ne_state (hkind : (w.heap.object o).kind ≠ .state) :
    writeObject call o key v w = writePlain call o key v w := by
  unfold writeObject
  rw [readBind_apply]
  cases hk : (w.heap.object o).kind with
  | state => exact absurd hk hkind
  | _ => rfl

theorem writeObject_of_frozen (hkind : (w.heap.object o).kind = .state)
    (hfrozen : (w.heap.object o).frozen = true) :
    writeObject call o key v w = writePlain.frozenError key w := by
  unfold writeObject
  simp only [readBind_apply, hkind, hfrozen, if_true]

/-- In component state, a key that holds a cell is written through to the cell. -/
theorem writeObject_cell (hkind : (w.heap.object o).kind = .state)
    (hfrozen : (w.heap.object o).frozen = false) (hown : w.heap.own? o key = some (.object c))
    (hcell : (w.heap.object c).kind.isCell = true) :
    writeObject call o key v w = writePlain call c "value" v w := by
  unfold Heap.own? at hown
  unfold writeObject
  simp only [readBind_apply, hkind, hfrozen, hown, hcell, Bool.false_eq_true, if_false, if_true]

/-- In component state, any other key is a field. -/
theorem writeObject_field (hkind : (w.heap.object o).kind = .state)
    (hfrozen : (w.heap.object o).frozen = false)
    (hcell : ∀ c, w.heap.own? o key = some (.object c) → (w.heap.object c).kind.isCell = false) :
    writeObject call o key v w = .ok () (w.insertField o key v) := by
  unfold Heap.own? at hcell
  unfold writeObject
  simp only [readBind_apply, hkind, hfrozen, Bool.false_eq_true, if_false]
  cases hown : (w.heap.object o).fields.get? key with
  | none => rfl
  | some held =>
    cases held with
    | object inner =>
      dsimp only
      rw [if_neg (Bool.eq_false_iff.1 (hcell inner hown))]
      rfl
    | _ => rfl

end Action

end Nodecraft.Sandbox
