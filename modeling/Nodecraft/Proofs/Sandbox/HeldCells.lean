import Nodecraft.Proofs.Sandbox.Leads

/-!
# Cells that component state holds

A key of component state that holds a ref or a computed cell is read and written through the cell.
Scripts never put anything else in the place of the cell, so it stays there (`World.Leads.holdsCell`)
unless they remove the key, and a machine that stops before that shows whether they do
(`Stop.deleting`).
-/

set_option autoImplicit false

namespace Nodecraft.Sandbox

open Script Evaluation

/-! ### Kinds of objects -/

/-- Objects stay of the kind they are of, and frozen or not. New cells can be written. -/
structure Heap.KeepsObjects (h h₁ : Heap) : Prop where
  size_le : h.objects.size ≤ h₁.objects.size
  kind {o : ObjectId} : o.index < h.objects.size → (h₁.object o).kind = (h.object o).kind
  frozen {o : ObjectId} : o.index < h.objects.size → (h₁.object o).frozen = (h.object o).frozen
  opened {o : ObjectId} : h.objects.size ≤ o.index → (h₁.object o).kind.isCell = true →
    (h₁.object o).frozen = false

/-- A change of the fields of one object. -/
theorem Heap.object_modifyFields (h : Heap) (o o₁ : ObjectId) (f : Fields Value → Fields Value) :
    (h.modifyObject o fun object ↦ { object with fields := f object.fields }).object o₁ =
      if o = o₁ ∧ o₁.index < h.objects.size then
        { h.object o₁ with fields := f (h.object o₁).fields }
      else h.object o₁ := by
  obtain ⟨i⟩ := o
  obtain ⟨j⟩ := o₁
  simp only [Heap.object, Heap.modifyObject, Cells.getD_modify, ObjectId.mk.injEq]

theorem Heap.own?_modifyFields_of_ne {h : Heap} {o o₁ : ObjectId} (hne : o ≠ o₁)
    (f : Fields Value → Fields Value) (key : String) :
    (h.modifyObject o fun object ↦ { object with fields := f object.fields }).own? o₁ key =
      h.own? o₁ key := by
  unfold Heap.own?
  rw [h.object_modifyFields, if_neg fun he ↦ hne he.1]

theorem Heap.own?_modifyFields {h : Heap} {o : ObjectId} (ho : o.index < h.objects.size)
    (f : Fields Value → Fields Value) (key : String) :
    (h.modifyObject o fun object ↦ { object with fields := f object.fields }).own? o key =
      (f (h.object o).fields).get? key := by
  unfold Heap.own?
  rw [h.object_modifyFields, if_pos ⟨rfl, ho⟩]

namespace Heap.KeepsObjects

variable {h h₁ h₂ : Heap}

theorem of_objects (hobjects : h₁.objects = h.objects) : h.KeepsObjects h₁ where
  size_le := Nat.le_of_eq (congrArg Array.size hobjects.symm)
  kind {o} _ := by rw [Heap.object, hobjects, Heap.object]
  frozen {o} _ := by rw [Heap.object, hobjects, Heap.object]
  opened {o} ho _ := by rw [object_of_le (hobjects ▸ ho)]

theorem refl (h : Heap) : h.KeepsObjects h := of_objects rfl

theorem trans (hk : h.KeepsObjects h₁) (hk' : h₁.KeepsObjects h₂) : h.KeepsObjects h₂ where
  size_le := Nat.le_trans hk.size_le hk'.size_le
  kind ho := (hk'.kind (Nat.lt_of_lt_of_le ho hk.size_le)).trans (hk.kind ho)
  frozen ho := (hk'.frozen (Nat.lt_of_lt_of_le ho hk.size_le)).trans (hk.frozen ho)
  opened {o} ho hcell := by
    rcases Nat.lt_or_ge o.index h₁.objects.size with hlt | hge
    · rw [hk'.kind hlt] at hcell
      rw [hk'.frozen hlt]
      exact hk.opened ho hcell
    · exact hk'.opened hge hcell

theorem of_extends (he : h.Extends h₁) : h.KeepsObjects h₁ where
  size_le := he.objects_le
  kind ho := by rw [he.object ho]
  frozen ho := by rw [he.object ho]
  opened := he.opened

theorem modifyFields (h : Heap) (o : ObjectId) (f : Fields Value → Fields Value) :
    h.KeepsObjects (h.modifyObject o fun object ↦ { object with fields := f object.fields }) where
  size_le := Nat.le_of_eq (Array.size_modify ..).symm
  kind {o₁} _ := by
    rw [h.object_modifyFields]
    split <;> rfl
  frozen {o₁} _ := by
    rw [h.object_modifyFields]
    split <;> rfl
  opened {o₁} ho _ := by
    rw [h.object_modifyFields, if_neg fun he ↦ Nat.not_lt_of_le ho he.2, object_of_le ho]

end Heap.KeepsObjects

/-- Whatever scripts do, objects stay what they are. -/
theorem World.Leads.keepsObjects {stop : Stop} {w w₁ : World} (hw : w.Leads stop w₁) :
    w.heap.KeepsObjects w₁.heap := by
  induction hw with
  | refl w => exact .refl _
  | trans _ _ ih ih' => exact ih.trans ih'
  | count w _ _ _ => exact .refl _
  | queue w _ => exact .refl _
  | extend he => exact .of_extends he
  | newFunction w fn => exact .of_objects rfl
  | @insert w o key v _ _ => exact .modifyFields _ o fun fields ↦ fields.insert key v
  | @erase w o key _ _ => exact .modifyFields _ o fun fields ↦ fields.erase key
  | addHook w hook callback => exact .refl _
  | observe _ _ _ ih => exact ih.trans (.of_objects rfl)

/-! ### Cells in component state -/

/-- A key of component state holds a ref or a computed cell, and both can be written. -/
structure Heap.HoldsCell (h : Heap) (o : ObjectId) (key : String) (c : ObjectId) : Prop where
  state : (h.object o).kind = .state
  own : h.own? o key = some (.object c)
  cell : (h.object c).kind.isCell = true
  state_open : (h.object o).frozen = false
  cell_open : (h.object c).frozen = false

/-- Stops where a key of an object is removed. -/
def Stop.deleting (o : ObjectId) (key : String) : Stop := fun q _ ↦
  match q with
  | .erase (.object o') key' => o' == o && key' == key
  | _ => false

theorem Stop.deleting_self (o : ObjectId) (key : String) (w : World) :
    Stop.deleting o key (.erase (.object o) key) w = true := by
  simp [Stop.deleting]

namespace Heap.HoldsCell

variable {h h₁ : Heap} {o c : ObjectId} {key : String} (hc : h.HoldsCell o key c)

include hc

/-- A cell does not hold itself: the kinds differ. -/
theorem ne : c ≠ o := by
  rintro rfl
  have hcell := hc.cell
  rw [hc.state] at hcell
  cases hcell

/-- The state that holds the cell is in the store. -/
theorem state_lt : o.index < h.objects.size := by
  refine Nat.lt_of_not_le fun hle ↦ ?_
  have hstate := hc.state
  rw [object_of_le hle] at hstate
  cases hstate

/-- A cell that is still in its place can still be written. -/
theorem keep (hk : h.KeepsObjects h₁) (hown : h₁.own? o key = some (.object c)) :
    h₁.HoldsCell o key c where
  state := (hk.kind hc.state_lt).trans hc.state
  own := hown
  cell := (congrArg ObjectKind.isCell (hk.kind (lt_of_isCell hc.cell))).trans hc.cell
  state_open := (hk.frozen hc.state_lt).trans hc.state_open
  cell_open := (hk.frozen (lt_of_isCell hc.cell)).trans hc.cell_open

/-- Only the state itself matters. -/
theorem of_object (hk : h.KeepsObjects h₁) (hobject : h₁.object o = h.object o) :
    h₁.HoldsCell o key c :=
  hc.keep hk ((congrArg (fun object ↦ object.fields.get? key) hobject).trans hc.own)

/-- Only other fields of the state matter. -/
theorem modifyFields {o₁ : ObjectId} {f : Fields Value → Fields Value}
    (hf : o₁ = o → (f (h.object o).fields).get? key = some (.object c)) :
    (h.modifyObject o₁ fun object ↦ { object with fields := f object.fields }).HoldsCell o key c := by
  refine hc.keep (.modifyFields h o₁ f) ?_
  by_cases ho : o₁ = o
  · subst ho
    exact (own?_modifyFields hc.state_lt f key).trans (hf rfl)
  · exact (own?_modifyFields_of_ne ho f key).trans hc.own

/-- The key itself is not written while it holds the cell. -/
theorem insertField {o₁ : ObjectId} {key₁ : String} (v : Value)
    (hguard : (h.object o₁).kind = .state → ∀ c, h.own? o₁ key₁ = some (.object c) →
      (h.object c).kind.isCell = false) : (h.insertField o₁ key₁ v).HoldsCell o key c := by
  refine hc.modifyFields (f := fun fields ↦ fields.insert key₁ v) ?_
  rintro rfl
  refine (Fields.get?_insert_of_ne _ _ ?_).trans hc.own
  rintro rfl
  have hcell := hc.cell
  rw [hguard hc.state c hc.own] at hcell
  cases hcell

/-- Other properties may be deleted. -/
theorem eraseField {o₁ : ObjectId} {key₁ : String} (w : World)
    (hstop : Stop.deleting o key (.erase (.object o₁) key₁) w = false) :
    (h.eraseField o₁ key₁).HoldsCell o key c := by
  refine hc.modifyFields (f := fun fields ↦ fields.erase key₁) ?_
  rintro rfl
  refine (Fields.get?_erase_of_ne _ ?_).trans hc.own
  rintro rfl
  rw [Stop.deleting_self] at hstop
  cases hstop

/-- A cell is no function, so it stays where functions are taken off a state. -/
theorem strip (o₁ : ObjectId) :
    (h.modifyObject o₁ fun object ↦
      { object with fields := object.fields.filter fun f ↦ !f.2.isFunction }).HoldsCell o key c :=
  hc.modifyFields (f := fun fields ↦ fields.filter fun f ↦ !f.2.isFunction)
    fun _ ↦ Fields.get?_filter_of_pos hc.own rfl

end Heap.HoldsCell

/-- Scripts that do not remove the key leave the cell where it is. -/
theorem World.Leads.holdsCell {o c : ObjectId} {key : String} {w w₁ : World}
    (hw : w.Leads (Stop.deleting o key) w₁) (hc : w.heap.HoldsCell o key c) :
    w₁.heap.HoldsCell o key c := by
  induction hw with
  | refl w => exact hc
  | trans _ _ ih ih' => exact ih' (ih hc)
  | count w _ _ _ => exact hc
  | queue w _ => exact hc
  | extend he => exact hc.of_object (.of_extends he) (he.object hc.state_lt)
  | newFunction w fn => exact hc.of_object (.of_objects rfl) rfl
  | insert v _ hguard => exact hc.insertField v hguard
  | erase _ hstop => exact hc.eraseField _ hstop
  | addHook w hook callback => exact hc
  | observe _ _ _ ih => exact (ih hc).of_object (.of_objects rfl) rfl

/-! ### Assignments to held cells -/

/-- The places at which a key of an object is read and written: as a member, or by its name where the
name falls back to the object. -/
inductive Heap.Names (h : Heap) (s : ScopeId) (o : ObjectId) (key : String) : Place → Prop
  | member : Heap.Names h s o key (.member (.object o) key)
  | name : h.resolve key s = some (.field (.object o)) → Heap.Names h s o key (.name key)

/-- An assignment to a place that names the key is a write of the key. -/
theorem writePlace_eq {m : Machine} {w : World} {s : ScopeId} {o : ObjectId} {key : String}
    {p : Place} (hp : w.heap.Names s o key p) (v : Value) :
    writePlace m s v p w = Action.writeObject m.call o key v w := by
  cases hp with
  | member => rfl
  | name hresolve =>
    unfold writePlace Action.assign
    dsimp only
    rw [Action.readBind_apply, hresolve]
    rfl

/-- A read of a place that names the key is a read of the key. -/
theorem readPlace_eq {m : Machine} {w : World} {s : ScopeId} {o : ObjectId} {key : String}
    {p : Place} (hp : w.heap.Names s o key p) :
    readPlace m s p w = Action.readObject m.call o key w := by
  cases hp with
  | member => rfl
  | name hresolve =>
    have hlookup : Action.lookup m.call key s w =
        (Action.getProperty m.call (.object o) key >>= fun v ↦ pure (some v)) w := by
      unfold Action.lookup
      rw [Action.readBind_apply, hresolve]
    unfold readPlace Action.read
    dsimp only
    rw [Action.bind_apply, hlookup, Action.bind_apply]
    change _ = Action.getProperty m.call (.object o) key w
    cases Action.getProperty m.call (.object o) key w <;> rfl

/-- What a world has in which a value has been stored in a cell that a state holds. -/
structure World.Stored (w : World) (o : ObjectId) (key : String) (c : ObjectId) (v : Value)
    (w₁ : World) : Prop where
  reads_key (m : Machine) : Action.getProperty m.call (.object o) key w₁ = .ok v w₁
  reads_place (m : Machine) {s : ScopeId} {p : Place} : w₁.heap.Names s o key p →
    readPlace m s p w₁ = .ok v w₁
  reads_cell (m : Machine) : Action.getProperty m.call (.object c) "value" w₁ = .ok v w₁
  object {o₁ : ObjectId} : o₁ ≠ c → w₁.heap.object o₁ = w.heap.object o₁
  state : w₁.heap.object o = w.heap.object o

namespace Heap.HoldsCell

variable {w : World} {o c : ObjectId} {key : String} (hc : w.heap.HoldsCell o key c)

include hc

/-- A key of the state is read through the cell. -/
theorem readObject_eq (call : Caller) :
    Action.readObject call o key w = Action.readPlain call c "value" w := by
  have hown := hc.own
  unfold Action.readObject
  rw [Action.readBind_apply]
  simp only [hc.state, hown, hc.cell, if_true]

/-- A value that has been stored in the ref is what is read from then on. -/
theorem stored (href : (w.heap.object c).kind = .ref) (v : Value) :
    w.Stored o key c v (w.insertField c "value" v) := by
  have hobject {o₁ : ObjectId} (ho : o₁ ≠ c) :
      (w.heap.insertField c "value" v).object o₁ = w.heap.object o₁ :=
    (w.heap.object_modifyFields c o₁ fun fields ↦ fields.insert "value" v).trans
      (if_neg fun he ↦ ho he.1.symm)
  have hkeeps : w.heap.KeepsObjects (w.heap.insertField c "value" v) :=
    .modifyFields _ c fun fields ↦ fields.insert "value" v
  have hheld : (w.insertField c "value" v).heap.HoldsCell o key c :=
    hc.of_object hkeeps (hobject hc.ne.symm)
  have hkind : ((w.insertField c "value" v).heap.object c).kind = .ref :=
    (hkeeps.kind (lt_of_isCell hc.cell)).trans href
  have hread (call : Caller) : Action.readPlain call c "value" (w.insertField c "value" v) =
      .ok v (w.insertField c "value" v) := by
    have hvalue : (w.insertField c "value" v).heap.own? c "value" = some v :=
      (own?_modifyFields (lt_of_isCell hc.cell) (fun fields ↦ fields.insert "value" v) _).trans
        (Fields.get?_insert_self _ _ _)
    unfold Action.readPlain Action.readField
    rw [Action.readBind_apply]
    simp only [hkind]
    rw [Action.readBind_apply, hvalue]
    rfl
  have hkey (call : Caller) := (hheld.readObject_eq call).trans (hread call)
  exact {
    reads_key := fun m ↦ hkey m.call
    reads_place := fun m _ _ hp ↦ (readPlace_eq hp).trans (hkey m.call)
    reads_cell := fun m ↦ by
      refine Eq.trans ?_ (hread m.call)
      change Action.readObject m.call c "value" _ = _
      unfold Action.readObject
      rw [Action.readBind_apply]
      simp only [hkind]
    object := hobject
    state := hobject hc.ne.symm }

end Heap.HoldsCell

/-- What an assignment to a key that holds a cell does, in a world and on a machine: it stores the
value in a ref, calls the setter of a computed cell that has one, and does nothing to one that has
none. -/
structure Machine.AssignsThrough (m : Machine) (w : World) (o : ObjectId) (key : String)
    (c : ObjectId) : Prop where
  ref {s : ScopeId} {p : Place} (v : Value) : w.heap.Names s o key p →
    (w.heap.object c).kind = .ref →
    writePlace m s v p w = .ok () (w.insertField c "value" v) ∧
      w.Stored o key c v (w.insertField c "value" v)
  setter {s : ScopeId} {p : Place} {getter f : Value} (v : Value) : w.heap.Names s o key p →
    (w.heap.object c).kind = .computed getter (some f) →
    writePlace m s v p w = discard (m.call f .undefined [v]) w
  readonly {s : ScopeId} {p : Place} {getter : Value} (v : Value) : w.heap.Names s o key p →
    (w.heap.object c).kind = .computed getter none → writePlace m s v p w = .ok () w

/-- While a key holds a cell, every assignment to it goes through to the cell. -/
theorem Heap.HoldsCell.assignsThrough {w : World} {o c : ObjectId} {key : String}
    (hc : w.heap.HoldsCell o key c) (m : Machine) : m.AssignsThrough w o key c := by
  have hwrite {s : ScopeId} {p : Place} (v : Value) (hp : w.heap.Names s o key p) :
      writePlace m s v p w = Action.writePlain m.call c "value" v w :=
    (writePlace_eq hp v).trans (Action.writeObject_cell hc.state hc.state_open hc.own hc.cell)
  constructor
  · intro s p v hp href
    refine ⟨(hwrite v hp).trans (Action.writePlain_field hc.cell_open fun hcomputed ↦ ?_),
      hc.stored href v⟩
    rw [href] at hcomputed
    cases hcomputed
  · exact fun v hp hkind ↦ (hwrite v hp).trans (Action.writePlain_setter hc.cell_open hkind)
  · exact fun v hp hkind ↦ (hwrite v hp).trans (Action.writePlain_readonly hc.cell_open hkind)

end Nodecraft.Sandbox
