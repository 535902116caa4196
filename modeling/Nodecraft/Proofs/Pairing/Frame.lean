import Nodecraft.Proofs.Pairing.Diagonal

/-!
# Cells that stay as they are

`Heap.Untouched h h₁` says that a later heap has all cells of an older one as they were, and
`Heap.Keeps base o h h₁` that all cells of a heap that an older one did not have are unchanged in a
later one, but for one object. A heap that has only got new cells is still like itself along the
pairing of its old ones (`Heap.Keeps.alike_own`), and cells that a script cannot reach are not changed
by it (`Grows.keeps`).

`Heap.Holds base h j v` says that a value has the content of a document, in cells that the older heap
did not have; as long as these stay as they are, so does the content (`Heap.Holds.keep`).
-/

set_option autoImplicit false

namespace Nodecraft.Sandbox

open Script Pairing

/-- The cells of an array from some index on are unchanged in a later one. -/
structure Cells.Since {α : Type} (d : α) (n : Nat) (xs ys : Array α) : Prop where
  size_le : xs.size ≤ ys.size
  same {i : Nat} : n ≤ i → i < xs.size → ys.getD i d = xs.getD i d

/-- The cells that an older heap did not have are unchanged in a later one, but for one object. -/
structure Heap.Keeps (base : Heap) (o : ObjectId) (h h₁ : Heap) : Prop where
  arrays : Cells.Since #[] base.arrays.size h.arrays h₁.arrays
  objects_le : h.objects.size ≤ h₁.objects.size
  object {u : ObjectId} : base.objects.size ≤ u.index → u.index < h.objects.size → u ≠ o →
    h₁.object u = h.object u
  functions : Cells.Since (.native .emit) base.functions.size h.functions h₁.functions
  scopes : Cells.Since ⟨[], none, none, none, true⟩ base.scopes.size h.scopes h₁.scopes
  switches : Cells.Since false base.switches.size h.switches h₁.switches

namespace Cells.Since

variable {α : Type} {d : α} {n m : Nat} {xs ys zs : Array α}

theorem refl : Since d n xs xs := ⟨Nat.le_refl _, fun _ _ ↦ rfl⟩

theorem trans (h : Since d n xs ys) (h' : Since d n ys zs) : Since d n xs zs where
  size_le := Nat.le_trans h.size_le h'.size_le
  same hn hi := (h'.same hn (Nat.lt_of_lt_of_le hi h.size_le)).trans (h.same hn hi)

theorem anti (h : Since d n xs ys) (hnm : n ≤ m) : Since d m xs ys :=
  ⟨h.size_le, fun hm ↦ h.same (Nat.le_trans hnm hm)⟩

theorem push (x : α) : Since d n xs (xs.push x) where
  size_le := by simp
  same _ hi := by rw [getD_push, if_neg (Nat.ne_of_lt hi)]

/-- Cells without a counterpart stay as they are. -/
theorem of_kept {R S : Nat → Nat → Prop} (h : Kept d R S xs ys)
    (hR : ∀ i, n ≤ i → i < xs.size → ∀ i', ¬R i i') : Since d n xs ys :=
  ⟨h.size_le, fun hn hi ↦ h.unpaired hi (hR _ hn hi)⟩

end Cells.Since

/-- A heap with more cells, and with the old ones unchanged. -/
structure Heap.Untouched (h h₁ : Heap) : Prop where
  arrays : Cells.Since #[] 0 h.arrays h₁.arrays
  objects : Cells.Since ⟨.plain, [], false⟩ 0 h.objects h₁.objects
  functions : Cells.Since (.native .emit) 0 h.functions h₁.functions
  scopes : Cells.Since ⟨[], none, none, none, true⟩ 0 h.scopes h₁.scopes
  switches : Cells.Since false 0 h.switches h₁.switches

namespace Heap.Untouched

variable {h h₁ h₂ : Heap}

theorem refl (h : Heap) : h.Untouched h := ⟨.refl, .refl, .refl, .refl, .refl⟩

theorem trans (hu : h.Untouched h₁) (hu' : h₁.Untouched h₂) : h.Untouched h₂ :=
  ⟨hu.arrays.trans hu'.arrays, hu.objects.trans hu'.objects, hu.functions.trans hu'.functions,
    hu.scopes.trans hu'.scopes, hu.switches.trans hu'.switches⟩

end Heap.Untouched

namespace Heap.Keeps

variable {base h h₁ h₂ : Heap} {o : ObjectId}

theorem refl : Keeps base o h h :=
  ⟨.refl, Nat.le_refl _, fun _ _ _ ↦ rfl, .refl, .refl, .refl⟩

theorem trans (hk : Keeps base o h h₁) (hk' : Keeps base o h₁ h₂) : Keeps base o h h₂ where
  arrays := hk.arrays.trans hk'.arrays
  objects_le := Nat.le_trans hk.objects_le hk'.objects_le
  object hb hu hne := (hk'.object hb (Nat.lt_of_lt_of_le hu hk.objects_le) hne).trans
    (hk.object hb hu hne)
  functions := hk.functions.trans hk'.functions
  scopes := hk.scopes.trans hk'.scopes
  switches := hk.switches.trans hk'.switches

/-- What an even older heap did not have. -/
theorem later (hk : Keeps .empty o h h₁) : Keeps base o h h₁ where
  arrays := hk.arrays.anti (Nat.zero_le _)
  objects_le := hk.objects_le
  object _ := hk.object (Nat.zero_le _)
  functions := hk.functions.anti (Nat.zero_le _)
  scopes := hk.scopes.anti (Nat.zero_le _)
  switches := hk.switches.anti (Nat.zero_le _)

theorem function (hk : Keeps base o h h₁) {f : FunctionId} (hb : base.functions.size ≤ f.index)
    (hf : f.index < h.functions.size) : h₁.function f = h.function f :=
  hk.functions.same hb hf

theorem newObject (object : Object) : Keeps base o h (h.newObject object).2 :=
  have hpush : Cells.Since ⟨.plain, [], false⟩ 0 h.objects (h.objects.push object) := .push object
  { arrays := .refl
    objects_le := hpush.size_le
    object := fun {u} _ hu _ ↦ hpush.same (Nat.zero_le u.index) hu
    functions := .refl
    scopes := .refl
    switches := .refl }

theorem newArray (items : Array Value) : Keeps base o h (h.newArray items).2 :=
  { refl with arrays := .push items }

theorem newFunction (f : Function) : Keeps base o h (h.newFunction f).2 :=
  { refl with functions := .push f }

theorem insertField (key : String) (v : Value) : Keeps base o h (h.insertField o key v) where
  arrays := .refl
  objects_le := by simp [Heap.insertField, Heap.modifyObject]
  object {u} _ _ hne := by
    simp only [Heap.object, Heap.insertField, Heap.modifyObject, Cells.getD_modify]
    rw [if_neg]
    rintro ⟨heq, -⟩
    exact hne (congrArg ObjectId.mk heq.symm)
  functions := .refl
  scopes := .refl
  switches := .refl

/-- A heap with new cells, and with a new object that may change, is like itself along the pairing
of its old ones. -/
theorem alike_own (hk : Keeps .empty o h h₁) (hh : h.Closed) (ho : h.objects.size ≤ o.index) :
    Heap.Alike (own h) h₁ h₁ where
  arrays := .diagonal And.left fun a ha ↦ by
    rw [hk.arrays.same (Nat.zero_le _) ha.2]
    exact hh.arrays.content ha
  objects := .diagonal And.left fun u hu ↦ by
    have hne : (⟨u⟩ : ObjectId) ≠ o := by
      rintro rfl
      exact Nat.not_lt_of_le ho hu.2
    have hsame := hk.object (u := ⟨u⟩) (Nat.zero_le _) hu.2 hne
    unfold Heap.object at hsame
    rw [hsame]
    exact hh.objects.content hu
  functions := .diagonal And.left fun f hf ↦ by
    rw [hk.functions.same (Nat.zero_le _) hf.2]
    exact hh.functions.content hf
  scopes := .diagonal And.left fun s hs ↦ by
    rw [hk.scopes.same (Nat.zero_le _) hs.2]
    exact hh.scopes.content hs
  switches := .diagonal And.left fun _ _ ↦ rfl
  total hs hsize := absurd hs.2 (Nat.not_lt_of_le (Nat.le_trans hk.scopes.size_le hsize))
  measured := ⟨⟨rfl, fun _ _ ↦ And.left⟩, ⟨rfl, fun _ _ ↦ And.left⟩, ⟨rfl, fun _ _ ↦ And.left⟩,
    ⟨rfl, fun _ _ ↦ And.left⟩, ⟨rfl, fun _ _ ↦ And.left⟩⟩

end Heap.Keeps

/-- Scripts that have got no other cells than those of an old heap do not change the newer ones. -/
theorem Grows.keeps {base h h₁ : Heap} {q : Pairing} (hg : Grows (own base) h q h₁)
    (o : ObjectId) : Heap.Keeps base o h h₁ where
  arrays := .of_kept hg.arrays fun _ hn _ _ ha ↦ Nat.not_lt_of_le hn ha.2
  objects_le := hg.objects.size_le
  object hb hu _ := hg.objects.unpaired hu fun _ ho ↦ Nat.not_lt_of_le hb ho.2
  functions := .of_kept hg.functions fun _ hn _ _ hf ↦ Nat.not_lt_of_le hn hf.2
  scopes := .of_kept hg.scopes fun _ hn _ _ hs ↦ Nat.not_lt_of_le hn hs.2
  switches := .of_kept hg.switches fun _ hn _ _ hs ↦ Nat.not_lt_of_le hn hs.2

/-! ### Contents of documents -/

mutual

/-- The value has the content of the document, in cells that an older heap did not have. -/
def Heap.Holds (base h : Heap) : Json → Value → Prop
  | .null, v => v = .null
  | .bool b, v => v = .bool b
  | .number n, v => v = .number n.toFloat
  | .string s, v => v = .string s
  | .array items, v => ∃ a, v = .array a ∧ base.arrays.size ≤ a.index ∧
      a.index < h.arrays.size ∧ Heap.HoldsItems base h items (h.array a).toList
  | .object fields, v => ∃ o, v = .object o ∧ base.objects.size ≤ o.index ∧
      o.index < h.objects.size ∧ (h.object o).kind = .plain ∧
      Heap.HoldsFields base h fields (h.object o).fields

def Heap.HoldsItems (base h : Heap) : List Json → List Value → Prop
  | [], vs => vs = []
  | j :: rest, vs => ∃ v us, vs = v :: us ∧ Heap.Holds base h j v ∧ Heap.HoldsItems base h rest us

/-- The same keys in the same order. -/
def Heap.HoldsFields (base h : Heap) : List (String × Json) → Fields Value → Prop
  | [], fs => fs = []
  | (key, j) :: rest, fs => ∃ v us, fs = (key, v) :: us ∧ Heap.Holds base h j v ∧
      Heap.HoldsFields base h rest us

end

mutual

/-- A value holds its document through every change that keeps the cells below the new object. -/
theorem Heap.Holds.keep {base h h₁ : Heap} {o : ObjectId} (hk : Heap.Keeps base o h h₁)
    (ho : h.objects.size ≤ o.index) (j : Json) {v : Value} (hv : Heap.Holds base h j v) :
    Heap.Holds base h₁ j v := by
  cases j with
  | array items =>
    simp only [Heap.Holds] at hv ⊢
    obtain ⟨a, rfl, hbase, hsize, hitems⟩ := hv
    refine ⟨a, rfl, hbase, Nat.lt_of_lt_of_le hsize hk.arrays.size_le, ?_⟩
    rw [show h₁.array a = h.array a from hk.arrays.same hbase hsize]
    exact hitems.keep hk ho items
  | object fields =>
    simp only [Heap.Holds] at hv ⊢
    obtain ⟨u, rfl, hbase, hsize, hkind, hfields⟩ := hv
    have hne : u ≠ o := by
      rintro rfl
      exact Nat.not_lt_of_le ho hsize
    refine ⟨u, rfl, hbase, Nat.lt_of_lt_of_le hsize hk.objects_le, ?_⟩
    rw [hk.object hbase hsize hne]
    exact ⟨hkind, hfields.keep hk ho fields⟩
  | _ =>
    simp only [Heap.Holds] at hv ⊢
    exact hv

theorem Heap.HoldsItems.keep {base h h₁ : Heap} {o : ObjectId} (hk : Heap.Keeps base o h h₁)
    (ho : h.objects.size ≤ o.index) (items : List Json) {vs : List Value}
    (hv : Heap.HoldsItems base h items vs) : Heap.HoldsItems base h₁ items vs := by
  cases items with
  | nil =>
    simp only [Heap.HoldsItems] at hv ⊢
    exact hv
  | cons j rest =>
    simp only [Heap.HoldsItems] at hv ⊢
    obtain ⟨v, us, rfl, hj, hrest⟩ := hv
    exact ⟨v, us, rfl, hj.keep hk ho j, hrest.keep hk ho rest⟩

theorem Heap.HoldsFields.keep {base h h₁ : Heap} {o : ObjectId} (hk : Heap.Keeps base o h h₁)
    (ho : h.objects.size ≤ o.index) (fields : List (String × Json)) {fs : Fields Value}
    (hv : Heap.HoldsFields base h fields fs) : Heap.HoldsFields base h₁ fields fs := by
  match fields with
  | [] =>
    simp only [Heap.HoldsFields] at hv ⊢
    exact hv
  | (key, j) :: rest =>
    simp only [Heap.HoldsFields] at hv ⊢
    obtain ⟨v, us, rfl, hj, hrest⟩ := hv
    exact ⟨v, us, rfl, hj.keep hk ho j, hrest.keep hk ho rest⟩

end

/-- Copying a document into a heap only allocates. -/
theorem Heap.keeps_ofDocument (h : Heap) (j : Json) (o : ObjectId) :
    Heap.Keeps .empty o h (h.ofDocument j).2 := by
  obtain ⟨q, hm, -⟩ := h.alike_own_empty.ofDocument j
  exact hm.grows.keeps o

theorem Heap.keeps_ofItems (h : Heap) (items : List Json) (o : ObjectId) :
    Heap.Keeps .empty o h (h.ofItems items).2 := by
  obtain ⟨q, hm, -⟩ := h.alike_own_empty.ofItems items
  exact hm.grows.keeps o

theorem Heap.keeps_ofFields (h : Heap) (fields : List (String × Json)) (o : ObjectId) :
    Heap.Keeps .empty o h (h.ofFields fields).2 := by
  obtain ⟨q, hm, -⟩ := h.alike_own_empty.ofFields fields
  exact hm.grows.keeps o

mutual

/-- A fresh value holds the document it is made from, in cells that are new. -/
theorem Heap.holds_ofDocument {base h : Heap} (ha : base.arrays.size ≤ h.arrays.size)
    (ho : base.objects.size ≤ h.objects.size) (j : Json) :
    Heap.Holds base (h.ofDocument j).2 j (h.ofDocument j).1 := by
  cases j with
  | array items =>
    have hitems := Heap.holds_ofItems ha ho items
    have hkeeps := h.keeps_ofItems items ⟨(h.ofItems items).2.objects.size⟩
    simp only [Heap.ofDocument, Heap.Holds]
    refine ⟨_, rfl, Nat.le_trans ha hkeeps.arrays.size_le,
      Nat.lt_of_lt_of_eq (Nat.lt_succ_self _) (Array.size_push _).symm, ?_⟩
    rw [show ((h.ofItems items).2.newArray (h.ofItems items).1.toArray).2.array
        ((h.ofItems items).2.newArray (h.ofItems items).1.toArray).1 =
          (h.ofItems items).1.toArray by
      simp [Heap.array, Heap.newArray]]
    exact hitems.keep (.newArray _) (Nat.le_refl _) items
  | object fields =>
    have hfields := Heap.holds_ofFields ha ho fields
    have hkeeps := h.keeps_ofFields fields ⟨(h.ofFields fields).2.objects.size⟩
    simp only [Heap.ofDocument, Heap.Holds]
    refine ⟨_, rfl, Nat.le_trans ho hkeeps.objects_le,
      Nat.lt_of_lt_of_eq (Nat.lt_succ_self _) (Array.size_push _).symm, ?_⟩
    rw [show ((h.ofFields fields).2.newObject ⟨.plain, (h.ofFields fields).1, false⟩).2.object
        ((h.ofFields fields).2.newObject ⟨.plain, (h.ofFields fields).1, false⟩).1 =
          ⟨.plain, (h.ofFields fields).1, false⟩ by
      simp [Heap.object, Heap.newObject]]
    exact ⟨rfl, hfields.keep (.newObject _) (Nat.le_refl _) fields⟩
  | _ => simp only [Heap.ofDocument, Heap.Holds]

/-- The copies of a document's items hold these items. -/
theorem Heap.holds_ofItems {base h : Heap} (ha : base.arrays.size ≤ h.arrays.size)
    (ho : base.objects.size ≤ h.objects.size) (items : List Json) :
    Heap.HoldsItems base (h.ofItems items).2 items (h.ofItems items).1 := by
  cases items with
  | nil => simp only [Heap.ofItems, Heap.HoldsItems]
  | cons j rest =>
    have hk := h.keeps_ofDocument j ⟨h.objects.size⟩
    have hk' := (h.ofDocument j).2.keeps_ofItems rest ⟨(h.ofDocument j).2.objects.size⟩
    simp only [Heap.ofItems, Heap.HoldsItems]
    exact ⟨_, _, rfl, (Heap.holds_ofDocument ha ho j).keep hk'.later (Nat.le_refl _) j,
      Heap.holds_ofItems (Nat.le_trans ha hk.arrays.size_le) (Nat.le_trans ho hk.objects_le) rest⟩

/-- The copies of a document's fields hold these fields. -/
theorem Heap.holds_ofFields {base h : Heap} (ha : base.arrays.size ≤ h.arrays.size)
    (ho : base.objects.size ≤ h.objects.size) (fields : List (String × Json)) :
    Heap.HoldsFields base (h.ofFields fields).2 fields (h.ofFields fields).1 := by
  match fields with
  | [] => simp only [Heap.ofFields, Heap.HoldsFields]
  | (key, j) :: rest =>
    have hk := h.keeps_ofDocument j ⟨h.objects.size⟩
    have hk' := (h.ofDocument j).2.keeps_ofFields rest ⟨(h.ofDocument j).2.objects.size⟩
    simp only [Heap.ofFields, Heap.HoldsFields]
    exact ⟨_, _, rfl, (Heap.holds_ofDocument ha ho j).keep hk'.later (Nat.le_refl _) j,
      Heap.holds_ofFields (Nat.le_trans ha hk.arrays.size_le) (Nat.le_trans ho hk.objects_le) rest⟩

end

end Nodecraft.Sandbox
