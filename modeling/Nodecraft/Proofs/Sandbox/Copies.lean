import Nodecraft.Proofs.Number.Whole
import Nodecraft.Proofs.Pairing.Frame
import Nodecraft.Proofs.Pairing.Run
import Nodecraft.Proofs.Sandbox.ArrayMethods
import Nodecraft.Proofs.Sandbox.Writing

/-!
# Values made from documents

A value that is made from a document is a copy of it (`Heap.copies_ofDocument`): it consists of the
cells that the heap has got for it, each of which occurs once in it, and it is written out as the
document. Both still hold of any later heap in which these cells are as they were, so the value is
private (`Heap.isPrivate_ofDocument`): copies that are made later share no cell with it, and neither
what is written through other containers shows in it, nor what scripts do that do not come by it.

The proof follows the document. `Heap.Copies` states all of this of one value and `Heap.CopiesAll`
of several that are made one after the other; there is one lemma for each way in which a document is
made of others. What is made later is not part of what was made before (`Heap.Makes.not_again`), and
this keeps the parts of a copy apart.
-/

set_option autoImplicit false

namespace Nodecraft.Json

mutual

/-- How deep containers are nested. -/
def nesting : Json → Nat
  | .array items => nestingItems items + 1
  | .object fields => nestingFields fields + 1
  | _ => 0

def nestingItems : List Json → Nat
  | [] => 0
  | j :: rest => max (nesting j) (nestingItems rest)

def nestingFields : List (String × Json) → Nat
  | [] => 0
  | (_, j) :: rest => max (nesting j) (nestingFields rest)

end

mutual

/-- All numbers are whole, of magnitude below `2 ^ 53`. -/
def IsWhole : Json → Prop
  | .number (.whole n) => n.natAbs < 2 ^ 53
  | .number (.real _) => False
  | .array items => ItemsAreWhole items
  | .object fields => FieldsAreWhole fields
  | _ => True

def ItemsAreWhole : List Json → Prop
  | [] => True
  | j :: rest => IsWhole j ∧ ItemsAreWhole rest

def FieldsAreWhole : List (String × Json) → Prop
  | [] => True
  | (_, j) :: rest => IsWhole j ∧ FieldsAreWhole rest

end

/-- Names do not nest. -/
theorem nestingFields_eq (fields : List (String × Json)) :
    nestingFields fields = nestingItems (fields.map Prod.snd) := by
  induction fields with
  | nil => simp [nestingFields, nestingItems]
  | cons f rest ih =>
    obtain ⟨k, j⟩ := f
    rw [nestingFields, ih, List.map_cons, nestingItems]

theorem canonicalItems_eq_map (items : List Json) : canonicalItems items = items.map canonical := by
  induction items with
  | nil => rw [canonicalItems, List.map_nil]
  | cons j rest ih => rw [canonicalItems, ih, List.map_cons]

theorem canonicalFields_eq_map (fields : List (String × Json)) :
    canonicalFields fields = fields.map fun f ↦ (f.1, canonical f.2) := by
  induction fields with
  | nil => rw [canonicalFields, List.map_nil]
  | cons f rest ih =>
    obtain ⟨k, j⟩ := f
    rw [canonicalFields, ih, List.map_cons]

end Nodecraft.Json

namespace Nodecraft.Sandbox

open Script Pairing

/-! ### Cells of containers -/

/-- The cell is in the later heap and not in the older one. -/
def Heap.Makes (h h₁ : Heap) : OpenCell → Prop
  | .array a => h.arrays.size ≤ a.index ∧ a.index < h₁.arrays.size
  | .object o => h.objects.size ≤ o.index ∧ o.index < h₁.objects.size

/-- The containers that a value is made of, each as often as one comes to it, down to some depth. -/
def Heap.cellsWithin (h : Heap) : Nat → Value → List OpenCell
  | room + 1, .array a => .array a :: (h.array a).toList.flatMap (h.cellsWithin room)
  | room + 1, .object o =>
    .object o :: ((h.object o).fields.map Prod.snd).flatMap (h.cellsWithin room)
  | _, _ => []

def Heap.cells (h : Heap) (v : Value) : List OpenCell := h.cellsWithin maxValueDepth v

/-- The cells are in the later heap as they are in the older one. -/
structure Heap.Leaves (cells : OpenCell → Prop) (h h₁ : Heap) : Prop where
  array {a : ArrayId} : cells (.array a) → a.index < h.arrays.size →
    a.index < h₁.arrays.size ∧ h₁.array a = h.array a
  object {o : ObjectId} : cells (.object o) → o.index < h.objects.size →
    o.index < h₁.objects.size ∧ h₁.object o = h.object o

/-- A heap with more arrays and objects, and nothing else changed. -/
structure Heap.Adds (h h₁ : Heap) : Prop where
  arrays : Cells.Since #[] 0 h.arrays h₁.arrays
  objects : Cells.Since ⟨.plain, [], false⟩ 0 h.objects h₁.objects
  functions : h₁.functions = h.functions
  scopes : h₁.scopes = h.scopes
  switches : h₁.switches = h.switches

namespace Heap.Adds

variable {h h₁ h₂ : Heap}

theorem refl (h : Heap) : h.Adds h := ⟨.refl, .refl, rfl, rfl, rfl⟩

theorem trans (ha : h.Adds h₁) (ha' : h₁.Adds h₂) : h.Adds h₂ :=
  ⟨ha.arrays.trans ha'.arrays, ha.objects.trans ha'.objects, ha'.functions.trans ha.functions,
    ha'.scopes.trans ha.scopes, ha'.switches.trans ha.switches⟩

theorem newArray (h : Heap) (items : Array Value) : h.Adds (h.newArray items).2 :=
  ⟨.push items, .refl, rfl, rfl, rfl⟩

theorem newObject (h : Heap) (object : Object) : h.Adds (h.newObject object).2 :=
  ⟨.refl, .push object, rfl, rfl, rfl⟩

theorem leaves (ha : h.Adds h₁) (cells : OpenCell → Prop) : h.Leaves cells h₁ where
  array _ hsize :=
    ⟨Nat.lt_of_lt_of_le hsize ha.arrays.size_le, ha.arrays.same (Nat.zero_le _) hsize⟩
  object _ hsize :=
    ⟨Nat.lt_of_lt_of_le hsize ha.objects.size_le, ha.objects.same (Nat.zero_le _) hsize⟩

/-- What has been made first or then has been made. -/
theorem makes_iff (ha : h.Adds h₁) (ha' : h₁.Adds h₂) (c : OpenCell) :
    h.Makes h₂ c ↔ h.Makes h₁ c ∨ h₁.Makes h₂ c := by
  have harrays := ha.arrays.size_le
  have harrays' := ha'.arrays.size_le
  have hobjects := ha.objects.size_le
  have hobjects' := ha'.objects.size_le
  cases c with
  | array a =>
    simp only [Makes]
    omega
  | object o =>
    simp only [Makes]
    omega

end Heap.Adds

namespace Heap

variable {h h₁ h₂ h₃ : Heap} {cells cells' : OpenCell → Prop}

/-- Nothing is made between a heap and itself. -/
theorem not_makes_self (h : Heap) (c : OpenCell) : ¬h.Makes h c := by
  cases c with
  | array a => exact fun hc ↦ Nat.not_lt_of_le hc.1 hc.2
  | object o => exact fun hc ↦ Nat.not_lt_of_le hc.1 hc.2

/-- What has been made first is not made again. -/
theorem Makes.not_again {c : OpenCell} (hc : h.Makes h₁ c) : ¬h₁.Makes h₂ c := by
  cases c with
  | array a => exact fun hc' ↦ Nat.not_lt_of_le hc'.1 hc.2
  | object o => exact fun hc' ↦ Nat.not_lt_of_le hc'.1 hc.2

/-- The one cell that a new array makes. -/
theorem makes_newArray (h : Heap) (items : Array Value) (c : OpenCell) :
    h.Makes (h.newArray items).2 c ↔ c = .array (h.newArray items).1 := by
  cases c with
  | array a =>
    obtain ⟨i⟩ := a
    simp only [Makes, newArray, Array.size_push, OpenCell.array.injEq, ArrayId.mk.injEq]
    omega
  | object o => simp [Makes, newArray]

/-- The one cell that a new object makes. -/
theorem makes_newObject (h : Heap) (object : Object) (c : OpenCell) :
    h.Makes (h.newObject object).2 c ↔ c = .object (h.newObject object).1 := by
  cases c with
  | array a => simp [Makes, newObject]
  | object o =>
    obtain ⟨i⟩ := o
    simp only [Makes, newObject, Array.size_push, OpenCell.object.injEq, ObjectId.mk.injEq]
    omega

theorem array_newArray (h : Heap) (items : Array Value) :
    (h.newArray items).2.array (h.newArray items).1 = items :=
  (Cells.getD_push _ _ _ _).trans (if_pos rfl)

theorem object_newObject (h : Heap) (object : Object) :
    (h.newObject object).2.object (h.newObject object).1 = object :=
  (Cells.getD_push _ _ _ _).trans (if_pos rfl)

namespace Leaves

theorem trans (hl : h.Leaves cells h₁) (hl' : h₁.Leaves cells h₂) : h.Leaves cells h₂ where
  array hc hsize :=
    have ⟨hsize', hsame⟩ := hl.array hc hsize
    have ⟨hsize'', hsame'⟩ := hl'.array hc hsize'
    ⟨hsize'', hsame'.trans hsame⟩
  object hc hsize :=
    have ⟨hsize', hsame⟩ := hl.object hc hsize
    have ⟨hsize'', hsame'⟩ := hl'.object hc hsize'
    ⟨hsize'', hsame'.trans hsame⟩

/-- Fewer cells are left as they are all the more. -/
theorem anti (hl : h.Leaves cells h₁) (hcells : ∀ c, cells' c → cells c) :
    h.Leaves cells' h₁ :=
  ⟨fun hc ↦ hl.array (hcells _ hc), fun hc ↦ hl.object (hcells _ hc)⟩

end Leaves

end Heap

/-! ### Values made from documents -/

/-- A value is a copy of a document, made of the cells that a heap has got: as long as these are as
they were, the value is written out as the document, and is made of them, each once. -/
structure Heap.Copies (h h₁ : Heap) (j : Json) (v : Value) : Prop where
  adds : h.Adds h₁
  leftOut {h₂ : Heap} : h₁.Leaves (h.Makes h₁) h₂ → h₂.leftOut v = false
  document {h₂ : Heap} {room : Nat} {opened : List OpenCell} : h₁.Leaves (h.Makes h₁) h₂ →
    j.nesting ≤ room → (∀ c ∈ opened, ¬h.Makes h₁ c) → h₂.documentWithin room opened v = j.canonical
  nodup {h₂ : Heap} {room : Nat} : h₁.Leaves (h.Makes h₁) h₂ → j.nesting ≤ room →
    (h₂.cellsWithin room v).Nodup
  mem_cells {h₂ : Heap} {room : Nat} {c : OpenCell} : h₁.Leaves (h.Makes h₁) h₂ →
    j.nesting ≤ room → (c ∈ h₂.cellsWithin room v ↔ h.Makes h₁ c)

/-- The same of several documents. -/
structure Heap.CopiesAll (h h₁ : Heap) (js : List Json) (vs : List Value) : Prop where
  adds : h.Adds h₁
  leftOut {h₂ : Heap} : h₁.Leaves (h.Makes h₁) h₂ → ∀ v ∈ vs, h₂.leftOut v = false
  documents {h₂ : Heap} {room : Nat} {opened : List OpenCell} : h₁.Leaves (h.Makes h₁) h₂ →
    Json.nestingItems js ≤ room → (∀ c ∈ opened, ¬h.Makes h₁ c) →
    vs.map (h₂.documentWithin room opened) = js.map Json.canonical
  nodup {h₂ : Heap} {room : Nat} : h₁.Leaves (h.Makes h₁) h₂ → Json.nestingItems js ≤ room →
    (vs.flatMap (h₂.cellsWithin room)).Nodup
  mem_cells {h₂ : Heap} {room : Nat} {c : OpenCell} : h₁.Leaves (h.Makes h₁) h₂ →
    Json.nestingItems js ≤ room → (c ∈ vs.flatMap (h₂.cellsWithin room) ↔ h.Makes h₁ c)

/-- Entries with the same names are the same if what they hold is. -/
theorem Fields.map_congr {α β γ : Type} {f : α → γ} {g : β → γ} : ∀ {xs : Fields α} {ys : Fields β},
    xs.map Prod.fst = ys.map Prod.fst → (xs.map Prod.snd).map f = (ys.map Prod.snd).map g →
    (xs.map fun x ↦ (x.1, f x.2)) = ys.map fun y ↦ (y.1, g y.2)
  | [], [], _, _ => rfl
  | x :: xs, y :: ys, hkeys, hvalues => by
    simp only [List.map_cons, List.cons.injEq] at hkeys hvalues ⊢
    exact ⟨Prod.ext hkeys.1 hvalues.1, map_congr hkeys.2 hvalues.2⟩

namespace Heap

variable {h h₁ h₂ : Heap}

/-- A value without cells is a copy of a document if it is written out as that. -/
theorem Copies.of_plain {j : Json} {v : Value} (hleft : ∀ h₂ : Heap, h₂.leftOut v = false)
    (hdocument : ∀ (h₂ : Heap) (room : Nat) (opened : List OpenCell),
      h₂.documentWithin room opened v = j.canonical)
    (hcells : ∀ (h₂ : Heap) (room : Nat), h₂.cellsWithin room v = []) (h : Heap) :
    h.Copies h j v where
  adds := .refl h
  leftOut _ := hleft _
  document _ _ _ := hdocument _ _ _
  nodup _ _ := by
    rw [hcells]
    exact .nil
  mem_cells {_ _ c} _ _ := by
    rw [hcells]
    exact iff_of_false List.not_mem_nil (h.not_makes_self c)

theorem CopiesAll.nil (h : Heap) : h.CopiesAll h [] [] where
  adds := .refl h
  leftOut _ _ hv := absurd hv List.not_mem_nil
  documents _ _ _ := rfl
  nodup _ _ := .nil
  mem_cells {_ _ c} _ _ := iff_of_false List.not_mem_nil (h.not_makes_self c)

/-- What is made after a copy is not part of it. -/
theorem CopiesAll.cons {j : Json} {v : Value} {js : List Json} {vs : List Value}
    (hv : h.Copies h₁ j v) (hvs : h₁.CopiesAll h₂ js vs) :
    h.CopiesAll h₂ (j :: js) (v :: vs) := by
  have hmakes := hv.adds.makes_iff hvs.adds
  have hfirst {h₃ : Heap} (hl : h₂.Leaves (h.Makes h₂) h₃) : h₁.Leaves (h.Makes h₁) h₃ :=
    (hvs.adds.leaves _).trans (hl.anti fun c hc ↦ (hmakes c).2 (.inl hc))
  have hrest {h₃ : Heap} (hl : h₂.Leaves (h.Makes h₂) h₃) : h₂.Leaves (h₁.Makes h₂) h₃ :=
    hl.anti fun c hc ↦ (hmakes c).2 (.inr hc)
  have hroom {room : Nat} (hr : Json.nestingItems (j :: js) ≤ room) :
      j.nesting ≤ room ∧ Json.nestingItems js ≤ room := by
    rwa [Json.nestingItems, Nat.max_le] at hr
  exact {
    adds := hv.adds.trans hvs.adds
    leftOut := fun hl u hu ↦ by
      rcases List.mem_cons.1 hu with rfl | hu
      · exact hv.leftOut (hfirst hl)
      · exact hvs.leftOut (hrest hl) u hu
    documents := fun hl hr hopened ↦ by
      rw [List.map_cons, List.map_cons,
        hv.document (hfirst hl) (hroom hr).1 fun c hc hm ↦ hopened c hc ((hmakes c).2 (.inl hm)),
        hvs.documents (hrest hl) (hroom hr).2 fun c hc hm ↦ hopened c hc ((hmakes c).2 (.inr hm))]
    nodup := fun hl hr ↦ by
      rw [List.flatMap_cons, List.nodup_append]
      refine ⟨hv.nodup (hfirst hl) (hroom hr).1, hvs.nodup (hrest hl) (hroom hr).2, ?_⟩
      rintro c hc _ hc' rfl
      exact ((hv.mem_cells (hfirst hl) (hroom hr).1).1 hc).not_again
        ((hvs.mem_cells (hrest hl) (hroom hr).2).1 hc')
    mem_cells := fun hl hr ↦ by
      rw [List.flatMap_cons, List.mem_append, hv.mem_cells (hfirst hl) (hroom hr).1,
        hvs.mem_cells (hrest hl) (hroom hr).2, hmakes] }

/-- A new container of copies is a copy: its cell is none of theirs. -/
theorem CopiesAll.container {js : List Json} {vs : List Value} (hvs : h.CopiesAll h₁ js vs)
    {cell : OpenCell} (hadds : h₁.Adds h₂) (hcell : ∀ c, h₁.Makes h₂ c ↔ c = cell) {j : Json}
    {v : Value} (hnesting : j.nesting = Json.nestingItems js + 1)
    (hleft : ∀ {h₃ : Heap}, h₂.Leaves (h.Makes h₂) h₃ → h₃.leftOut v = false)
    (hcells : ∀ {h₃ : Heap}, h₂.Leaves (h.Makes h₂) h₃ → ∀ room,
      h₃.cellsWithin (room + 1) v = cell :: vs.flatMap (h₃.cellsWithin room))
    (hdocument : ∀ {h₃ : Heap}, h₂.Leaves (h.Makes h₂) h₃ → ∀ room opened,
      opened.contains cell = false →
      vs.map (h₃.documentWithin room (cell :: opened)) = js.map Json.canonical →
      (∀ v ∈ vs, h₃.leftOut v = false) →
      h₃.documentWithin (room + 1) opened v = j.canonical) :
    h.Copies h₂ j v := by
  have hmakes (c : OpenCell) : h.Makes h₂ c ↔ h.Makes h₁ c ∨ c = cell := by
    rw [hvs.adds.makes_iff hadds, hcell]
  have hnew : ¬h.Makes h₁ cell := fun hc ↦ hc.not_again ((hcell cell).2 rfl)
  have hinner {h₃ : Heap} (hl : h₂.Leaves (h.Makes h₂) h₃) : h₁.Leaves (h.Makes h₁) h₃ :=
    (hadds.leaves _).trans (hl.anti fun c hc ↦ (hmakes c).2 (.inl hc))
  have hroom {room : Nat} (hr : j.nesting ≤ room) :
      ∃ n, room = n + 1 ∧ Json.nestingItems js ≤ n := ⟨room - 1, by omega, by omega⟩
  exact {
    adds := hvs.adds.trans hadds
    leftOut := hleft
    document := fun {h₃ room opened} hl hr hopened ↦ by
      obtain ⟨n, rfl, hn⟩ := hroom hr
      have hclosed : opened.contains cell = false := by
        rw [List.contains_eq_mem]
        exact decide_eq_false fun hc ↦ hopened _ hc ((hmakes cell).2 (.inr rfl))
      refine hdocument hl n opened hclosed (hvs.documents (hinner hl) hn fun c hc hm ↦ ?_)
        (hvs.leftOut (hinner hl))
      rcases List.mem_cons.1 hc with rfl | hc
      · exact hnew hm
      · exact hopened c hc ((hmakes c).2 (.inl hm))
    nodup := fun hl hr ↦ by
      obtain ⟨n, rfl, hn⟩ := hroom hr
      rw [hcells hl, List.nodup_cons, hvs.mem_cells (hinner hl) hn]
      exact ⟨hnew, hvs.nodup (hinner hl) hn⟩
    mem_cells := fun hl hr ↦ by
      obtain ⟨n, rfl, hn⟩ := hroom hr
      rw [hcells hl, List.mem_cons, hvs.mem_cells (hinner hl) hn, hmakes, or_comm] }

/-- A list of copies becomes the copy of an array. -/
theorem CopiesAll.array {js : List Json} {vs : List Value} (hvs : h.CopiesAll h₁ js vs) :
    h.Copies (h₁.newArray vs.toArray).2 (.array js) (.array (h₁.newArray vs.toArray).1) := by
  have hadds := Adds.newArray h₁ vs.toArray
  have hself : h.Makes (h₁.newArray vs.toArray).2 (.array (h₁.newArray vs.toArray).1) :=
    (hvs.adds.makes_iff hadds _).2 (.inr ((makes_newArray _ _ _).2 rfl))
  have hitems {h₃ : Heap}
      (hl : (h₁.newArray vs.toArray).2.Leaves (h.Makes (h₁.newArray vs.toArray).2) h₃) :
      (h₃.array (h₁.newArray vs.toArray).1).toList = vs := by
    rw [(hl.array hself hself.2).2, array_newArray]
  refine hvs.container hadds (makes_newArray _ _) (by rw [Json.nesting]) (fun _ ↦ rfl)
    (fun hl room ↦ by rw [cellsWithin, hitems hl]) fun hl room opened hclosed hdocuments _ ↦ ?_
  rw [documentWithin, hclosed, hitems hl, hdocuments, Json.canonical, Json.canonicalItems_eq_map]
  rfl

/-- An object's fields are written out in the order of their names. -/
theorem CopiesAll.object {fields : List (String × Json)} {fs : Fields Value}
    (hkeys : fs.map Prod.fst = fields.map Prod.fst)
    (hfs : h.CopiesAll h₁ (fields.map Prod.snd) (fs.map Prod.snd)) :
    h.Copies (h₁.newObject ⟨.plain, fs, false⟩).2 (.object fields)
      (.object (h₁.newObject ⟨.plain, fs, false⟩).1) := by
  have hadds := Adds.newObject h₁ ⟨.plain, fs, false⟩
  have hself : h.Makes (h₁.newObject ⟨.plain, fs, false⟩).2
      (.object (h₁.newObject ⟨.plain, fs, false⟩).1) :=
    (hfs.adds.makes_iff hadds _).2 (.inr ((makes_newObject _ _ _).2 rfl))
  have hobject {h₃ : Heap} (hl : (h₁.newObject ⟨.plain, fs, false⟩).2.Leaves
      (h.Makes (h₁.newObject ⟨.plain, fs, false⟩).2) h₃) :
      h₃.object (h₁.newObject ⟨.plain, fs, false⟩).1 = ⟨.plain, fs, false⟩ := by
    rw [(hl.object hself hself.2).2, object_newObject]
  refine hfs.container hadds (makes_newObject _ _)
    (by rw [Json.nesting, Json.nestingFields_eq])
    (fun hl ↦ by rw [Heap.leftOut, hobject hl]; rfl)
    (fun hl room ↦ by rw [cellsWithin, hobject hl])
    fun {h₃} hl room opened hclosed hdocuments hleft ↦ ?_
  have hkept : fs.filter (fun f ↦ !h₃.leftOut f.2) = fs :=
    List.filter_eq_self.2 fun f hf ↦ by
      rw [hleft f.2 (List.mem_map_of_mem hf)]
      rfl
  have hwritten : (fs.map fun f ↦ (f.1, h₃.documentWithin room
      (.object (h₁.newObject ⟨.plain, fs, false⟩).1 :: opened) f.2)) =
      fields.map fun f ↦ (f.1, f.2.canonical) :=
    Fields.map_congr hkeys hdocuments
  rw [documentWithin, hclosed, hobject hl, Json.canonical, Json.canonicalFields_eq_map]
  change Json.object (Json.sortFields ((fs.filter fun f ↦ !h₃.leftOut f.2).map _)) = _
  rw [hkept]
  exact congrArg (fun fs ↦ Json.object (Json.sortFields fs)) hwritten

/-- The names of the copy are the names of the document, in its order. -/
theorem keys_ofFields (h : Heap) (fields : List (String × Json)) :
    (h.ofFields fields).1.map Prod.fst = fields.map Prod.fst := by
  induction fields generalizing h with
  | nil => rw [ofFields]; rfl
  | cons f rest ih =>
    obtain ⟨k, j⟩ := f
    rw [ofFields]
    exact congrArg (k :: ·) (ih _)

mutual

/-- A document whose numbers are whole is copied. -/
theorem copies_ofDocument (h : Heap) : ∀ j : Json, j.IsWhole →
    h.Copies (h.ofDocument j).2 j (h.ofDocument j).1
  | .null, _ => by
    rw [ofDocument]
    exact .of_plain (fun _ ↦ rfl) (fun _ _ _ ↦ by rw [documentWithin]; rfl)
      (fun _ _ ↦ by rw [cellsWithin] <;> exact nofun) h
  | .bool b, _ => by
    rw [ofDocument]
    exact .of_plain (fun _ ↦ rfl) (fun _ _ _ ↦ by rw [documentWithin]; rfl)
      (fun _ _ ↦ by rw [cellsWithin] <;> exact nofun) h
  | .number (.whole n), hn => by
    rw [ofDocument]
    rw [Json.IsWhole] at hn
    exact .of_plain (fun _ ↦ rfl)
      (fun _ _ _ ↦ by rw [documentWithin]; exact numberDocument_ofInt hn)
      (fun _ _ ↦ by rw [cellsWithin] <;> exact nofun) h
  | .number (.real _), hx => by
    rw [Json.IsWhole] at hx
    exact hx.elim
  | .string s, _ => by
    rw [ofDocument]
    exact .of_plain (fun _ ↦ rfl) (fun _ _ _ ↦ by rw [documentWithin]; rfl)
      (fun _ _ ↦ by rw [cellsWithin] <;> exact nofun) h
  | .array items, hitems => by
    rw [ofDocument]
    rw [Json.IsWhole] at hitems
    exact (copiesAll_ofItems h items hitems).array
  | .object fields, hfields => by
    rw [ofDocument]
    rw [Json.IsWhole] at hfields
    exact (copiesAll_ofFields h fields hfields).object (keys_ofFields h fields)

/-- Every item is copied into cells of its own. -/
theorem copiesAll_ofItems (h : Heap) : ∀ items : List Json, Json.ItemsAreWhole items →
    h.CopiesAll (h.ofItems items).2 items (h.ofItems items).1
  | [], _ => by
    rw [ofItems]
    exact .nil h
  | j :: rest, hitems => by
    rw [ofItems]
    rw [Json.ItemsAreWhole] at hitems
    exact .cons (copies_ofDocument h j hitems.1) (copiesAll_ofItems _ rest hitems.2)

/-- So is every field. -/
theorem copiesAll_ofFields (h : Heap) : ∀ fields : List (String × Json),
    Json.FieldsAreWhole fields → h.CopiesAll (h.ofFields fields).2 (fields.map Prod.snd)
      ((h.ofFields fields).1.map Prod.snd)
  | [], _ => by
    rw [ofFields]
    exact .nil h
  | (_, j) :: rest, hfields => by
    rw [ofFields]
    rw [Json.FieldsAreWhole] at hfields
    exact .cons (copies_ofDocument h j hfields.1) (copiesAll_ofFields _ rest hfields.2)

end

end Heap

/-! ### Writes to other cells -/

/-- The cell is an array or a plain object, as the containers of documents are. -/
def Heap.IsPlain (h : Heap) : OpenCell → Prop
  | .array _ => True
  | .object o => (h.object o).kind = .plain

namespace Heap.Leaves

variable {h : Heap} {cells : OpenCell → Prop}

theorem refl (h : Heap) : h.Leaves cells h :=
  ⟨fun _ hsize ↦ ⟨hsize, rfl⟩, fun _ hsize ↦ ⟨hsize, rfl⟩⟩

/-- An array may be changed that is not among the cells. -/
theorem modifyArray {a : ArrayId} (ha : ¬cells (.array a)) (f : Array Value → Array Value) :
    h.Leaves cells (h.modifyArray a f) where
  array {b} hb hsize := by
    refine ⟨by simpa [Heap.modifyArray] using hsize, ?_⟩
    refine (Cells.getD_modify _ _ _ _ _).trans (if_neg fun hab ↦ ha ?_)
    rwa [show a = b from congrArg ArrayId.mk hab.1]
  object _ hsize := ⟨hsize, rfl⟩

/-- So may an object. -/
theorem modifyObject {o : ObjectId} (ho : ¬cells (.object o)) (f : Object → Object) :
    h.Leaves cells (h.modifyObject o f) where
  array _ hsize := ⟨hsize, rfl⟩
  object {u} hu hsize := by
    refine ⟨by simpa [Heap.modifyObject] using hsize, ?_⟩
    refine (Cells.getD_modify _ _ _ _ _).trans (if_neg fun hou ↦ ho ?_)
    rwa [show o = u from congrArg ObjectId.mk hou.1]

end Heap.Leaves

/-- Whatever the world, the action leaves the cells as they are. -/
def Action.Spares {α : Type} (cells : OpenCell → Prop) (x : Action α) : Prop :=
  ∀ w : World, w.heap.Leaves cells (finalWorld (x w)).heap

namespace Action.Spares

variable {α β : Type} {cells : OpenCell → Prop}

theorem typeError (message : String) : (Action.typeError message : Action α).Spares cells :=
  fun w ↦ .refl w.heap

/-- One after the other, both spare the cells. -/
theorem bind {x : Action α} {f : α → Action β} (hx : x.Spares cells)
    (hf : ∀ a, (f a).Spares cells) : (x >>= f).Spares cells := by
  intro w
  have hw := hx w
  rw [Action.bind_apply]
  cases h : x w with
  | ok a w₁ =>
    rw [h] at hw
    exact hw.trans (hf a w₁)
  | error e w₁ =>
    rw [h] at hw
    exact hw

theorem modifyArray {a : ArrayId} (ha : ¬cells (.array a)) (f : Array Value → Array Value) :
    (Action.modifyHeap fun h ↦ h.modifyArray a f).Spares cells :=
  fun _ ↦ .modifyArray ha f

/-- An assignment to the length of another array. -/
theorem setArrayLength {a : ArrayId} (ha : ¬cells (.array a)) (v : Value) :
    (Action.setArrayLength a v).Spares cells := by
  refine bind (fun w ↦ .refl w.heap) fun x ↦ ?_
  split
  · exact typeError _
  · exact modifyArray ha _

theorem setArrayItem {a : ArrayId} (ha : ¬cells (.array a)) (key : String) (v : Value) :
    (Action.setArrayItem a key v).Spares cells := by
  unfold Action.setArrayItem
  cases arrayIndex? key with
  | none => exact typeError _
  | some i =>
    dsimp only
    split
    · exact modifyArray ha _
    · exact typeError _

end Action.Spares

/-- Assigning to a property of a container writes no other cell. -/
theorem Action.leaves_setProperty {cells : OpenCell → Prop} {cell : OpenCell} (hcell : ¬cells cell)
    {w : World} (hplain : w.heap.IsPlain cell) (call : Caller) (key : String) (v : Value) :
    w.heap.Leaves cells (finalWorld (Action.setProperty call cell.value key v w)).heap := by
  cases cell with
  | array a =>
    change w.heap.Leaves cells (finalWorld ((if key == "length" then Action.setArrayLength a v
      else Action.setArrayItem a key v) w)).heap
    split
    · exact Spares.setArrayLength hcell v w
    · exact Spares.setArrayItem hcell key v w
  | object o =>
    have hkind : (w.heap.object o).kind = .plain := hplain
    change w.heap.Leaves cells (finalWorld (Action.writeObject call o key v w)).heap
    rw [Action.writeObject_of_ne_state (by rw [hkind]; exact nofun)]
    cases hfrozen : (w.heap.object o).frozen with
    | true =>
      rw [Action.writePlain_of_frozen hfrozen]
      exact .refl w.heap
    | false =>
      rw [Action.writePlain_field hfrozen (by rw [hkind]; exact nofun)]
      exact .modifyObject hcell _

/-- Deleting a property changes the cell it is deleted from. -/
theorem Action.leaves_deleteProperty {cells : OpenCell → Prop} {cell : OpenCell}
    (hcell : ¬cells cell) (w : World) (key : String) :
    w.heap.Leaves cells (finalWorld (Action.deleteProperty cell.value key w)).heap := by
  cases cell with
  | array a =>
    change w.heap.Leaves cells (finalWorld (Action.deleteProperty (.array a) key w)).heap
    unfold Action.deleteProperty
    cases arrayIndex? key with
    | none => exact .refl w.heap
    | some i => exact .modifyArray hcell _
  | object o =>
    change w.heap.Leaves cells (finalWorld ((if (w.heap.object o).frozen then _ else _ :
      Action Unit) w)).heap
    split
    · exact .refl w.heap
    · exact .modifyObject hcell _

/-! ### Scripts that do not come by a cell -/

/-- The cells that some code comes by, by their indices. -/
structure Holding where
  array : Nat → Prop
  object : Nat → Prop
  function : Nat → Prop
  scope : Nat → Prop
  switch : Nat → Prop

namespace Holding

/-- Every cell that is held is its own counterpart, and everything may be mentioned. -/
def pairing (held : Holding) : Pairing where
  aligned := true
  array a a' := a = a' ∧ held.array a
  object o o' := o = o' ∧ held.object o
  function f f' := f = f' ∧ held.function f
  scope s s' := s = s' ∧ held.scope s
  switch s s' := s = s' ∧ held.switch s
  allows _ _ := True

def Has (held : Holding) : OpenCell → Prop
  | .array a => held.array a.index
  | .object o => held.object o.index

/-- The task, the interpreter and the held cells name no cells but those that are held. -/
structure Confines (held : Holding) (task : Task) (w : World) : Prop where
  world : World.Alike held.pairing w w
  task : Task.Alike held.pairing task task

/-- Whatever a script does, it writes no cell that it does not come by. -/
theorem Confines.leaves {held : Holding} {task : Task} {w : World} (hc : held.Confines task w)
    {cells : OpenCell → Prop} (hcells : ∀ c, cells c → ¬held.Has c) (n : Nat) :
    w.heap.Leaves cells (finalWorld (task.run (machineWithin n) w)).heap := by
  obtain ⟨q, hg, -⟩ := (machine_alike held.pairing n).run hc.task _ (Pairing.le_refl _) w w hc.world
  exact {
    array := fun {a} ha hsize ↦ ⟨Nat.lt_of_lt_of_le hsize hg.arrays.size_le,
      hg.arrays.unpaired hsize fun _ hpair ↦ hcells _ ha hpair.2⟩
    object := fun {o} ho hsize ↦ ⟨Nat.lt_of_lt_of_le hsize hg.objects.size_le,
      hg.objects.unpaired hsize fun _ hpair ↦ hcells _ ho hpair.2⟩ }

end Holding

/-! ### Private copies -/

/-- What is written through other cells does not show in a copy, nor what is written through it in
others. -/
structure Heap.IsPrivate (h h₁ : Heap) (j : Json) (v : Value) : Prop where
  /-- Nothing that was there is changed. -/
  adds : h.Adds h₁
  /-- No container is shared, -/
  nodup : (h₁.cells v).Nodup
  /-- and each of them is new. -/
  mem_cells {c : OpenCell} : c ∈ h₁.cells v ↔ h.Makes h₁ c
  document {h₂ : Heap} : h₁.Leaves (· ∈ h₁.cells v) h₂ → h₂.document v = j.canonical
  /-- Copies that are made later have no cell in common with it. -/
  disjoint {h₂ : Heap} {j' : Json} : h₁.Leaves (· ∈ h₁.cells v) h₂ → j'.IsWhole →
    j'.nesting ≤ maxValueDepth →
    List.Disjoint (h₁.cells v) ((h₂.ofDocument j').2.cells (h₂.ofDocument j').1)
  /-- Assigning to a property of another container leaves the copy as it is, -/
  assigned {cell : OpenCell} {w : World} : cell ∉ h₁.cells v → w.heap.IsPlain cell →
    ∀ (call : Caller) (key : String) (u : Value), w.heap.Leaves (· ∈ h₁.cells v)
      (finalWorld (Action.setProperty call cell.value key u w)).heap
  /-- removing one does, -/
  deleted {cell : OpenCell} : cell ∉ h₁.cells v → ∀ (w : World) (key : String),
    w.heap.Leaves (· ∈ h₁.cells v) (finalWorld (Action.deleteProperty cell.value key w)).heap
  /-- and so does any script that does not come by the containers of the copy. -/
  scripted {held : Holding} {task : Task} {w : World} : held.Confines task w →
    (∀ c ∈ h₁.cells v, ¬held.Has c) → ∀ n,
    w.heap.Leaves (· ∈ h₁.cells v) (finalWorld (task.run (machineWithin n) w)).heap

/-- Every copy that is not cut off at the depth bound is private. -/
theorem Heap.isPrivate_ofDocument (h : Heap) {j : Json} (hwhole : j.IsWhole)
    (hnesting : j.nesting ≤ maxValueDepth) :
    h.IsPrivate (h.ofDocument j).2 j (h.ofDocument j).1 := by
  have hcopy := h.copies_ofDocument j hwhole
  have hmem {c : OpenCell} : c ∈ (h.ofDocument j).2.cells (h.ofDocument j).1 ↔
      h.Makes (h.ofDocument j).2 c := hcopy.mem_cells (.refl _) hnesting
  exact {
    adds := hcopy.adds
    nodup := hcopy.nodup (.refl _) hnesting
    mem_cells := hmem
    document := fun hl ↦ hcopy.document (hl.anti fun _ ↦ hmem.2) hnesting fun _ hc ↦
      absurd hc List.not_mem_nil
    disjoint := fun {h₂ j'} hl hwhole' hnesting' c hc hc' ↦ by
      have hmade := hmem.1 hc
      have hagain := ((h₂.copies_ofDocument j' hwhole').mem_cells (.refl _) hnesting').1 hc'
      cases c with
      | array a => exact Nat.not_lt_of_le hagain.1 (hl.array hc hmade.2).1
      | object o => exact Nat.not_lt_of_le hagain.1 (hl.object hc hmade.2).1
    assigned := fun hcell hplain call key u ↦ Action.leaves_setProperty hcell hplain call key u
    deleted := fun hcell w key ↦ Action.leaves_deleteProperty hcell w key
    scripted := fun hconfines hcells n ↦ hconfines.leaves hcells n }

end Nodecraft.Sandbox
