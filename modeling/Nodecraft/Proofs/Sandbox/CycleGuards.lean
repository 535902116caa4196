import Mathlib.Data.List.Chain
import Nodecraft.Proofs.Sandbox.ArrayMethods

/-!
# Cycle guards

Values are written out by recursions that keep a list of the cells they have opened: a cell that is
open already, or beyond the greatest depth, is not opened again (`Heap.writeText`,
`Heap.writeDocument`). Nothing in their form bounds how deep their calls nest, or says that they
close what they open. So each comes with a number, and has no result if its calls would nest deeper.
They come to an end, on every heap and with any cells open, and close what they open
(`Heap.writeText_apply`, `Heap.writeDocument_apply`), and give what `Heap.text` and `Heap.document`
say.

Without guards (`Heap.plainText`, `Heap.plainDocument`) the calls nest without end on cyclic values.
On a value from which no way repeats a cell or is too deep, they end, and the guards have no effect
(`guards_are_exact`): the guard is a guard of the way that leads to a cell, so cells that are shared
are written out wherever they occur.
-/

set_option autoImplicit false

namespace Nodecraft.Sandbox

/-! ### Writing with guards -/

/-- Writing a value, with the cells that are open on the way to it. -/
abbrev Writing := StateT (List OpenCell) Option

namespace Writing

/-- Opens a cell, unless it is open already or too many are. -/
def enter (c : OpenCell) : Writing Bool := do
  let opened ← get
  if opened.contains c || maxValueDepth ≤ opened.length then return false
  else
    set (c :: opened)
    return true

/-- Closes the cell that was opened last. -/
def leave : Writing Unit := modify List.tail

end Writing

open Writing

/-- Writes out text with calls nested as deep as the number says; none if they would go deeper. -/
def Heap.writeText (h : Heap) : Nat → Value → Writing String
  | 0, _ => fun _ ↦ none
  | calls + 1, v =>
    match v with
    | .undefined => return "undefined"
    | .null => return "null"
    | .bool b => return if b then "true" else "false"
    | .number x => return Number.scriptText x
    | .string s => return s
    | .function f => return "function " ++ h.functionName f ++ "() \x7b [native code] \x7d"
    | .array a => do
      if ← enter (.array a) then
        let texts ← (h.array a).toList.mapM fun v =>
          if v.isNullish then return "" else h.writeText calls v
        leave
        return ",".intercalate texts
      else return ""
    | .object o =>
      match (h.object o).kind with
      | .ref => do
        if ← enter (.object o) then
          let text ← h.writeText calls ((h.own? o "value").getD .undefined)
          leave
          return text
        else return ""
      | _ => return "[object Object]"

/-- Writes out a document, with calls nested as deep as the number says. -/
def Heap.writeDocument (h : Heap) : Nat → Value → Writing Json
  | 0, _ => fun _ ↦ none
  | calls + 1, v =>
    match v with
    | .undefined => return .null
    | .null => return .null
    | .function _ => return .null
    | .bool b => return .bool b
    | .number x => return numberDocument x
    | .string s => return .string s
    | .array a => do
      if ← enter (.array a) then
        let items ← (h.array a).toList.mapM fun v => h.writeDocument calls v
        leave
        return .array items
      else return .null
    | .object o => do
      if ← enter (.object o) then
        match (h.object o).kind with
        | .ref =>
          let inner ← h.writeDocument calls ((h.own? o "value").getD .undefined)
          leave
          return inner
        | _ =>
          let fields ← ((h.object o).fields.filter fun f => !h.leftOut f.2).mapM fun f => do
            return (f.1, ← h.writeDocument calls f.2)
          leave
          return .object (Json.sortFields fields)
      else return .null

namespace Writing

variable {α β : Type} {opened : List OpenCell} {c : OpenCell}

theorem bind_apply {x : Writing α} {a : α} {opened₁ : List OpenCell}
    (hx : x opened = some (a, opened₁)) (f : α → Writing β) :
    (x >>= f) opened = f a opened₁ := by
  change (x opened >>= fun p ↦ f p.1 p.2) = _
  rw [hx]
  rfl

/-- Writing several values one after the other leaves the list of what is open as it was. -/
theorem mapM_apply {f : α → Writing β} {g : α → β} : ∀ {xs : List α},
    (∀ a ∈ xs, f a opened = some (g a, opened)) →
    xs.mapM f opened = some (xs.map g, opened)
  | [], _ => rfl
  | a :: rest, hf => by
    have hrest := mapM_apply fun b hb ↦ hf b (List.mem_cons_of_mem _ hb)
    rw [List.mapM_cons, bind_apply (hf a List.mem_cons_self), bind_apply hrest]
    rfl

/-- A cell is not entered twice, and not beyond the depth. -/
theorem enter_apply (c : OpenCell) : enter c opened =
    if opened.contains c || maxValueDepth ≤ opened.length then some (false, opened)
    else some (true, c :: opened) := by
  change (if _ then _ else _ : Writing Bool) opened = _
  split
  · rfl
  · rfl

/-- What is done with a cell that is opened, and what is given for one that is not. -/
def guarding (c : OpenCell) (blocked : α) (x : Writing β) (f : β → α) : Writing α := do
  if ← enter c then
    let b ← x
    leave
    return f b
  else return blocked

/-- Beyond the depth, nothing is written. -/
theorem guarding_of_deep (h : maxValueDepth ≤ opened.length) (blocked : α) (x : Writing β)
    (f : β → α) : guarding c blocked x f opened = some (blocked, opened) := by
  have henter : enter c opened = some (false, opened) := by
    rw [enter_apply, decide_eq_true h, Bool.or_true]
    rfl
  rw [guarding, bind_apply henter]
  rfl

/-- What is guarded leaves the list of what is open as it was. -/
theorem guarding_apply (hroom : opened.length < maxValueDepth) {x : Writing β} {b : β}
    (hx : x (c :: opened) = some (b, c :: opened)) (blocked : α) (f : β → α) :
    guarding c blocked x f opened =
      some (if opened.contains c then blocked else f b, opened) := by
  have henter : enter c opened =
      if opened.contains c then some (false, opened) else some (true, c :: opened) := by
    rw [enter_apply, decide_eq_false (Nat.not_le_of_lt hroom), Bool.or_false]
  cases hopen : opened.contains c with
  | true =>
    rw [hopen] at henter
    rw [guarding, bind_apply henter]
    rfl
  | false =>
    rw [hopen] at henter
    rw [guarding, bind_apply henter]
    exact bind_apply hx _

end Writing

namespace Heap

variable {h : Heap}

/-- Text is written out to the end, and all cells that are opened for it are closed. -/
theorem writeText_apply {room : Nat} : ∀ {calls : Nat} {opened : List OpenCell} (v : Value),
    room ≤ calls → maxValueDepth - opened.length = room →
    h.writeText (calls + 1) v opened = some (h.textWithin room opened v, opened) := by
  induction room with
  | zero =>
    intro calls opened v _ hroom
    have hdeep : maxValueDepth ≤ opened.length := Nat.le_of_sub_eq_zero hroom
    cases v with
    | array a =>
      rw [writeText, textWithin]
      exact guarding_of_deep hdeep _ _ _
    | object o =>
      rw [writeText, textWithin]
      cases (h.object o).kind with
      | ref => exact guarding_of_deep hdeep _ _ _
      | _ => rfl
    | _ =>
      rw [writeText, textWithin]
      rfl
  | succ room ih =>
    intro calls opened v hcalls hroom
    obtain ⟨calls, rfl⟩ := Nat.exists_eq_succ_of_ne_zero (Nat.ne_zero_of_lt hcalls)
    have hcalls : room ≤ calls := Nat.le_of_succ_le_succ hcalls
    have hlt : opened.length < maxValueDepth := Nat.lt_of_sub_eq_succ hroom
    have hbelow (c : OpenCell) : maxValueDepth - (c :: opened).length = room := by
      rw [List.length_cons]
      omega
    cases v with
    | array a =>
      rw [writeText, textWithin]
      refine guarding_apply hlt (mapM_apply fun v _ ↦ ?_) _ _
      cases v.isNullish with
      | true => rfl
      | false => exact ih v hcalls (hbelow _)
    | object o =>
      rw [writeText, textWithin]
      cases (h.object o).kind with
      | ref => exact guarding_apply hlt (ih _ hcalls (hbelow _)) _ id
      | _ => rfl
    | _ =>
      rw [writeText, textWithin]
      rfl

/-- A document is written out to the end, and all cells that are opened for it are closed. -/
theorem writeDocument_apply {room : Nat} : ∀ {calls : Nat} {opened : List OpenCell} (v : Value),
    room ≤ calls → maxValueDepth - opened.length = room →
    h.writeDocument (calls + 1) v opened = some (h.documentWithin room opened v, opened) := by
  induction room with
  | zero =>
    intro calls opened v _ hroom
    have hdeep : maxValueDepth ≤ opened.length := Nat.le_of_sub_eq_zero hroom
    cases v with
    | array a =>
      rw [writeDocument, documentWithin]
      exact guarding_of_deep hdeep _ _ _
    | object o =>
      rw [writeDocument, documentWithin]
      cases (h.object o).kind with
      | ref => exact guarding_of_deep hdeep _ _ id
      | _ => exact guarding_of_deep hdeep _ _ _
    | _ =>
      rw [writeDocument, documentWithin]
      rfl
  | succ room ih =>
    intro calls opened v hcalls hroom
    obtain ⟨calls, rfl⟩ := Nat.exists_eq_succ_of_ne_zero (Nat.ne_zero_of_lt hcalls)
    have hcalls : room ≤ calls := Nat.le_of_succ_le_succ hcalls
    have hlt : opened.length < maxValueDepth := Nat.lt_of_sub_eq_succ hroom
    have hbelow (c : OpenCell) : maxValueDepth - (c :: opened).length = room := by
      rw [List.length_cons]
      omega
    cases v with
    | array a =>
      rw [writeDocument, documentWithin]
      exact guarding_apply hlt (mapM_apply fun v _ ↦ ih v hcalls (hbelow _)) _ _
    | object o =>
      rw [writeDocument, documentWithin]
      dsimp only
      cases (h.object o).kind with
      | ref => exact guarding_apply hlt (ih _ hcalls (hbelow _)) _ id
      | _ =>
        refine guarding_apply hlt (mapM_apply fun (f : String × Value) _ ↦ ?_) _ _
        exact bind_apply (ih f.2 hcalls (hbelow _)) _
    | _ =>
      rw [writeDocument, documentWithin]
      rfl

end Heap

/-! ### Writing without guards -/

/-- Text as it is written without guards, with calls nested as deep as the number says. -/
def Heap.plainText (h : Heap) : Nat → Value → Option String
  | 0, _ => none
  | calls + 1, v =>
    match v with
    | .undefined => return "undefined"
    | .null => return "null"
    | .bool b => return if b then "true" else "false"
    | .number x => return Number.scriptText x
    | .string s => return s
    | .function f => return "function " ++ h.functionName f ++ "() \x7b [native code] \x7d"
    | .array a => do
      let texts ← (h.array a).toList.mapM fun v =>
        if v.isNullish then return "" else h.plainText calls v
      return ",".intercalate texts
    | .object o =>
      match (h.object o).kind with
      | .ref => h.plainText calls ((h.own? o "value").getD .undefined)
      | _ => return "[object Object]"

/-- A document as it is written without guards. -/
def Heap.plainDocument (h : Heap) : Nat → Value → Option Json
  | 0, _ => none
  | calls + 1, v =>
    match v with
    | .undefined => return .null
    | .null => return .null
    | .function _ => return .null
    | .bool b => return .bool b
    | .number x => return numberDocument x
    | .string s => return .string s
    | .array a => do
      let items ← (h.array a).toList.mapM fun v => h.plainDocument calls v
      return .array items
    | .object o =>
      match (h.object o).kind with
      | .ref => h.plainDocument calls ((h.own? o "value").getD .undefined)
      | _ => do
        let fields ← ((h.object o).fields.filter fun f => !h.leftOut f.2).mapM fun f => do
          return (f.1, ← h.plainDocument calls f.2)
        return .object (Json.sortFields fields)

/-- The values in a cell: the items of an array, or what is under the keys of an object. -/
def Heap.contents (h : Heap) : OpenCell → List Value
  | .array a => (h.array a).toList
  | .object o => (h.object o).fields.map Prod.snd

/-- A way from a value into cells, each in the one before. -/
def Heap.IsPath (h : Heap) (v : Value) (cells : List OpenCell) : Prop :=
  (∀ c ∈ cells.head?, c.value = v) ∧ cells.IsChain fun c d ↦ d.value ∈ h.contents c

/-- No way from a value repeats a cell, leads to an open one or goes through more cells than there
is room for. -/
def Heap.Clear (h : Heap) (room : Nat) (opened : List OpenCell) (v : Value) : Prop :=
  ∀ cells, h.IsPath v cells → cells.Nodup ∧ cells.length ≤ room ∧ ∀ c ∈ cells, c ∉ opened

namespace Heap

variable {h : Heap} {room : Nat} {opened : List OpenCell} {c : OpenCell}

theorem isPath_singleton (h : Heap) (c : OpenCell) : h.IsPath c.value [c] :=
  ⟨fun _ hd ↦ congrArg OpenCell.value (Option.some.inj hd).symm, .singleton c⟩

/-- A path goes on from one of the contents. -/
theorem IsPath.cons {u : Value} {cells : List OpenCell} (hu : u ∈ h.contents c)
    (hcells : h.IsPath u cells) : h.IsPath c.value (c :: cells) := by
  refine ⟨fun _ hd ↦ congrArg OpenCell.value (Option.some.inj hd).symm,
    List.isChain_cons.2 ⟨fun d hd ↦ ?_, hcells.2⟩⟩
  exact hcells.1 d hd ▸ hu

namespace Clear

/-- A value that is clear is not open already. -/
theorem closed (c : OpenCell) (hv : h.Clear room opened c.value) : ¬opened.contains c = true :=
  fun hmem ↦ (hv [c] (isPath_singleton h c)).2.2 c List.mem_cons_self (List.contains_iff_mem.1 hmem)

/-- With no room left, no container is clear. -/
theorem not_zero (c : OpenCell) (hv : h.Clear 0 opened c.value) : False :=
  Nat.not_succ_le_zero 0 (hv [c] (isPath_singleton h c)).2.1

/-- The contents of a clear container are clear with it open. -/
theorem step (c : OpenCell) (hv : h.Clear (room + 1) opened c.value) {u : Value}
    (hu : u ∈ h.contents c) : h.Clear room (c :: opened) u := by
  intro cells hcells
  obtain ⟨hnodup, hlength, hclosed⟩ := hv _ (hcells.cons hu)
  obtain ⟨hc, hnodup⟩ := List.nodup_cons.1 hnodup
  refine ⟨hnodup, Nat.le_of_succ_le_succ hlength, fun d hd hopen ↦ ?_⟩
  rcases List.mem_cons.1 hopen with rfl | hopen
  · exact hc hd
  · exact hclosed d (List.mem_cons_of_mem _ hd) hopen

/-- What a ref holds, if it holds anything. -/
theorem payload {o : ObjectId} (hv : h.Clear (room + 1) opened (.object o)) :
    h.Clear room (.object o :: opened) ((h.own? o "value").getD .undefined) := by
  cases hown : h.own? o "value" with
  | none =>
    rintro cells ⟨hhead, -⟩
    cases cells with
    | nil => exact ⟨.nil, Nat.zero_le _, fun c hc ↦ nomatch hc⟩
    | cons c cells => cases c <;> exact nomatch hhead _ rfl
  | some u =>
    obtain ⟨before, after, hfields, -⟩ := List.lookup_eq_some_iff.1 hown
    have hmem : ("value", u) ∈ (h.object o).fields := by rw [hfields]; simp
    exact step (.object o) hv (List.mem_map_of_mem hmem)

end Clear

theorem mapM_eq_some {α β : Type} {f : α → Option β} {g : α → β} : ∀ {xs : List α},
    (∀ a ∈ xs, f a = some (g a)) → xs.mapM f = some (xs.map g)
  | [], _ => rfl
  | a :: rest, hf => by
    rw [List.mapM_cons, hf a List.mem_cons_self,
      mapM_eq_some fun b hb ↦ hf b (List.mem_cons_of_mem _ hb)]
    rfl

/-- On clear values the recursion without guards writes the same text. -/
theorem plainText_eq : ∀ {calls : Nat} {opened : List OpenCell} {v : Value}, room ≤ calls →
    h.Clear room opened v → h.plainText (calls + 1) v = some (h.textWithin room opened v) := by
  induction room with
  | zero =>
    intro calls opened v _ hv
    cases v with
    | array a => exact (Clear.not_zero (.array a) hv).elim
    | object o => exact (Clear.not_zero (.object o) hv).elim
    | _ =>
      rw [plainText, textWithin]
      rfl
  | succ room ih =>
    intro calls opened v hcalls hv
    obtain ⟨calls, rfl⟩ := Nat.exists_eq_succ_of_ne_zero (Nat.ne_zero_of_lt hcalls)
    have hcalls : room ≤ calls := Nat.le_of_succ_le_succ hcalls
    cases v with
    | array a =>
      rw [plainText, textWithin, if_neg (Clear.closed (.array a) hv)]
      refine Option.bind_eq_some_iff.2 ⟨_, mapM_eq_some fun u hu ↦ ?_, rfl⟩
      cases u.isNullish with
      | true => rfl
      | false => exact ih hcalls (Clear.step (.array a) hv hu)
    | object o =>
      rw [plainText, textWithin]
      cases (h.object o).kind with
      | ref =>
        dsimp only
        rw [if_neg (Clear.closed (.object o) hv)]
        exact ih hcalls hv.payload
      | _ => rfl
    | _ =>
      rw [plainText, textWithin]
      rfl

/-- On clear values the recursion without guards makes the same document. -/
theorem plainDocument_eq : ∀ {calls : Nat} {opened : List OpenCell} {v : Value}, room ≤ calls →
    h.Clear room opened v → h.plainDocument (calls + 1) v = some (h.documentWithin room opened v) := by
  induction room with
  | zero =>
    intro calls opened v _ hv
    cases v with
    | array a => exact (Clear.not_zero (.array a) hv).elim
    | object o => exact (Clear.not_zero (.object o) hv).elim
    | _ =>
      rw [plainDocument, documentWithin]
      rfl
  | succ room ih =>
    intro calls opened v hcalls hv
    obtain ⟨calls, rfl⟩ := Nat.exists_eq_succ_of_ne_zero (Nat.ne_zero_of_lt hcalls)
    have hcalls : room ≤ calls := Nat.le_of_succ_le_succ hcalls
    cases v with
    | array a =>
      rw [plainDocument, documentWithin, if_neg (Clear.closed (.array a) hv)]
      exact Option.bind_eq_some_iff.2
        ⟨_, mapM_eq_some fun u hu ↦ ih hcalls (Clear.step (.array a) hv hu), rfl⟩
    | object o =>
      rw [plainDocument, documentWithin, if_neg (Clear.closed (.object o) hv)]
      dsimp only
      cases (h.object o).kind with
      | ref => exact ih hcalls hv.payload
      | _ =>
        refine Option.bind_eq_some_iff.2
          ⟨_, mapM_eq_some fun (f : String × Value) hf ↦ ?_, rfl⟩
        have hfield : f.2 ∈ h.contents (.object o) :=
          List.mem_map_of_mem (List.mem_of_mem_filter hf)
        exact Option.bind_eq_some_iff.2 ⟨_, ih hcalls (Clear.step (.object o) hv hfield), rfl⟩
    | _ =>
      rw [plainDocument, documentWithin]
      rfl

end Heap

/-- On every heap, whatever is open, writing a value as text or as a document comes to an end, with
calls nested no deeper than cells may be, and closes the cells it has opened. If no way from the
value repeats a cell or goes through more cells than may be open, the recursions without guards end
as well, and with the same text and document. -/
theorem guards_are_exact (h : Heap) (v : Value) :
    (∀ opened, (∃ text, ∀ calls, maxValueDepth < calls →
        h.writeText calls v opened = some (text, opened)) ∧
      ∃ j, ∀ calls, maxValueDepth < calls →
        h.writeDocument calls v opened = some (j, opened)) ∧
    (∀ calls, maxValueDepth < calls → h.writeText calls v [] = some (h.text v, []) ∧
      h.writeDocument calls v [] = some (h.document v, [])) ∧
    ((∀ cells, h.IsPath v cells → cells.Nodup ∧ cells.length ≤ maxValueDepth) →
      ∀ calls, maxValueDepth < calls →
        h.plainText calls v = some (h.text v) ∧ h.plainDocument calls v = some (h.document v)) := by
  have htext {calls : Nat} {opened : List OpenCell} (hcalls : maxValueDepth < calls) :
      h.writeText calls v opened =
        some (h.textWithin (maxValueDepth - opened.length) opened v, opened) := by
    obtain ⟨calls, rfl⟩ := Nat.exists_eq_succ_of_ne_zero (Nat.ne_zero_of_lt hcalls)
    exact Heap.writeText_apply v ((Nat.sub_le _ _).trans (Nat.le_of_lt_succ hcalls)) rfl
  have hdocument {calls : Nat} {opened : List OpenCell} (hcalls : maxValueDepth < calls) :
      h.writeDocument calls v opened =
        some (h.documentWithin (maxValueDepth - opened.length) opened v, opened) := by
    obtain ⟨calls, rfl⟩ := Nat.exists_eq_succ_of_ne_zero (Nat.ne_zero_of_lt hcalls)
    exact Heap.writeDocument_apply v ((Nat.sub_le _ _).trans (Nat.le_of_lt_succ hcalls)) rfl
  refine ⟨fun opened ↦ ⟨⟨_, fun _ ↦ htext⟩, ⟨_, fun _ ↦ hdocument⟩⟩,
    fun _ hcalls ↦ ⟨htext hcalls, hdocument hcalls⟩, fun hpaths calls hcalls ↦ ?_⟩
  have hclear : h.Clear maxValueDepth [] v := fun cells hcells ↦
    ⟨(hpaths cells hcells).1, (hpaths cells hcells).2, fun _ _ ↦ List.not_mem_nil⟩
  obtain ⟨calls, rfl⟩ := Nat.exists_eq_succ_of_ne_zero (Nat.ne_zero_of_lt hcalls)
  have hcalls : maxValueDepth ≤ calls := Nat.le_of_lt_succ hcalls
  exact ⟨Heap.plainText_eq hcalls hclear, Heap.plainDocument_eq hcalls hclear⟩

/-- A heap with an array that holds another one twice. -/
def sharingHeap : Heap :=
  { Heap.empty with arrays := #[#[.string "a"], #[.array ⟨0⟩, .array ⟨0⟩]] }

/-- What is shared is written out each time. -/
theorem guards_are_exact_shared :
    (∀ cells, sharingHeap.IsPath (.array ⟨1⟩) cells →
      cells.Nodup ∧ cells.length ≤ maxValueDepth) ∧
    sharingHeap.plainText 513 (.array ⟨1⟩) = some "a,a" ∧
    sharingHeap.plainDocument 513 (.array ⟨1⟩) =
      some (.array [.array [.string "a"], .array [.string "a"]]) := by
  have houter {c : OpenCell} (hc : c.value = .array ⟨1⟩) :
      sharingHeap.contents c = [.array ⟨0⟩, .array ⟨0⟩] := by
    cases c with
    | array a => cases hc; rfl
    | object o => cases hc
  have hinner {c : OpenCell} (hc : c.value = .array ⟨0⟩) :
      sharingHeap.contents c = [.string "a"] := by
    cases c with
    | array a => cases hc; rfl
    | object o => cases hc
  have hpaths : ∀ cells, sharingHeap.IsPath (.array ⟨1⟩) cells →
      cells.Nodup ∧ cells.length ≤ maxValueDepth := by
    rintro cells ⟨hhead, hchain⟩
    have hdepth : 2 ≤ maxValueDepth := by decide
    rcases cells with _ | ⟨c, _ | ⟨d, rest⟩⟩
    · exact ⟨.nil, Nat.zero_le _⟩
    · exact ⟨by simp, Nat.le_trans (by simp) hdepth⟩
    · obtain ⟨hd, hrest⟩ := List.isChain_cons_cons.1 hchain
      have hc : c.value = .array ⟨1⟩ := hhead c rfl
      have hd : d.value = .array ⟨0⟩ := by simpa [houter hc] using hd
      have hne : c ≠ d := fun heq ↦ by simp [heq, hd] at hc
      rcases rest with _ | ⟨e, rest⟩
      · exact ⟨by simpa using hne, hdepth⟩
      · have he : e.value = .string "a" := by
          simpa [hinner hd] using (List.isChain_cons_cons.1 hrest).1
        cases e <;> cases he
  obtain ⟨htext, hdocument⟩ :=
    (guards_are_exact sharingHeap (.array ⟨1⟩)).2.2 hpaths 513 (by decide)
  exact ⟨hpaths, htext.trans (by decide +kernel), hdocument⟩

end Nodecraft.Sandbox
