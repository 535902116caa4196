import Mathlib.Data.List.Basic
import Nodecraft.Text.Search

/-!
# Patterns in texts

What is found of a text makes the text up again, together with what is before and behind it.

A pattern is found in a text from left to right, every occurrence behind the one before
(`occurrences`). The occurrences do not overlap, the pattern stands at each of them, and wherever it
stands there is an occurrence that begins there or that reaches over it. What stands between them are
the pieces of the text (`piecesFrom`), and with other texts in the place of the occurrences it is
`spliced`.

A place in a text is also given by the bytes that are before it, which are not its characters. At a
number of bytes that ends within a character no text can be cut (`splitBytes?`).
-/

set_option autoImplicit false

namespace Nodecraft.Text

theorem dropKnown?_append (known rest : List Char) :
    dropKnown? known (known ++ rest) = some rest := by
  induction known with
  | nil => rfl
  | cons p ps ih => exact (if_pos rfl).trans ih

theorem eq_append_of_dropKnown? {known cs rest : List Char} (h : dropKnown? known cs = some rest) :
    cs = known ++ rest := by
  fun_induction dropKnown? known cs with
  | case1 cs =>
    cases h
    rfl
  | case2 => cases h
  | case3 c ps cs ih =>
    rw [ih h]
    rfl
  | case4 => cases h

/-- A pattern that is found stands between what is before and behind it. -/
theorem eq_append_of_cut? {pattern cs : List Char} : ∀ {before after : List Char},
    cut? pattern cs = some (before, after) → cs = before ++ pattern ++ after := by
  induction cs with
  | nil =>
    intro before after h
    obtain rfl : pattern = [] := by
      by_contra hne
      rw [cut?, if_neg fun hempty ↦ hne (List.isEmpty_iff.1 hempty)] at h
      cases h
    obtain ⟨rfl, rfl⟩ := Prod.mk.inj (Option.some.inj h)
    rfl
  | cons c cs ih =>
    intro before after h
    unfold cut? at h
    split at h
    · obtain ⟨rfl, rfl⟩ := Prod.mk.inj (Option.some.inj h)
      exact eq_append_of_dropKnown? ‹_›
    · obtain ⟨⟨before', after'⟩, hcut, heq⟩ := Option.map_eq_some_iff.1 h
      obtain ⟨rfl, rfl⟩ := Prod.mk.inj heq
      exact congrArg (c :: ·) (ih hcut)

end Nodecraft.Text

namespace Nodecraft.Text

/-- The positions at which a pattern is found in the text from a position on, whose first characters
may belong to an occurrence before. The empty pattern is found before each character and at the end. -/
def occurrencesFrom (pattern : List Char) : Nat → Nat → List Char → List Nat
  | i, _, [] => if pattern.isEmpty then [i] else []
  | i, taken + 1, _ :: cs => occurrencesFrom pattern (i + 1) taken cs
  | i, 0, c :: cs =>
    if pattern.isPrefixOf (c :: cs)
    then i :: occurrencesFrom pattern (i + 1) (pattern.length - 1) cs
    else occurrencesFrom pattern (i + 1) 0 cs

def occurrences (pattern text : String) : List Nat :=
  occurrencesFrom pattern.toList 0 0 text.toList

/-- The pieces of a text from a position on, between stretches of a width at certain positions. -/
def piecesFrom (text : List Char) (width : Nat) : Nat → List Nat → List String
  | i, [] => [String.ofList (text.drop i)]
  | i, j :: rest => String.ofList ((text.drop i).take (j - i)) ::
    piecesFrom text width (j + width) rest

/-- A text from a position on, with other texts in the place of stretches of a width. -/
def splicedFrom (text : List Char) (width : Nat) : Nat → List (Nat × String) → String
  | i, [] => String.ofList (text.drop i)
  | i, (j, t) :: rest => String.ofList ((text.drop i).take (j - i)) ++ t ++
    splicedFrom text width (j + width) rest

def spliced (text : String) (width : Nat) (replaced : List (Nat × String)) : String :=
  splicedFrom text.toList width 0 replaced

/-! ### Where the pattern stands -/

section

variable {pattern : List Char}

/-- Characters that belong to the occurrence before are gone over. -/
theorem occurrencesFrom_of_taken (k : Nat) : ∀ (i : Nat) (cs : List Char), k ≤ cs.length →
    occurrencesFrom pattern i k cs = occurrencesFrom pattern (i + k) 0 (cs.drop k) := by
  induction k with
  | zero => exact fun _ _ _ ↦ rfl
  | succ k ih =>
    intro i cs hk
    cases cs with
    | nil => exact absurd hk (Nat.not_succ_le_zero k)
    | cons c cs =>
      rw [occurrencesFrom, ih (i + 1) cs (Nat.le_of_succ_le_succ hk), List.drop_succ_cons]
      congr 1
      omega

/-- Every occurrence lies within the text, and the pattern stands there. -/
theorem mem_occurrencesFrom (cs : List Char) : ∀ {i taken j : Nat}, taken ≤ cs.length →
    j ∈ occurrencesFrom pattern i taken cs →
    i + taken ≤ j ∧ j ≤ i + cs.length ∧ pattern <+: cs.drop (j - i) := by
  induction cs with
  | nil =>
    intro i taken j htaken hj
    obtain rfl : taken = 0 := Nat.le_zero.1 htaken
    simp only [occurrencesFrom] at hj
    split at hj
    · obtain rfl := List.mem_singleton.1 hj
      simp_all
    · cases hj
  | cons c cs ih =>
    intro i taken j htaken hj
    have hlater {taken : Nat} (h : taken ≤ cs.length)
        (hj : j ∈ occurrencesFrom pattern (i + 1) taken cs) :
        i + 1 + taken ≤ j ∧ j ≤ i + (cs.length + 1) ∧ pattern <+: (c :: cs).drop (j - i) := by
      obtain ⟨hlow, hhigh, hstands⟩ := ih h hj
      refine ⟨hlow, by omega, ?_⟩
      rwa [show j - i = j - (i + 1) + 1 by omega, List.drop_succ_cons]
    rw [List.length_cons] at htaken ⊢
    cases taken with
    | succ taken =>
      obtain ⟨hlow, hrest⟩ := hlater (Nat.le_of_succ_le_succ htaken) hj
      exact ⟨by omega, hrest⟩
    | zero =>
      rw [occurrencesFrom] at hj
      split at hj
      · rename_i hprefix
        have hp := List.isPrefixOf_iff_prefix.1 hprefix
        rcases List.mem_cons.1 hj with rfl | hj
        · exact ⟨Nat.le_refl _, by omega, by simpa using hp⟩
        · have hlength := hp.length_le
          rw [List.length_cons] at hlength
          obtain ⟨hlow, hrest⟩ := hlater (by omega) hj
          exact ⟨by omega, hrest⟩
      · obtain ⟨hlow, hrest⟩ := hlater (Nat.zero_le _) hj
        exact ⟨by omega, hrest⟩

/-- Occurrences follow one another without overlap. -/
theorem occurrencesFrom_pairwise (cs : List Char) : ∀ {i taken : Nat}, taken ≤ cs.length →
    (occurrencesFrom pattern i taken cs).Pairwise fun j k ↦ j < k ∧ j + pattern.length ≤ k := by
  induction cs with
  | nil =>
    intro i taken _
    simp only [occurrencesFrom]
    split
    · exact List.pairwise_singleton _ _
    · exact .nil
  | cons c cs ih =>
    intro i taken htaken
    rw [List.length_cons] at htaken
    cases taken with
    | succ taken => exact ih (Nat.le_of_succ_le_succ htaken)
    | zero =>
      rw [occurrencesFrom]
      split
      · rename_i hprefix
        have hlength := (List.isPrefixOf_iff_prefix.1 hprefix).length_le
        rw [List.length_cons] at hlength
        have hle : pattern.length - 1 ≤ cs.length := by omega
        refine .cons (fun k hk ↦ ?_) (ih hle)
        obtain ⟨hlow, -⟩ := mem_occurrencesFrom cs hle hk
        omega
      · exact ih (Nat.zero_le _)

/-- Wherever the pattern stands, an occurrence begins there or reaches over it. -/
theorem exists_occurrence (cs : List Char) : ∀ {i taken j : Nat}, taken ≤ cs.length →
    i + taken ≤ j → j ≤ i + cs.length → pattern <+: cs.drop (j - i) →
    ∃ k ∈ occurrencesFrom pattern i taken cs, k ≤ j ∧ (j = k ∨ j < k + pattern.length) := by
  induction cs with
  | nil =>
    intro i taken j _ hlow hhigh hstands
    have hempty : pattern = [] := by simpa using hstands
    have hj : j = i := by
      rw [List.length_nil] at hhigh
      omega
    exact ⟨i, by simp [occurrencesFrom, hempty], by omega, .inl hj⟩
  | cons c cs ih =>
    intro i taken j htaken hlow hhigh hstands
    rw [List.length_cons] at htaken hhigh
    have hlater {taken : Nat} (h : taken ≤ cs.length) (hj : i + 1 + taken ≤ j) :
        ∃ k ∈ occurrencesFrom pattern (i + 1) taken cs, k ≤ j ∧ (j = k ∨ j < k + pattern.length) := by
      refine ih h hj (by omega) ?_
      rwa [show j - i = j - (i + 1) + 1 by omega, List.drop_succ_cons] at hstands
    cases taken with
    | succ taken => exact hlater (Nat.le_of_succ_le_succ htaken) (by omega)
    | zero =>
      rw [occurrencesFrom]
      split
      · rename_i hprefix
        have hlength := (List.isPrefixOf_iff_prefix.1 hprefix).length_le
        rw [List.length_cons] at hlength
        by_cases hj : j = i ∨ j < i + pattern.length
        · exact ⟨i, List.mem_cons_self, hlow, hj⟩
        · have hle : pattern.length - 1 ≤ cs.length := by omega
          obtain ⟨k, hk, hcovers⟩ := hlater hle (by omega)
          exact ⟨k, List.mem_cons_of_mem _ hk, hcovers⟩
      · rename_i hprefix
        have hj : j ≠ i := by
          rintro rfl
          rw [Nat.sub_self] at hstands
          exact hprefix (List.isPrefixOf_iff_prefix.2 hstands)
        exact hlater (Nat.zero_le _) (by omega)

end

/-! ### Searching -/

section

variable {pattern : List Char}

/-- A beginning is not known exactly if it is not there. -/
theorem dropKnown?_eq_none_iff {cs : List Char} :
    dropKnown? pattern cs = none ↔ ¬pattern <+: cs := by
  constructor
  · rintro h ⟨rest, rfl⟩
    rw [dropKnown?_append] at h
    cases h
  · intro h
    cases hdrop : dropKnown? pattern cs with
    | none => rfl
    | some rest => exact absurd ⟨rest, (eq_append_of_dropKnown? hdrop).symm⟩ h

/-- The search comes upon the first occurrence, and upon the others in the text behind it. -/
theorem occurrencesFrom_of_cut? (hp : pattern ≠ []) (cs : List Char) :
    ∀ {i : Nat} {before after : List Char}, cut? pattern cs = some (before, after) →
    occurrencesFrom pattern i 0 cs = (i + before.length) ::
      occurrencesFrom pattern (i + before.length + pattern.length) 0 after := by
  induction cs with
  | nil =>
    intro i before after h
    rw [cut?, if_neg fun hempty ↦ hp (List.isEmpty_iff.1 hempty)] at h
    cases h
  | cons c cs ih =>
    intro i before after h
    unfold cut? at h
    rw [occurrencesFrom]
    split at h
    · rename_i rest hdrop
      obtain ⟨rfl, rfl⟩ := Prod.mk.inj (Option.some.inj h)
      have heq := eq_append_of_dropKnown? hdrop
      have hprefix : pattern <+: c :: cs := ⟨rest, heq.symm⟩
      have hlength := congrArg List.length heq
      have hpos := List.length_pos_iff.2 hp
      rw [List.length_cons, List.length_append] at hlength
      have hrest : cs.drop (pattern.length - 1) = rest := by
        have hdropped : (c :: cs).drop pattern.length = rest := by rw [heq, List.drop_left]
        rwa [show pattern.length = pattern.length - 1 + 1 by omega, List.drop_succ_cons] at hdropped
      rw [if_pos (List.isPrefixOf_iff_prefix.2 hprefix),
        occurrencesFrom_of_taken _ _ _ (by omega), hrest,
        show i + 1 + (pattern.length - 1) = i + pattern.length by omega]
      rfl
    · rename_i hdrop
      have hprefix := dropKnown?_eq_none_iff.1 hdrop
      obtain ⟨⟨before', after'⟩, hcut, heq⟩ := Option.map_eq_some_iff.1 h
      obtain ⟨rfl, rfl⟩ := Prod.mk.inj heq
      rw [if_neg fun h ↦ hprefix (List.isPrefixOf_iff_prefix.1 h), ih hcut, List.length_cons,
        show i + 1 + before'.length = i + (before'.length + 1) by omega]

/-- Where the search finds nothing, there are no occurrences. -/
theorem occurrencesFrom_of_cut?_eq_none (cs : List Char) : ∀ {i : Nat},
    cut? pattern cs = none → occurrencesFrom pattern i 0 cs = [] := by
  induction cs with
  | nil =>
    intro i h
    rw [cut?] at h
    split at h
    · cases h
    · exact if_neg ‹_›
  | cons c cs ih =>
    intro i h
    unfold cut? at h
    split at h
    · cases h
    · rename_i hdrop
      have hprefix := dropKnown?_eq_none_iff.1 hdrop
      rw [occurrencesFrom, if_neg fun h ↦ hprefix (List.isPrefixOf_iff_prefix.1 h)]
      exact ih (Option.map_eq_none_iff.1 h)

/-- What is found in the text from a position on: what is before it, and the text behind it. -/
theorem drop_of_cut? {text before after : List Char} {i : Nat}
    (h : cut? pattern (text.drop i) = some (before, after)) :
    (text.drop i).take before.length = before ∧
    after = text.drop (i + before.length + pattern.length) ∧
    text.length - i = before.length + pattern.length + after.length := by
  have heq := eq_append_of_cut? h
  have hlength := congrArg List.length heq
  simp only [List.length_drop, List.length_append] at hlength
  refine ⟨?_, ?_, hlength⟩
  · rw [heq, List.append_assoc, List.take_left]
  · rw [Nat.add_assoc, ← List.drop_drop, heq, ← List.length_append, List.drop_left]

/-- Splitting gives the pieces between the occurrences. -/
theorem stretches_eq_pieces (hp : pattern ≠ []) (text : List Char) (fuel : Nat) :
    ∀ i, i ≤ text.length → text.length - i ≤ fuel →
    (stretches pattern fuel (text.drop i)).map String.ofList =
      piecesFrom text pattern.length i (occurrencesFrom pattern i 0 (text.drop i)) := by
  induction fuel with
  | zero =>
    intro i _ hfuel
    have hdrop : text.drop i = [] := List.drop_eq_nil_of_le (by omega)
    rw [hdrop, occurrencesFrom, if_neg fun hempty ↦ hp (List.isEmpty_iff.1 hempty), piecesFrom, hdrop]
    rfl
  | succ fuel ih =>
    intro i hi hfuel
    cases hcut : cut? pattern (text.drop i) with
    | none =>
      rw [occurrencesFrom_of_cut?_eq_none _ hcut]
      simp only [stretches, hcut]
      rfl
    | some found =>
      obtain ⟨before, after⟩ := found
      obtain ⟨hbefore, hafter, hlength⟩ := drop_of_cut? hcut
      have hpos := List.length_pos_iff.2 hp
      rw [occurrencesFrom_of_cut? hp _ hcut, piecesFrom, Nat.add_sub_cancel_left, hbefore,
        hafter, ← ih _ (by omega) (by omega)]
      simp only [stretches, hcut, List.map_cons, hafter]

/-- With one text in the place of all occurrences, the pieces are joined by it. -/
theorem intercalate_pieces (text : List Char) (width : Nat) (r : String) (positions : List Nat) :
    ∀ i, r.intercalate (piecesFrom text width i positions) =
      splicedFrom text width i (positions.map fun j ↦ (j, r)) := by
  induction positions with
  | nil => exact fun i ↦ String.intercalate_singleton
  | cons j rest ih =>
    intro i
    have hne : piecesFrom text width (j + width) rest ≠ [] := by
      cases rest <;> exact List.cons_ne_nil _ _
    rw [piecesFrom, String.intercalate_cons_of_ne_nil hne, ih, List.map_cons, splicedFrom]

end

/-! ### The empty pattern -/

section

variable {text cs : List Char} {c : Char} {i : Nat}

theorem occurrencesFrom_nil_cons (i : Nat) (c : Char) (cs : List Char) :
    occurrencesFrom [] i 0 (c :: cs) = i :: occurrencesFrom [] (i + 1) 0 cs := rfl

theorem exists_occurrencesFrom_nil (i : Nat) (cs : List Char) :
    ∃ rest, occurrencesFrom [] i 0 cs = i :: rest := by
  cases cs <;> exact ⟨_, rfl⟩

theorem drop_succ_of_drop (h : text.drop i = c :: cs) : text.drop (i + 1) = cs := by
  rw [← List.drop_drop, h, List.drop_one, List.tail_cons]

/-- What is spliced right before a character and later leaves that character where it is. -/
theorem splicedFrom_cons_self (htext : text.drop i = c :: cs) (t t' : String)
    (rest : List (Nat × String)) :
    splicedFrom text 0 i ((i, t) :: (i + 1, t') :: rest) =
      t.push c ++ splicedFrom text 0 (i + 1) ((i + 1, t') :: rest) := by
  simp [splicedFrom, htext, String.ofList_cons, ← String.append_assoc]

/-- With one text in the place of every empty stretch, it stands before each character and at the
end. -/
theorem splicedFrom_nil (r : String) (text cs : List Char) : ∀ i, text.drop i = cs →
    splicedFrom text 0 i ((occurrencesFrom [] i 0 cs).map fun j ↦ (j, r)) =
      String.ofList (cs.flatMap fun c ↦ r.toList ++ [c]) ++ r := by
  induction cs with
  | nil =>
    intro i htext
    simp [occurrencesFrom, splicedFrom, htext]
  | cons c cs ih =>
    intro i htext
    have hlater := ih (i + 1) (drop_succ_of_drop htext)
    obtain ⟨rest, hrest⟩ := exists_occurrencesFrom_nil (i + 1) cs
    rw [hrest, List.map_cons] at hlater
    rw [occurrencesFrom_nil_cons, hrest, List.map_cons, List.map_cons, splicedFrom_cons_self htext,
      hlater]
    simp [String.ofList_append, String.ofList_cons, ← String.append_assoc]

end

/-! ### Occurrences in a whole text -/

section

variable {p s : String}

/-- Occurrences follow one another without overlap. -/
theorem occurrences_pairwise (p s : String) :
    (occurrences p s).Pairwise fun i j ↦ i < j ∧ i + p.length ≤ j := by
  rw [← String.length_toList]
  exact occurrencesFrom_pairwise s.toList (Nat.zero_le _)

/-- The pattern stands at every occurrence. -/
theorem mem_occurrences {i : Nat} (h : i ∈ occurrences p s) :
    i ≤ s.length ∧ p.toList <+: s.toList.drop i := by
  obtain ⟨-, hle, hstands⟩ := mem_occurrencesFrom s.toList (Nat.zero_le _) h
  rw [Nat.zero_add, String.length_toList] at hle
  exact ⟨hle, hstands⟩

/-- Wherever the pattern stands, an occurrence begins there or reaches over it. -/
theorem exists_occurrence_of_stands {j : Nat} (hj : j ≤ s.length) (h : p.toList <+: s.toList.drop j) :
    ∃ i ∈ occurrences p s, i ≤ j ∧ (j = i ∨ j < i + p.length) := by
  rw [← String.length_toList, ← Nat.zero_add s.toList.length] at hj
  have hexists := exists_occurrence s.toList (Nat.zero_le _) (Nat.zero_le j) hj h
  rwa [String.length_toList] at hexists

/-- The pattern's first place in the text is the first occurrence. -/
theorem take_one_occurrences {before after : String} (hs : s = before ++ p ++ after)
    (hfirst : ∀ j < before.length, ¬p.toList <+: s.toList.drop j) :
    (occurrences p s).take 1 = [before.length] := by
  have hstands : p.toList <+: s.toList.drop before.length := by
    refine ⟨after.toList, ?_⟩
    rw [hs, ← String.length_toList]
    simp
  have hle : before.length ≤ s.length := by
    rw [hs]
    simp
    omega
  have hlow (k : Nat) (hk : k ∈ occurrences p s) : before.length ≤ k :=
    Nat.le_of_not_lt fun hlt ↦ hfirst k hlt (mem_occurrences hk).2
  obtain ⟨k, hk, hkle, -⟩ := exists_occurrence_of_stands hle hstands
  obtain rfl : k = before.length := Nat.le_antisymm hkle (hlow k hk)
  have hpairwise := occurrences_pairwise p s
  generalize occurrences p s = positions at hk hlow hpairwise
  cases positions with
  | nil => cases hk
  | cons i rest =>
    rcases List.mem_cons.1 hk with rfl | hk
    · rfl
    · have hlt := (List.rel_of_pairwise_cons hpairwise hk).1
      exact absurd hlt (Nat.not_lt.2 (hlow i List.mem_cons_self))

/-- A pattern that is not there has no occurrences. -/
theorem occurrences_eq_nil (h : ¬p.toList <:+: s.toList) : occurrences p s = [] := by
  refine List.eq_nil_iff_forall_not_mem.2 fun i hi ↦ h ?_
  exact (mem_occurrences hi).2.isInfix.trans (List.drop_suffix i _).isInfix

end

/-! ### Bytes -/

/-- How many bytes characters take up. -/
def byteSize (cs : List Char) : Nat := (String.ofList cs).utf8ByteSize

/-- What is before and behind a number of bytes, unless they end within a character or behind the
text. -/
def splitBytes? : Nat → List Char → Option (List Char × List Char)
  | 0, cs => some ([], cs)
  | _ + 1, [] => none
  | n + 1, c :: cs =>
    if c.utf8Size ≤ n + 1
    then (splitBytes? (n + 1 - c.utf8Size) cs).map fun (before, after) ↦ (c :: before, after)
    else none

/-- How many bytes are before the first occurrence of a pattern. -/
def findBytes? (pattern cs : List Char) : Option Nat :=
  (cut? pattern cs).map fun (before, _) ↦ byteSize before

@[simp] theorem byteSize_nil : byteSize [] = 0 := rfl

/-- Bytes of texts that follow one another add up. -/
theorem byteSize_append (before after : List Char) :
    byteSize (before ++ after) = byteSize before + byteSize after := by
  rw [byteSize, String.ofList_append, String.utf8ByteSize_append]
  rfl

@[simp] theorem byteSize_singleton (c : Char) : byteSize [c] = c.utf8Size := by
  rw [byteSize, ← String.singleton_eq_ofList, String.utf8ByteSize_singleton]

/-- Behind whole characters a text can be cut. -/
theorem splitBytes?_append (before after : List Char) :
    splitBytes? (byteSize before) (before ++ after) = some (before, after) := by
  induction before with
  | nil => rw [byteSize_nil, List.nil_append, splitBytes?]
  | cons c cs ih =>
    obtain ⟨n, hn⟩ := Nat.exists_eq_add_of_lt c.utf8Size_pos
    have hsize : byteSize (c :: cs) = n + byteSize cs + 1 := by
      rw [← List.singleton_append, byteSize_append, byteSize_singleton]
      omega
    rw [hsize, List.cons_append, splitBytes?, if_pos (by omega),
      show n + byteSize cs + 1 - c.utf8Size = byteSize cs by omega, ih]
    rfl

end Nodecraft.Text
