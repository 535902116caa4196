import Nodecraft.Proofs.Template.Elements

/-!
# Texts behind placeholders

Interpolations are taken out of a text and placeholders put in their place, and a placeholder is
found again by how it is spelled. So what the text itself spells like one, or completes to one, is
found as well. `Splits` says where a text's interpolations are, and `restored_iff` is the exact
condition for getting the text back from the placeholders: its stretches between interpolations
spell no placeholder of an interpolation that there is, and none ends in the beginning of one
(`IsOpen`). The interpolations are found just where they were if the stretches spell none at all.
-/

set_option autoImplicit false

namespace Nodecraft

namespace Template

/-! ### Where the interpolations are -/

/-- The interpolations of a text, each with the stretch before it, and what is behind the last
one. -/
inductive Splits : List Char → List (List Char × String) → List Char → Prop
  | tail {cs : List Char} : Text.cut? ['\x7b', '\x7b'] cs = none → Splits cs [] cs
  | interpolation {cs before inner source rest tail : List Char}
      {pairs : List (List Char × String)} :
    Text.cut? ['\x7b', '\x7b'] cs = some (before, inner) →
    Text.cut? ['\x7d', '\x7d'] inner = some (source, rest) → Splits rest pairs tail →
    Splits cs ((before, String.ofList source) :: pairs) tail

/-- The text that the stretches and interpolations are of. -/
def written : List (List Char × String) → List Char → List Char
  | [], tail => tail
  | (before, source) :: pairs, tail =>
    before ++ '\x7b' :: '\x7b' :: (source.toList ++ '\x7d' :: '\x7d' :: written pairs tail)

/-- The text with placeholders for its interpolations. -/
def marked : Nat → List (List Char × String) → List Char → List Char
  | _, [], tail => tail
  | index, (before, _) :: pairs, tail =>
    before ++ (placeholder index ++ marked (index + 1) pairs tail)

/-- A text is what it splits into, written one behind the other. -/
theorem Splits.eq_written {cs tail : List Char} {pairs : List (List Char × String)}
    (h : Splits cs pairs tail) : cs = written pairs tail := by
  induction h with
  | tail => rfl
  | interpolation hopen hclose _ ih =>
    rw [Text.eq_append_of_cut? hopen, Text.eq_append_of_cut? hclose, ih]
    simp [written]

/-- A text has its interpolations in one place only. -/
theorem Splits.unique {cs tail tail' : List Char} {pairs pairs' : List (List Char × String)}
    (h : Splits cs pairs tail) (h' : Splits cs pairs' tail') : pairs = pairs' ∧ tail = tail' := by
  induction h generalizing pairs' tail' with
  | tail hnone =>
    cases h' with
    | tail => exact ⟨rfl, rfl⟩
    | interpolation hopen _ _ => exact nomatch hnone.symm.trans hopen
  | interpolation hopen hclose _ ih =>
    cases h' with
    | tail hnone => exact nomatch hnone.symm.trans hopen
    | interpolation hopen' hclose' hrest =>
      obtain ⟨rfl, rfl⟩ := Prod.mk.inj (Option.some.inj (hopen.symm.trans hopen'))
      obtain ⟨rfl, rfl⟩ := Prod.mk.inj (Option.some.inj (hclose.symm.trans hclose'))
      obtain ⟨rfl, rfl⟩ := ih hrest
      exact ⟨rfl, rfl⟩

/-- What is taken out are the interpolations of the text, and placeholders with their numbers stand for
them. -/
theorem takeInterpolations_splits {fuel index : Nat} {cs : List Char} (hfuel : cs.length ≤ fuel) :
    ∀ {marks : List Char} {sources : List String},
    takeInterpolations fuel index cs = .ok (marks, sources) →
      ∃ pairs tail, Splits cs pairs tail ∧ marks = marked index pairs tail ∧
        sources = pairs.map Prod.snd := by
  induction fuel generalizing index cs with
  | zero =>
    intro marks sources h
    obtain rfl := List.eq_nil_of_length_eq_zero (Nat.le_zero.1 hfuel)
    obtain ⟨rfl, rfl⟩ := Prod.mk.inj (Except.ok.inj h)
    exact ⟨[], [], .tail rfl, rfl, rfl⟩
  | succ fuel ih =>
    intro marks sources h
    unfold takeInterpolations at h
    cases hopen : Text.cut? ['\x7b', '\x7b'] cs with
    | none =>
      rw [hopen] at h
      obtain ⟨rfl, rfl⟩ := Prod.mk.inj (Except.ok.inj h)
      exact ⟨[], _, .tail hopen, rfl, rfl⟩
    | some found =>
      obtain ⟨before, inner⟩ := found
      cases hclose : Text.cut? ['\x7d', '\x7d'] inner with
      | none =>
        rw [hopen] at h
        dsimp only at h
        rw [hclose] at h
        cases h
      | some found =>
        obtain ⟨source, rest⟩ := found
        rw [hopen] at h
        dsimp only at h
        rw [hclose] at h
        obtain ⟨⟨after, others⟩, hrest, h⟩ := except_bind_eq_ok h
        have hlength := congrArg List.length (Text.eq_append_of_cut? hopen)
        rw [Text.eq_append_of_cut? hclose] at hlength
        simp only [List.length_append, List.length_cons] at hlength
        obtain ⟨pairs, tail, hsplits, rfl, rfl⟩ := ih (by omega) hrest
        obtain ⟨rfl, rfl⟩ := Prod.mk.inj (Except.ok.inj h)
        exact ⟨_, _, .interpolation hopen hclose hsplits, by simp [marked], rfl⟩

/-! ### Placeholders at the head of a text -/

theorem isDecimalDigit_placeholderEnd : Text.isDecimalDigit '_' = false := by decide +kernel

theorem takeWhile_digits {digits : List Char} (hdigits : digits.all Text.isDecimalDigit = true)
    (rest : List Char) :
    (digits ++ (placeholderEnd ++ rest)).takeWhile Text.isDecimalDigit = digits ∧
      (digits ++ (placeholderEnd ++ rest)).dropWhile Text.isDecimalDigit =
        placeholderEnd ++ rest := by
  induction digits with
  | nil =>
    have hend : Text.isDecimalDigit '_' = false := isDecimalDigit_placeholderEnd
    exact ⟨by simp [placeholderEnd, hend], by simp [placeholderEnd, hend]⟩
  | cons d ds ih =>
    rw [List.all_cons, Bool.and_eq_true] at hdigits
    obtain ⟨htake, hdrop⟩ := ih hdigits.2
    rw [List.cons_append, List.takeWhile_cons_of_pos hdigits.1,
      List.dropWhile_cons_of_pos hdigits.1]
    exact ⟨congrArg (d :: ·) htake, hdrop⟩

/-- When a placeholder stands at the head of a text. -/
theorem placeholderAt?_eq_some {cs digits rest : List Char} :
    placeholderAt? cs = some (digits, rest) ↔
      cs = placeholderStart ++ (digits ++ (placeholderEnd ++ rest)) ∧ digits ≠ [] ∧
        digits.all Text.isDecimalDigit = true := by
  unfold placeholderAt?
  constructor
  · intro h
    obtain ⟨inner, hstart, h⟩ := Option.bind_eq_some_iff.1 h
    obtain ⟨_, hne, h⟩ := Option.bind_eq_some_iff.1 h
    obtain ⟨after, hend, h⟩ := Option.bind_eq_some_iff.1 h
    obtain ⟨rfl, rfl⟩ := Prod.mk.inj (Option.some.inj h)
    refine ⟨?_, ?_, List.all_takeWhile⟩
    · rw [← Text.eq_append_of_dropKnown? hend, List.takeWhile_append_dropWhile]
      exact Text.eq_append_of_dropKnown? hstart
    · intro hnil
      rw [hnil] at hne
      cases hne
  · rintro ⟨rfl, hne, hdigits⟩
    obtain ⟨htake, hdrop⟩ := takeWhile_digits hdigits rest
    have hempty : digits.isEmpty = false := List.isEmpty_eq_false_iff.2 hne
    rw [Text.dropKnown?_append]
    change ((guard (!(_ : List Char).isEmpty) : Option Unit).bind fun _ ↦ _) = _
    rw [htake, hdrop, hempty, Text.dropKnown?_append]
    rfl

/-- A placeholder does not depend on what follows it. -/
theorem placeholderAt?_append {cs digits rest : List Char}
    (h : placeholderAt? cs = some (digits, rest)) (more : List Char) :
    placeholderAt? (cs ++ more) = some (digits, rest ++ more) := by
  obtain ⟨rfl, hdigits⟩ := placeholderAt?_eq_some.1 h
  exact placeholderAt?_eq_some.2 ⟨by simp, hdigits⟩

theorem placeholderStart_eq :
    placeholderStart = '_' :: '_' :: 'N' :: "ODE_EXPR_".toList := by decide

/-- Behind the beginning of a placeholder there is no capital N. -/
theorem not_mem_drop_placeholder {digits : List Char}
    (hdigits : digits.all Text.isDecimalDigit = true) :
    'N' ∉ (placeholderStart ++ (digits ++ placeholderEnd)).drop 3 := by
  rw [placeholderStart_eq]
  change 'N' ∉ "ODE_EXPR_".toList ++ (digits ++ placeholderEnd)
  intro hmem
  rcases List.mem_append.1 hmem with hmem | hmem
  · exact absurd hmem (by decide)
  · rcases List.mem_append.1 hmem with hmem | hmem
    · have hdigit := List.all_eq_true.1 hdigits 'N' hmem
      exact absurd hdigit (by decide +kernel)
    · exact absurd hmem (by decide)

/-- A placeholder reaches no further into one behind it than to the end of its first two
characters. -/
theorem placeholderAt?_before {c : Char} {cs more digits rest : List Char}
    (h : placeholderAt? (c :: cs ++ (placeholderEnd ++ 'N' :: more)) = some (digits, rest)) :
    ∃ rest', placeholderAt? (c :: cs ++ placeholderEnd) = some (digits, rest') ∧
      rest = rest' ++ 'N' :: more := by
  obtain ⟨heq, hdigits⟩ := placeholderAt?_eq_some.1 h
  have hsplit : (c :: cs ++ placeholderEnd) ++ 'N' :: more =
      (placeholderStart ++ (digits ++ placeholderEnd)) ++ rest := by
    simpa [List.append_assoc] using heq
  rcases List.append_eq_append_iff.1 hsplit with ⟨as, hmark, hmore⟩ | ⟨rest', hmark, rfl⟩
  · cases as with
    | nil =>
      refine ⟨[], placeholderAt?_eq_some.2 ⟨?_, hdigits⟩, hmore.symm⟩
      rw [List.append_nil] at hmark
      rw [← hmark]
      simp
    | cons n as =>
      obtain ⟨rfl, -⟩ := List.cons.inj hmore
      refine absurd ?_ (not_mem_drop_placeholder hdigits.2)
      have hlength : 3 ≤ (c :: cs ++ placeholderEnd).length := by
        simp [placeholderEnd]
      rw [hmark, List.drop_append_of_le_length hlength]
      exact List.mem_append_right _ List.mem_cons_self
  · refine ⟨rest', placeholderAt?_eq_some.2 ⟨?_, hdigits⟩, rfl⟩
    rw [hmark]
    simp

/-! ### Going through a text -/

theorem length_of_placeholderAt? {cs digits rest : List Char}
    (h : placeholderAt? cs = some (digits, rest)) : rest.length < cs.length := by
  obtain ⟨rfl, hne, -⟩ := placeholderAt?_eq_some.1 h
  have := List.length_pos_iff.2 hne
  simp only [List.length_append]
  omega

/-- More fuel than a text has characters makes no difference. -/
theorem segmentsWithin_of_le {fuel : Nat} : ∀ {fuel' : Nat} {cs : List Char},
    cs.length ≤ fuel → cs.length ≤ fuel' → segmentsWithin fuel cs = segmentsWithin fuel' cs := by
  induction fuel with
  | zero =>
    intro fuel' cs hle _
    obtain rfl := List.eq_nil_of_length_eq_zero (Nat.le_zero.1 hle)
    cases fuel' <;> rfl
  | succ fuel ih =>
    intro fuel' cs hle hle'
    cases cs with
    | nil => cases fuel' <;> rfl
    | cons c cs =>
      obtain ⟨fuel', rfl⟩ := Nat.exists_eq_add_one_of_ne_zero (Nat.ne_of_gt (Nat.lt_of_lt_of_le
        (Nat.succ_pos _) hle'))
      unfold segmentsWithin
      rw [List.length_cons] at hle hle'
      cases h : placeholderAt? (c :: cs) with
      | none => exact congrArg (addText c) (ih (by omega) (by omega))
      | some found =>
        have hless := length_of_placeholderAt? h
        rw [List.length_cons] at hless
        have hrest : found.2.length ≤ fuel := by omega
        have hrest' : found.2.length ≤ fuel' := by omega
        exact congrArg (.placeholder found.1 :: ·) (ih hrest hrest')

/-- The stretches and placeholders of a text, on characters. -/
def scanned (cs : List Char) : List Segment := segmentsWithin cs.length cs

/-- The pass over a text goes through it character by character. -/
theorem segments_ofList (cs : List Char) : segments (String.ofList cs) = scanned cs := by
  unfold segments scanned
  rw [String.toList_ofList, String.length_ofList]

@[simp] theorem scanned_nil : scanned [] = [] := rfl

/-- A placeholder is one segment. -/
theorem scanned_of_placeholder {cs digits rest : List Char}
    (h : placeholderAt? cs = some (digits, rest)) :
    scanned cs = .placeholder digits :: scanned rest := by
  have hless := length_of_placeholderAt? h
  cases cs with
  | nil => cases hless
  | cons c cs =>
    unfold scanned
    rw [List.length_cons] at hless ⊢
    rw [segmentsWithin, h]
    have hrest : rest.length ≤ cs.length := by omega
    exact congrArg (.placeholder digits :: ·) (segmentsWithin_of_le hrest (Nat.le_refl _))

/-- Any other character belongs to the text around. -/
theorem scanned_cons {c : Char} {cs : List Char} (h : placeholderAt? (c :: cs) = none) :
    scanned (c :: cs) = addText c (scanned cs) := by
  unfold scanned
  rw [List.length_cons, segmentsWithin, h]

/-- The numbers of the placeholders in a text, as they are spelled. -/
def markers (cs : List Char) : List (List Char) :=
  (scanned cs).filterMap fun
    | .text _ => none
    | .placeholder digits => some digits

@[simp] theorem markers_nil : markers [] = [] := rfl

/-- The numbers of the placeholders in a text, from the front. -/
theorem markers_of_placeholder {cs digits rest : List Char}
    (h : placeholderAt? cs = some (digits, rest)) : markers cs = digits :: markers rest := by
  unfold markers
  rw [scanned_of_placeholder h]
  rfl

theorem markers_cons {c : Char} {cs : List Char} (h : placeholderAt? (c :: cs) = none) :
    markers (c :: cs) = markers cs := by
  unfold markers
  rw [scanned_cons h]
  cases scanned cs with
  | nil => rfl
  | cons segment rest => cases segment <;> rfl

/-- A text without a capital N spells no placeholder. -/
theorem markers_eq_nil {cs : List Char} (h : 'N' ∉ cs) : markers cs = [] := by
  induction cs with
  | nil => rfl
  | cons c cs ih =>
    rw [List.mem_cons, not_or] at h
    cases hmark : placeholderAt? (c :: cs) with
    | none => rw [markers_cons hmark, ih h.2]
    | some found =>
      obtain ⟨heq, -⟩ := placeholderAt?_eq_some.1 hmark
      refine absurd ?_ (not_or.2 ⟨h.1, h.2⟩)
      rw [← List.mem_cons, heq]
      exact List.mem_append_left _ (by decide)

/-- A stretch whose end is the beginning of a placeholder that two underscores complete. -/
def IsOpen (cs : List Char) : Prop := markers (cs ++ placeholderEnd) ≠ markers cs

instance (cs : List Char) : Decidable (IsOpen cs) :=
  inferInstanceAs (Decidable (markers (cs ++ placeholderEnd) ≠ markers cs))

theorem not_isOpen_nil : ¬IsOpen [] := not_not.2 (by decide)

/-- Placeholders begin with two underscores. -/
theorem placeholderAt?_eq_none {c d : Char} {cs : List Char} (h : c ≠ '_' ∨ d ≠ '_') :
    placeholderAt? (c :: d :: cs) = none := by
  cases hmark : placeholderAt? (c :: d :: cs) with
  | none => rfl
  | some found =>
    obtain ⟨heq, -⟩ := placeholderAt?_eq_some.1 hmark
    simp only [placeholderStart_eq, List.cons_append, List.cons.injEq] at heq
    exact absurd h (not_or.2 ⟨not_not.2 heq.1, not_not.2 heq.2.1⟩)

/-- A placeholder that its last characters complete begins with a stretch that lacks some of them
and spells no other placeholder. -/
theorem exists_halves {c : Char} {cs digits rest : List Char}
    (hmark : placeholderAt? (c :: cs ++ placeholderEnd) = some (digits, rest))
    (hnone : placeholderAt? (c :: cs) = none) :
    (∃ as, placeholderStart ++ (digits ++ placeholderEnd) = c :: cs ++ '_' :: as) ∧
      markers cs = [] := by
  obtain ⟨heq, hdigits⟩ := placeholderAt?_eq_some.1 hmark
  have hsplit : c :: cs ++ placeholderEnd =
      (placeholderStart ++ (digits ++ placeholderEnd)) ++ rest := by
    simpa [List.append_assoc] using heq
  have hnot (bs : List Char) :
      c :: cs ≠ (placeholderStart ++ (digits ++ placeholderEnd)) ++ bs := by
    intro hwhole
    have hfound : placeholderAt? (c :: cs) = some (digits, bs) :=
      placeholderAt?_eq_some.2 ⟨by rw [hwhole]; simp, hdigits⟩
    rw [hfound] at hnone
    cases hnone
  rcases List.append_eq_append_iff.1 hsplit with ⟨as, hcut, hend⟩ | ⟨bs, hwhole, -⟩
  · cases as with
    | nil => exact absurd (by rw [hcut, List.append_nil, List.append_nil]) (hnot [])
    | cons d as =>
      obtain rfl : d = '_' := (List.cons.inj hend).1.symm
      refine ⟨⟨as, hcut⟩, ?_⟩
      have hstart : placeholderStart.length = 12 := by decide
      have hlast : placeholderEnd.length = 2 := by decide
      have hfree := not_mem_drop_placeholder hdigits.2
      have hshort := congrArg List.length hend
      have hlength := congrArg List.length hcut
      simp only [List.length_append, List.length_cons, hstart, hlast] at hshort hlength
      obtain ⟨d, n, more, rfl⟩ : ∃ d n more, cs = d :: n :: more := by
        rcases cs with _ | ⟨d, _ | ⟨n, more⟩⟩
        · simp only [List.length_nil] at hlength
          omega
        · simp only [List.length_cons, List.length_nil] at hlength
          omega
        · exact ⟨d, n, more, rfl⟩
      rw [hcut] at hfree
      simp only [placeholderStart_eq, List.cons_append, List.cons.injEq] at hcut
      obtain ⟨-, rfl, rfl, -⟩ := hcut
      have hmore : 'N' ∉ more := fun hmem ↦ hfree (List.mem_append_left _ hmem)
      rw [markers_cons (placeholderAt?_eq_none (.inr (by decide)))]
      cases more with
      | nil => decide
      | cons e more =>
        rw [markers_cons (placeholderAt?_eq_none (.inl (by decide))), markers_eq_nil hmore]
  · exact absurd hwhole (hnot bs)

/-- What a stretch begins with that is followed by a placeholder. -/
inductive Heads (c : Char) (cs : List Char) : Prop
  /-- Its first character begins no placeholder. -/
  | plain (alone : placeholderAt? (c :: cs) = none)
    (completed : placeholderAt? (c :: cs ++ placeholderEnd) = none)
    (before : ∀ more, placeholderAt? (c :: cs ++ (placeholderEnd ++ 'N' :: more)) = none)
  /-- It begins with a placeholder of its own. -/
  | marker {digits rest : List Char} (alone : placeholderAt? (c :: cs) = some (digits, rest))
  /-- It is the beginning of a placeholder that the one behind it completes. -/
  | half {digits as rest : List Char} (alone : placeholderAt? (c :: cs) = none)
    (halves : placeholderStart ++ (digits ++ placeholderEnd) = c :: cs ++ '_' :: as)
    (isOpen : IsOpen (c :: cs))
    (before : ∀ more, placeholderAt? (c :: cs ++ (placeholderEnd ++ 'N' :: more)) =
      some (digits, rest ++ 'N' :: more))

theorem heads (c : Char) (cs : List Char) : Heads c cs := by
  cases hmark : placeholderAt? (c :: cs) with
  | some found => exact .marker hmark
  | none =>
    cases hcompleted : placeholderAt? (c :: cs ++ placeholderEnd) with
    | none =>
      refine .plain hmark hcompleted fun more ↦ ?_
      cases hbefore : placeholderAt? (c :: cs ++ (placeholderEnd ++ 'N' :: more)) with
      | none => rfl
      | some found =>
        obtain ⟨rest', hsome, -⟩ := placeholderAt?_before hbefore
        rw [hsome] at hcompleted
        cases hcompleted
    | some found =>
      obtain ⟨digits, rest⟩ := found
      obtain ⟨⟨as, hhalves⟩, hmarkers⟩ := exists_halves hcompleted hmark
      have hopen : IsOpen (c :: cs) := by
        unfold IsOpen
        rw [markers_of_placeholder hcompleted, markers_cons hmark, hmarkers]
        exact nofun
      have hbefore (more : List Char) :
          placeholderAt? (c :: cs ++ (placeholderEnd ++ 'N' :: more)) =
            some (digits, rest ++ 'N' :: more) := by
        rw [← List.append_assoc]
        exact placeholderAt?_append hcompleted _
      exact .half hmark hhalves hopen hbefore

/-- Induction along a stretch, from one placeholder to the next. -/
theorem stretch_induction {P : List Char → Prop} (nil : P [])
    (plain : ∀ {c : Char} {cs : List Char}, placeholderAt? (c :: cs) = none →
      placeholderAt? (c :: cs ++ placeholderEnd) = none →
      (∀ more, placeholderAt? (c :: cs ++ (placeholderEnd ++ 'N' :: more)) = none) →
      P cs → P (c :: cs))
    (marker : ∀ {cs digits rest : List Char}, placeholderAt? cs = some (digits, rest) →
      P rest → P cs)
    (half : ∀ {c : Char} {cs digits as rest : List Char}, placeholderAt? (c :: cs) = none →
      placeholderStart ++ (digits ++ placeholderEnd) = c :: cs ++ '_' :: as → IsOpen (c :: cs) →
      (∀ more, placeholderAt? (c :: cs ++ (placeholderEnd ++ 'N' :: more)) =
        some (digits, rest ++ 'N' :: more)) → P cs → P (c :: cs))
    (cs : List Char) : P cs := by
  induction hlength : cs.length using Nat.strongRecOn generalizing cs with
  | _ n ih =>
    subst hlength
    cases cs with
    | nil => exact nil
    | cons c cs =>
      cases heads c cs with
      | plain halone hcompleted hbefore =>
        exact plain halone hcompleted hbefore (ih _ (Nat.lt_succ_self _) cs rfl)
      | marker hmark => exact marker hmark (ih _ (length_of_placeholderAt? hmark) _ rfl)
      | half halone hhalves hopen hbefore =>
        exact half halone hhalves hopen hbefore (ih _ (Nat.lt_succ_self _) cs rfl)

/-! ### Putting interpolations back -/

/-- A segment with what a placeholder stands for. -/
def Segment.shown (sources : List String) : Segment → List Char
  | .text cs => cs
  | .placeholder digits =>
    match source? sources digits with
    | some source => '\x7b' :: '\x7b' :: (source.toList ++ ['\x7d', '\x7d'])
    | none => placeholderStart ++ (digits ++ placeholderEnd)

def restoredChars (sources : List String) (cs : List Char) : List Char :=
  (scanned cs).flatMap (Segment.shown sources)

theorem restored_ofList (sources : List String) (cs : List Char) :
    restored sources (String.ofList cs) = String.ofList (restoredChars sources cs) := by
  unfold restored restoredChars
  rw [segments_ofList, ← String.toList_inj, String.toList_join, String.toList_ofList,
    List.flatMap_map]
  refine List.flatMap_congr fun segment _ ↦ ?_
  cases segment with
  | text cs => exact String.toList_ofList
  | placeholder digits =>
    cases hsource : source? sources digits with
    | none => simp [Segment.shown, hsource]
    | some source => simp [Segment.shown, hsource]

variable {sources : List String}

/-- What stands for a placeholder, then the rest. -/
theorem restoredChars_of_placeholder {cs digits rest : List Char}
    (h : placeholderAt? cs = some (digits, rest)) :
    restoredChars sources cs =
      Segment.shown sources (.placeholder digits) ++ restoredChars sources rest := by
  unfold restoredChars
  rw [scanned_of_placeholder h]
  rfl

theorem restoredChars_cons {c : Char} {cs : List Char} (h : placeholderAt? (c :: cs) = none) :
    restoredChars sources (c :: cs) = c :: restoredChars sources cs := by
  unfold restoredChars
  rw [scanned_cons h]
  cases scanned cs with
  | nil => rfl
  | cons segment rest => cases segment <;> rfl

/-- A placeholder whose number is known is its interpolation. -/
theorem shown_of_source {digits : List Char} {source : String}
    (h : source? sources digits = some source) : Segment.shown sources (.placeholder digits) =
      '\x7b' :: '\x7b' :: (source.toList ++ ['\x7d', '\x7d']) := by
  simp only [Segment.shown, h]

/-- Any other is left as it is. -/
theorem shown_of_unknown {digits : List Char} (h : source? sources digits = none) :
    Segment.shown sources (.placeholder digits) =
      placeholderStart ++ (digits ++ placeholderEnd) := by
  simp only [Segment.shown, h]

/-- A stretch that spells no placeholder of an interpolation that there is. -/
def Quiet (sources : List String) (cs : List Char) : Prop :=
  ∀ digits ∈ markers cs, source? sources digits = none

instance (sources : List String) (cs : List Char) : Decidable (Quiet sources cs) :=
  inferInstanceAs (Decidable (∀ digits ∈ markers cs, source? sources digits = none))

theorem quiet_nil : Quiet sources [] := fun _ h ↦ nomatch h

/-- The placeholder that a stretch begins with comes back as an interpolation, or as it is. -/
theorem restoredChars_eq_iff_of_marker {cs digits rest more behind : List Char}
    (h : placeholderAt? cs = some (digits, rest)) :
    restoredChars sources (cs ++ more) = cs ++ behind ↔
      source? sources digits = none ∧ restoredChars sources (rest ++ more) = rest ++ behind := by
  rw [restoredChars_of_placeholder (placeholderAt?_append h more)]
  obtain ⟨rfl, -⟩ := placeholderAt?_eq_some.1 h
  cases hsource : source? sources digits with
  | none =>
    rw [shown_of_unknown hsource]
    simp [List.append_assoc]
  | some source =>
    rw [shown_of_source hsource, placeholderStart_eq]
    simp

theorem quiet_cons {c : Char} {cs : List Char} (h : placeholderAt? (c :: cs) = none) :
    Quiet sources (c :: cs) ↔ Quiet sources cs := by
  unfold Quiet
  rw [markers_cons h]

/-- A text is quiet if none of its placeholders has a known number. -/
theorem quiet_of_marker {cs digits rest : List Char} (h : placeholderAt? cs = some (digits, rest)) :
    Quiet sources cs ↔ source? sources digits = none ∧ Quiet sources rest := by
  unfold Quiet
  rw [markers_of_placeholder h]
  exact List.forall_mem_cons

theorem isOpen_cons {c : Char} {cs : List Char} (h : placeholderAt? (c :: cs) = none)
    (hcompleted : placeholderAt? (c :: cs ++ placeholderEnd) = none) :
    IsOpen (c :: cs) ↔ IsOpen cs := by
  have hcompleted : placeholderAt? (c :: (cs ++ placeholderEnd)) = none := hcompleted
  unfold IsOpen
  rw [markers_cons h, List.cons_append, markers_cons hcompleted]

/-- Behind a placeholder it is the rest that may be completed to one. -/
theorem isOpen_of_marker {cs digits rest : List Char}
    (h : placeholderAt? cs = some (digits, rest)) : IsOpen cs ↔ IsOpen rest := by
  unfold IsOpen
  rw [markers_of_placeholder h, markers_of_placeholder (placeholderAt?_append h placeholderEnd)]
  exact not_congr (List.cons_inj_right digits)

/-- A stretch before a placeholder comes back as it is exactly if it is quiet and not open. -/
theorem restoredChars_stretch {more behind : List Char} (cs : List Char) :
    restoredChars sources (cs ++ (placeholderEnd ++ 'N' :: more)) = cs ++ '\x7b' :: behind ↔
      (Quiet sources cs ∧ ¬IsOpen cs) ∧
        restoredChars sources (placeholderEnd ++ 'N' :: more) = '\x7b' :: behind := by
  induction cs using stretch_induction with
  | nil => exact ⟨fun h ↦ ⟨⟨quiet_nil, not_isOpen_nil⟩, h⟩, And.right⟩
  | @plain c cs halone hcompleted hbefore ih =>
    have hrestored : restoredChars sources (c :: cs ++ (placeholderEnd ++ 'N' :: more)) =
        c :: restoredChars sources (cs ++ (placeholderEnd ++ 'N' :: more)) :=
      restoredChars_cons (hbefore more)
    rw [hrestored, quiet_cons halone, isOpen_cons halone hcompleted, List.cons_append,
      List.cons_inj_right]
    exact ih
  | marker hmark ih =>
    rw [restoredChars_eq_iff_of_marker hmark, ih, quiet_of_marker hmark, isOpen_of_marker hmark]
    simp only [and_assoc]
  | @half c cs digits as rest _ hhalves hopen hbefore _ =>
    refine iff_of_false (fun heq ↦ ?_) fun h ↦ h.1.2 hopen
    rw [restoredChars_of_placeholder (hbefore more)] at heq
    cases hsource : source? sources digits with
    | none =>
      rw [shown_of_unknown hsource, hhalves, List.append_assoc] at heq
      obtain ⟨hbrace, -⟩ := List.cons.inj (List.append_cancel_left heq)
      exact absurd hbrace (by decide)
    | some source =>
      rw [placeholderStart_eq] at hhalves
      rw [shown_of_source hsource] at heq
      have hbrace := (List.cons.inj heq).1
      have hmark := (List.cons.inj hhalves).1
      rw [← hbrace] at hmark
      exact absurd hmark (by decide)

/-- So does one with nothing behind it, and only that it is quiet matters. -/
theorem restoredChars_tail (cs : List Char) : restoredChars sources cs = cs ↔ Quiet sources cs := by
  induction cs using stretch_induction with
  | nil => exact iff_of_true rfl quiet_nil
  | plain halone _ _ ih =>
    rw [restoredChars_cons halone, quiet_cons halone, List.cons_inj_right]
    exact ih
  | @marker cs digits rest hmark ih =>
    have h : restoredChars sources (cs ++ []) = cs ++ [] ↔ source? sources digits = none ∧
        restoredChars sources (rest ++ []) = rest ++ [] := restoredChars_eq_iff_of_marker hmark
    simp only [List.append_nil] at h
    rw [h, ih, quiet_of_marker hmark]
  | half halone _ _ _ ih =>
    rw [restoredChars_cons halone, quiet_cons halone, List.cons_inj_right]
    exact ih

/-! ### Stretches and placeholders as they were put in -/

/-- A stretch before other segments; an empty one is none. -/
def addStretch (cs : List Char) (rest : List Segment) : List Segment :=
  if cs.isEmpty then rest else .text cs :: rest

/-- The segments of a text with placeholders for its interpolations. -/
def spliced : Nat → List (List Char × String) → List Char → List Segment
  | _, [], tail => addStretch tail []
  | index, (before, _) :: pairs, tail =>
    addStretch before (.placeholder (toString index).toList :: spliced (index + 1) pairs tail)

/-- A stretch that spells no placeholder and ends in the beginning of none. -/
def IsPlain (cs : List Char) : Prop := markers cs = [] ∧ ¬IsOpen cs

theorem scanned_ne_text_nil (cs : List Char) (rest : List Segment) :
    scanned cs ≠ .text [] :: rest := by
  induction cs using stretch_induction with
  | nil => exact nofun
  | plain halone _ _ _ =>
    rw [scanned_cons halone]
    unfold addText
    split <;> simp
  | marker hmark _ =>
    rw [scanned_of_placeholder hmark]
    exact nofun
  | half halone _ _ _ _ =>
    rw [scanned_cons halone]
    unfold addText
    split <;> simp

@[simp] theorem addStretch_nil (rest : List Segment) : addStretch [] rest = rest := rfl

@[simp] theorem addStretch_cons (c : Char) (cs : List Char) (rest : List Segment) :
    addStretch (c :: cs) rest = .text (c :: cs) :: rest := rfl

/-- A character more in front of a stretch. -/
theorem addText_eq_iff {c : Char} {cs : List Char} {segments rest : List Segment}
    (hne : segments ≠ .text [] :: rest) (hrest : ∀ cs others, rest ≠ .text cs :: others) :
    addText c segments = addStretch (c :: cs) rest ↔ segments = addStretch cs rest := by
  rw [addStretch_cons]
  cases segments with
  | nil =>
    cases cs with
    | nil => simp [addText]
    | cons d cs => simp [addText]
  | cons segment others =>
    cases segment with
    | placeholder digits =>
      cases cs with
      | nil => simp [addText]
      | cons d cs => simp [addText]
    | text u =>
      cases cs with
      | nil =>
        refine iff_of_false (fun h ↦ hne ?_) fun h ↦ hrest u others h.symm
        simpa [addText] using h
      | cons d cs => simp [addText]

/-- The placeholder behind a stretch is found where it is, and no other one before it, exactly if
the stretch is plain. -/
theorem scanned_stretch {more : List Char} {rest : List Segment}
    (hrest : ∀ cs others, rest ≠ .text cs :: others) (cs : List Char) :
    scanned (cs ++ (placeholderEnd ++ 'N' :: more)) = addStretch cs rest ↔
      IsPlain cs ∧ scanned (placeholderEnd ++ 'N' :: more) = rest := by
  induction cs using stretch_induction with
  | nil => exact ⟨fun h ↦ ⟨⟨rfl, not_isOpen_nil⟩, h⟩, And.right⟩
  | @plain c cs halone hcompleted hbefore ih =>
    have hscanned : scanned (c :: cs ++ (placeholderEnd ++ 'N' :: more)) =
        addText c (scanned (cs ++ (placeholderEnd ++ 'N' :: more))) := scanned_cons (hbefore more)
    have hplain : IsPlain (c :: cs) ↔ IsPlain cs := by
      unfold IsPlain
      rw [markers_cons halone, isOpen_cons halone hcompleted]
    rw [hscanned, addText_eq_iff (scanned_ne_text_nil _ _) hrest, hplain]
    exact ih
  | @marker cs digits rest' hmark _ =>
    obtain ⟨c, cs, rfl⟩ := List.exists_cons_of_length_pos
      (Nat.lt_of_le_of_lt (Nat.zero_le _) (length_of_placeholderAt? hmark))
    refine iff_of_false (fun h ↦ ?_) fun h ↦ ?_
    · rw [scanned_of_placeholder (placeholderAt?_append hmark _)] at h
      cases h
    · rw [IsPlain, markers_of_placeholder hmark] at h
      exact nomatch h.1.1
  | half _ _ hopen hbefore _ =>
    refine iff_of_false (fun h ↦ ?_) fun h ↦ h.1.2 hopen
    rw [scanned_of_placeholder (hbefore more)] at h
    cases h

/-- A text is one stretch exactly if it spells no placeholder. -/
theorem scanned_tail (cs : List Char) : scanned cs = addStretch cs [] ↔ markers cs = [] := by
  have hnil : ∀ cs others, ([] : List Segment) ≠ .text cs :: others := nofun
  induction cs using stretch_induction with
  | nil => exact iff_of_true rfl rfl
  | plain halone _ _ ih =>
    rw [scanned_cons halone, addText_eq_iff (scanned_ne_text_nil _ _) hnil, markers_cons halone]
    exact ih
  | @marker cs digits rest hmark _ =>
    obtain ⟨c, cs, rfl⟩ := List.exists_cons_of_length_pos
      (Nat.lt_of_le_of_lt (Nat.zero_le _) (length_of_placeholderAt? hmark))
    rw [scanned_of_placeholder hmark, markers_of_placeholder hmark]
    exact iff_of_false nofun nofun
  | half halone _ _ _ ih =>
    rw [scanned_cons halone, addText_eq_iff (scanned_ne_text_nil _ _) hnil, markers_cons halone]
    exact ih

/-! ### Numbers of placeholders -/

theorem isDecimalDigit_of_isDigit {c : Char} (h : c.isDigit = true) :
    Text.isDecimalDigit c = true := by
  obtain ⟨hlow, hhigh⟩ := Char.isDigit_iff_toNat.1 h
  have hall : ∀ n ∈ List.range 58, 48 ≤ n → Text.isDecimalDigit (Char.ofNat n) = true := by
    decide +kernel
  have hc := hall c.toNat (List.mem_range.2 (Nat.lt_succ_of_le hhigh)) hlow
  rwa [Char.ofNat_toNat] at hc

theorem digitsValue_eq_ofDigitChars {digits : List Char} (h : ∀ c ∈ digits, c.isDigit = true) :
    Number.digitsValue 10 digits = Nat.ofDigitChars 10 digits 0 := by
  rw [Nat.ofDigitChars_eq_foldl]
  unfold Number.digitsValue
  refine List.foldl_ext _ _ _ fun n c hc ↦ ?_
  have hdigit := Char.isDigit_iff_toNat.1 (h c hc)
  have hvalue : Number.digitValue? c = some (c.toNat - 48) := if_pos hdigit
  rw [hvalue, Nat.mul_comm]
  rfl

/-- The digits of an interpolation's number stand for what it holds. -/
theorem source?_toString (index : Nat) :
    source? sources (toString index).toList = sources[index]? := by
  have hdigits : ∀ c ∈ Nat.toDigits 10 index, c.isDigit = true := fun c hc ↦
    Nat.isDigit_of_mem_toDigits (by decide) (by decide) hc
  have hrepr : (toString index).toList = Nat.toDigits 10 index := Nat.toList_repr
  unfold source?
  rw [hrepr, if_pos (List.all_eq_true.2 hdigits), digitsValue_eq_ofDigitChars hdigits,
    Nat.ofDigitChars_toDigits (by decide) (by decide)]

/-- A placeholder that is put in is one. -/
theorem placeholderAt?_placeholder (index : Nat) (rest : List Char) :
    placeholderAt? (placeholder index ++ rest) = some ((toString index).toList, rest) := by
  have hdigits : ∀ c ∈ Nat.toDigits 10 index, Text.isDecimalDigit c = true := fun c hc ↦
    isDecimalDigit_of_isDigit (Nat.isDigit_of_mem_toDigits (by decide) (by decide) hc)
  have hrepr : (toString index).toList = Nat.toDigits 10 index := Nat.toList_repr
  refine placeholderAt?_eq_some.2 ⟨by simp [placeholder], ?_, ?_⟩
  · rw [hrepr]
    exact List.ne_nil_of_length_pos Nat.length_toDigits_pos
  · rw [hrepr]
    exact List.all_eq_true.2 hdigits

theorem placeholder_append (index : Nat) (rest : List Char) :
    placeholder index ++ rest = placeholderEnd ++ 'N' ::
      ("ODE_EXPR_".toList ++ ((toString index).toList ++ (placeholderEnd ++ rest))) := by
  unfold placeholder
  rw [placeholderStart_eq, List.append_assoc, List.append_assoc]
  rfl

/-- A text comes back from its placeholders exactly if each stretch before one is quiet and not
open, and the one behind the last is quiet. -/
theorem restoredChars_marked {tail : List Char} {pairs : List (List Char × String)} :
    ∀ {index : Nat}, sources.drop index = pairs.map Prod.snd →
      (restoredChars sources (marked index pairs tail) = written pairs tail ↔
        (∀ pair ∈ pairs, Quiet sources pair.1 ∧ ¬IsOpen pair.1) ∧ Quiet sources tail) := by
  induction pairs with
  | nil =>
    intro index _
    unfold marked written
    rw [restoredChars_tail]
    simp
  | cons pair pairs ih =>
    obtain ⟨before, source⟩ := pair
    intro index hsources
    obtain ⟨hsource, hrest⟩ : sources[index]? = some source ∧
        sources.drop (index + 1) = pairs.map Prod.snd := by
      rw [List.map_cons] at hsources
      refine ⟨?_, ?_⟩
      · rw [← List.head?_drop, hsources]
        rfl
      · rw [← List.tail_drop, hsources]
        rfl
    have hshown : restoredChars sources (placeholder index ++ marked (index + 1) pairs tail) =
        '\x7b' :: '\x7b' :: (source.toList ++ ['\x7d', '\x7d']) ++
          restoredChars sources (marked (index + 1) pairs tail) := by
      rw [restoredChars_of_placeholder (placeholderAt?_placeholder index _),
        shown_of_source (by rw [source?_toString, hsource])]
    unfold marked written
    rw [List.forall_mem_cons, and_assoc, ← ih hrest]
    rw [placeholder_append] at hshown ⊢
    rw [restoredChars_stretch, hshown]
    simp

/-- The pass finds the placeholders as they were put in exactly if no stretch between them adds to one.
-/
theorem scanned_marked {tail : List Char} {pairs : List (List Char × String)} :
    ∀ {index : Nat}, scanned (marked index pairs tail) = spliced index pairs tail ↔
      (∀ pair ∈ pairs, IsPlain pair.1) ∧ markers tail = [] := by
  induction pairs with
  | nil =>
    intro index
    unfold marked spliced
    rw [scanned_tail]
    simp
  | cons pair pairs ih =>
    obtain ⟨before, source⟩ := pair
    intro index
    have hscanned : scanned (placeholder index ++ marked (index + 1) pairs tail) =
        .placeholder (toString index).toList :: scanned (marked (index + 1) pairs tail) :=
      scanned_of_placeholder (placeholderAt?_placeholder index _)
    unfold marked spliced
    rw [List.forall_mem_cons, and_assoc, ← ih]
    rw [placeholder_append] at hscanned ⊢
    have hhead (cs : List Char) (others : List Segment) :
        .placeholder (toString index).toList :: spliced (index + 1) pairs tail ≠
          .text cs :: others := nofun
    rw [scanned_stretch hhead, hscanned, List.cons_inj_right]

/-- Where the interpolations of a text are, and when they are found again behind the placeholders.
The text comes back exactly if its stretches spell no placeholder of an interpolation that there is
and those before an interpolation do not end in the beginning of one. They and the interpolations
are told apart again exactly if the stretches spell no placeholder at all. -/
theorem restored_iff {cs marks : List Char} {sources : List String}
    (h : interpolations cs = .ok (marks, sources)) :
    ∃ pairs tail, Splits cs pairs tail ∧ cs = written pairs tail ∧
      sources = pairs.map Prod.snd ∧
      (∀ index : Nat, source? sources (toString index).toList = sources[index]?) ∧
      (restored sources (String.ofList marks) = String.ofList cs ↔
        (∀ pair ∈ pairs, Quiet sources pair.1 ∧ ¬IsOpen pair.1) ∧ Quiet sources tail) ∧
      (segments (String.ofList marks) = spliced 0 pairs tail ↔
        (∀ pair ∈ pairs, IsPlain pair.1) ∧ markers tail = []) := by
  obtain ⟨pairs, tail, hsplits, rfl, rfl⟩ := takeInterpolations_splits (Nat.le_refl _) h
  refine ⟨pairs, tail, hsplits, hsplits.eq_written, rfl, source?_toString, ?_, ?_⟩
  · rw [restored_ofList, hsplits.eq_written, String.ofList_inj]
    exact restoredChars_marked rfl
  · rw [segments_ofList]
    exact scanned_marked

/-- A placeholder without a number before an interpolation is none. -/
theorem restored_iff_unnumbered :
    let cs := "{{ a }} __NODE_EXPR_{{ b }}".toList
    let marks := "__NODE_EXPR_0__ __NODE_EXPR___NODE_EXPR_1__".toList
    interpolations cs = .ok (marks, [" a ", " b "]) ∧
      restored [" a ", " b "] (String.ofList marks) = String.ofList cs := by
  intro cs marks
  have h : interpolations cs = .ok (marks, [" a ", " b "]) := by rfl
  obtain ⟨pairs, tail, hsplits, -, -, -, hrestored, -⟩ := restored_iff h
  obtain ⟨rfl, rfl⟩ := hsplits.unique
    (.interpolation rfl rfl (.interpolation rfl rfl (.tail rfl)))
  exact ⟨h, hrestored.2 (by decide +kernel)⟩

/-- A text that spells a placeholder has an interpolation in its place, and one that ends in the
beginning of a placeholder before an interpolation lacks that interpolation. -/
theorem spelled_placeholders_are_taken :
    (interpolations "__NODE_EXPR_0__ {{ a }}".toList =
        .ok ("__NODE_EXPR_0__ __NODE_EXPR_0__".toList, [" a "]) ∧
      restored [" a "] "__NODE_EXPR_0__ __NODE_EXPR_0__" = "{{ a }} {{ a }}") ∧
    (interpolations "__NODE_EXPR_7{{ a }}".toList =
        .ok ("__NODE_EXPR_7__NODE_EXPR_0__".toList, [" a "]) ∧
      restored [" a "] "__NODE_EXPR_7__NODE_EXPR_0__" = "__NODE_EXPR_7__NODE_EXPR_0__") :=
  ⟨⟨rfl, by decide +kernel⟩, rfl, by decide +kernel⟩

end Template

end Nodecraft
