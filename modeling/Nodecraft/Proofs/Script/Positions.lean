import Nodecraft.Proofs.Script.Scan

/-!
# The scan by positions

The scan for nesting takes characters off the front of its text, where none can be missing, and its
counts are natural numbers, where what falls below zero is zero. Here it stands at a position of the
text instead and is checked (`Cursor.trace?`): where it reads a character or a stretch that is not
in the text, takes more off a count than there is, or does not get forward, it fails.

The checked scan never fails and is the scan (`scan_is_checked`): a step at a position is the step
on the text from there on (`Cursor.step?_eq`), since the counts are balanced.
-/

set_option autoImplicit false

namespace Nodecraft.Script

/-! ### Checked operations -/

/-- A difference that is not below zero. -/
def difference? (a b : Nat) : Option Nat := if b ≤ a then some (a - b) else none

namespace Nesting

def closeBracket? (n : Nesting) : Option Nesting :=
  let n := if n.inSubstitution then { n with substitutions := n.substitutions.tail } else n
  match n.frames with
  | chains :: outer :: frames =>
    (difference? n.depth (chains + 1)).map fun depth ↦
      { n with frames := outer :: frames, depth := depth }
  | _ => some n

def reset? (n : Nesting) : Option Nesting :=
  match n.frames with
  | chains :: frames =>
    (difference? n.depth chains).map fun depth ↦ { n with frames := 0 :: frames, depth := depth }
  | [] => some n

end Nesting

/-- The scan at a position of its text. -/
structure Cursor where
  position : Nat
  nesting : Nesting
  previous : Option Char
  newLine : Bool

namespace Cursor

open NestingScan (isRelation operandEnd)

def start : Cursor := ⟨0, .start, none, false⟩

section

variable (text : List Char)

/-- The stretch of the text between two positions. -/
def slice? (i j : Nat) : Option (List Char) :=
  if i ≤ j ∧ j ≤ text.length then some ((text.drop i).take (j - i)) else none

/-- The character before a position, if the text has one there. -/
def before? (i : Nat) : Option (Option Char) :=
  if i = 0 then some none else text[i - 1]?.map some

def skipWhile? (p : Char → Bool) (i : Nat) : Option Nat :=
  if i < text.length then
    match text[i]? with
    | none => none
    | some c => if p c then skipWhile? p (i + 1) else some i
  else some i
termination_by text.length - i

def skipString? (quote : Char) (i : Nat) : Option Nat :=
  if i < text.length then
    match text[i]? with
    | none => none
    | some c =>
      if c = '\\' then skipString? quote (i + 2)
      else if c = quote ∨ c = '\n' then some (i + 1)
      else skipString? quote (i + 1)
  else some i
termination_by text.length - i

def skipTemplate? (i : Nat) : Option (Nat × Bool) :=
  if i < text.length then
    match text[i]? with
    | none => none
    | some c =>
      if c = '\\' then skipTemplate? (i + 2)
      else if c = '\x60' then some (i + 1, false)
      else if c = '$' ∧ text[i + 1]? = some '\x7b' then some (i + 2, true)
      else skipTemplate? (i + 1)
  else some (i, false)
termination_by text.length - i

def skipRegexBody? (inClass : Bool) (i : Nat) : Option Nat :=
  if i < text.length then
    match text[i]? with
    | none => none
    | some c =>
      if c = '\\' then skipRegexBody? inClass (i + 2)
      else if c = '[' then skipRegexBody? true (i + 1)
      else if c = ']' then skipRegexBody? false (i + 1)
      else if c = '/' ∧ inClass = false then some (i + 1)
      else if c = '\n' then some i
      else skipRegexBody? inClass (i + 1)
  else some i
termination_by text.length - i

/-- The position where a block comment ends or, if it does not, the end of the text. -/
def skipBlockComment? (newLine : Bool) (i : Nat) : Option (Nat × Bool) :=
  if i < text.length then
    match text[i]? with
    | none => none
    | some c =>
      if c = '*' ∧ text[i + 1]? = some '/' then some (i, newLine)
      else skipBlockComment? (newLine || c == '\n') (i + 1)
  else some (i, newLine)
termination_by text.length - i

end

def settleLine? (k : Cursor) (c : Char) : Option Cursor :=
  if k.newLine then
    if expectsOperand k.previous || continuesExpression c then some { k with newLine := false }
    else k.nesting.reset?.map fun n ↦ { k with newLine := false, nesting := n }
  else some k

section

variable (text : List Char)

def punctuate? (k : Cursor) (c : Char) : Option Nesting :=
  let next := text[k.position + 1]?
  match c with
  | '(' | '[' | '\x7b' => some k.nesting.openBracket
  | ')' | ']' | '\x7d' => k.nesting.closeBracket?
  | ';' | ',' => k.nesting.reset?
  | '=' => (before? text k.position).map fun before ↦
    if next = some '=' || before.any isRelation then k.nesting else k.nesting.chain
  | '?' => some (
    if next = some '.' || next = some '?' || k.previous = some '?' then k.nesting
    else k.nesting.chain)
  | '!' | '~' => some (if next = some '=' then k.nesting else k.nesting.chain)
  | '+' | '-' => some k.nesting.chain
  | _ => some k.nesting

def template? (k : Cursor) (n : Nesting) : Option Cursor :=
  (skipTemplate? text (k.position + 1)).map fun r ↦
    if r.2 then ⟨r.1, n.openSubstitution, some '(', k.newLine⟩
    else ⟨r.1, n, some operandEnd, k.newLine⟩

def word? (k : Cursor) : Option Cursor :=
  (skipWhile? text isScanWordChar k.position).bind fun i ↦
    (slice? text k.position i).map fun word ↦
      ⟨i, if operandWords.contains (String.ofList word) then k.nesting.chain else k.nesting,
        some 'a', k.newLine⟩

def token? (k : Cursor) (c : Char) : Option Cursor :=
  if c = '\'' ∨ c = '"' then
    (skipString? text c (k.position + 1)).map fun i ↦
      { k with position := i, previous := some operandEnd }
  else if c = '\x60' then k.template? text k.nesting
  else if c = '\x7d' ∧ k.nesting.inSubstitution then
    k.nesting.closeBracket?.bind fun n ↦ k.template? text n
  else if c = '/' ∧ expectsOperand k.previous then
    ((skipRegexBody? text false (k.position + 1)).bind (skipWhile? text Text.isAlphabetic)).map
      fun i ↦ { k with position := i, previous := some operandEnd }
  else if isScanWordChar c then k.word? text
  else (k.punctuate? text c).map fun n ↦ ⟨k.position + 1, n, some c, k.newLine⟩

/-- The cursor behind the next blank, comment or token. -/
def step? (k : Cursor) : Option Cursor :=
  match text[k.position]? with
  | none => none
  | some c =>
    if Text.isBlank c then
      some { k with position := k.position + 1, newLine := k.newLine || c == '\n' }
    else if c = '/' ∧ text[k.position + 1]? = some '/' then
      (skipWhile? text (· != '\n') k.position).map fun i ↦ { k with position := i }
    else if c = '/' ∧ text[k.position + 1]? = some '*' then
      (skipBlockComment? text k.newLine (k.position + 2)).map fun r ↦
        { k with position := r.1 + 2, newLine := r.2 }
    else (k.settleLine? c).bind fun k ↦ k.token? text c

/-- The cursors at which the scan stands until the text ends or nests too deep. -/
def trace? (k : Cursor) : Option (List Cursor) :=
  if k.position < text.length ∧ k.nesting.depth ≤ maxNesting then
    match k.step? text with
    | none => none
    | some k' => if k.position < k'.position then (trace? k').map (k :: ·) else none
  else some [k]
termination_by text.length - k.position

end

/-! ### What is left of the text at a position -/

section

variable {text rest : List Char} {i j k : Nat} {c : Char}

/-- What is left at a position begins with the character there. -/
theorem drop_eq_cons (h : text[i]? = some c) : text.drop i = c :: text.drop (i + 1) := by
  obtain ⟨hi, rfl⟩ := List.getElem?_eq_some_iff.1 h
  exact List.drop_eq_getElem_cons hi

theorem getElem?_of_drop (h : text.drop i = c :: rest) : text[i]? = some c := by
  rw [← List.head?_drop, h, List.head?_cons]

theorem drop_succ_of_drop (h : text.drop i = c :: rest) : text.drop (i + 1) = rest := by
  rw [← List.tail_drop, h, List.tail_cons]

theorem lt_length_of_drop (h : text.drop i = c :: rest) : i < text.length :=
  (List.getElem?_eq_some_iff.1 (getElem?_of_drop h)).1

/-- Where less is left of the text the position is a later one. -/
theorem lt_of_drop (hle : i ≤ j) (h : text.drop i = c :: rest)
    (hlength : (text.drop j).length ≤ rest.length) : i < j := by
  refine Nat.lt_of_le_of_ne hle fun heq ↦ ?_
  rw [← heq, h, List.length_cons] at hlength
  omega

theorem not_none_of_lt (h : i < text.length) : text[i]? ≠ none :=
  fun hnone ↦ absurd h (Nat.not_lt.2 (List.getElem?_eq_none_iff.1 hnone))

theorem le_length_of_before? (h : before? text i = some (some c)) : i ≤ text.length := by
  unfold before? at h
  split at h
  · exact nomatch h
  · obtain ⟨d, hd, -⟩ := Option.map_eq_some_iff.1 h
    have := (List.getElem?_eq_some_iff.1 hd).1
    omega

theorem before?_succ (h : text[i]? = some c) : before? text (i + 1) = some (some c) := by
  simp [before?, h]

variable (text) in
/-- From the first position the scan has got to the second one, where this is left of the text. If
it goes on there within the line, it has not stopped behind a sign of a relation. -/
structure Arrives (i j : Nat) (rest : List Char) : Prop where
  le : i ≤ j
  drop_eq : text.drop j = rest
  before : ∀ c ∈ rest.head?, c ≠ '\n' →
    ∃ d, before? text j = some (some d) ∧ isRelation d = false

namespace Arrives

/-- What arrives from a position arrives from every one before it. -/
theorem of_le (h : Arrives text j i rest) (hle : k ≤ j) : Arrives text k i rest :=
  ⟨Nat.le_trans hle h.le, h.drop_eq, h.before⟩

/-- A character is taken. -/
theorem behind (h : text[i]? = some c) (hrelation : isRelation c = false) :
    Arrives text i (i + 1) (text.drop (i + 1)) :=
  ⟨Nat.le_succ _, rfl, fun _ _ _ ↦ ⟨c, before?_succ h, hrelation⟩⟩

/-- Beyond the end nothing is left. -/
theorem nil (h : text.length ≤ i) : Arrives text i i [] :=
  ⟨Nat.le_refl _, List.drop_eq_nil_of_le h, fun _ hc ↦ nomatch hc⟩

end Arrives

/-! ### Skipping by positions -/

/-- The stretch between the positions is what was taken. -/
theorem slice?_eq_takeWhile {p : Char → Bool} (hle : i ≤ j)
    (hdrop : text.drop j = (text.drop i).dropWhile p)
    (hbefore : j = i ∨ ∃ d, before? text j = some (some d)) (hlt : i < text.length) :
    slice? text i j = some ((text.drop i).takeWhile p) := by
  have hlength : j ≤ text.length := by
    rcases hbefore with rfl | ⟨d, hd⟩
    · exact Nat.le_of_lt hlt
    · exact le_length_of_before? hd
  rw [slice?, if_pos ⟨hle, hlength⟩]
  have happend : (text.drop i).take (j - i) ++ text.drop j =
      (text.drop i).takeWhile p ++ text.drop j := by
    calc (text.drop i).take (j - i) ++ text.drop j
        = (text.drop i).take (j - i) ++ (text.drop i).drop (j - i) := by
          rw [List.drop_drop, Nat.add_sub_cancel' hle]
      _ = (text.drop i).takeWhile p ++ text.drop j := by
          rw [List.take_append_drop, hdrop, List.takeWhile_append_dropWhile]
  exact congrArg some (List.append_cancel_right happend)

variable (text) in
/-- Characters of a kind are skipped to the first that is of another kind. -/
theorem skipWhile?_eq (p : Char → Bool) (i : Nat) : ∃ j, skipWhile? text p i = some j ∧
    i ≤ j ∧ text.drop j = (text.drop i).dropWhile p ∧
      (j = i ∨ ∃ d, before? text j = some (some d) ∧ p d = true) := by
  fun_induction skipWhile? text p i with
  | case1 i hlt hnone => exact absurd hnone (not_none_of_lt hlt)
  | case2 i hlt c hc hp ih =>
    obtain ⟨j, hj, hle, hdrop, hbefore⟩ := ih
    refine ⟨j, hj, Nat.le_of_succ_le hle, ?_, .inr ?_⟩
    · rw [hdrop, drop_eq_cons hc, List.dropWhile_cons_of_pos hp]
    · rcases hbefore with rfl | hbefore
      · exact ⟨c, before?_succ hc, hp⟩
      · exact hbefore
  | case3 i hlt c hc hp =>
    refine ⟨i, rfl, Nat.le_refl _, ?_, .inl rfl⟩
    rw [drop_eq_cons hc, List.dropWhile_cons_of_neg hp]
  | case4 i hnot =>
    refine ⟨i, rfl, Nat.le_refl _, ?_, .inl rfl⟩
    rw [List.drop_eq_nil_of_le (Nat.le_of_not_lt hnot), List.dropWhile_nil]

variable (text) in
/-- A string is skipped as the scan skips it. -/
theorem skipString?_eq {quote : Char} (hquote : isRelation quote = false) (i : Nat) :
    ∃ j, skipString? text quote i = some j ∧
      Arrives text i j (afterString quote (text.drop i)) := by
  fun_induction skipString? text quote i with
  | case1 i hlt hnone => exact absurd hnone (not_none_of_lt hlt)
  | case2 i hlt hc ih =>
    obtain ⟨j, hj, harrives⟩ := ih
    rw [drop_eq_cons hc, afterString_escape, List.tail_drop]
    exact ⟨j, hj, harrives.of_le (by omega)⟩
  | case3 i hlt c hc hne hstop =>
    rw [drop_eq_cons hc, afterString_cons quote hne, if_pos hstop]
    refine ⟨i + 1, rfl, .behind hc ?_⟩
    rcases hstop with rfl | rfl
    · exact hquote
    · rfl
  | case4 i hlt c hc hne hnot ih =>
    obtain ⟨j, hj, harrives⟩ := ih
    rw [drop_eq_cons hc, afterString_cons quote hne, if_neg hnot]
    exact ⟨j, hj, harrives.of_le (Nat.le_succ _)⟩
  | case5 i hnot =>
    have hle := Nat.le_of_not_lt hnot
    rw [List.drop_eq_nil_of_le hle]
    exact ⟨i, rfl, .nil hle⟩

variable (text) in
/-- So is the text of a template. -/
theorem skipTemplate?_eq (i : Nat) : ∃ j, skipTemplate? text i =
    some (j, (afterTemplate (text.drop i)).2) ∧
      Arrives text i j (afterTemplate (text.drop i)).1 := by
  fun_induction skipTemplate? text i with
  | case1 i hlt hnone => exact absurd hnone (not_none_of_lt hlt)
  | case2 i hlt hc ih =>
    obtain ⟨j, hj, harrives⟩ := ih
    rw [drop_eq_cons hc, afterTemplate_escape, List.tail_drop]
    exact ⟨j, hj, harrives.of_le (by omega)⟩
  | case3 i hlt hc =>
    rw [drop_eq_cons hc, afterTemplate_end]
    exact ⟨i + 1, rfl, .behind hc rfl⟩
  | case4 i hlt c hc hne hend hopens =>
    obtain ⟨rfl, hbrace⟩ := hopens
    rw [drop_eq_cons hc, drop_eq_cons hbrace, afterTemplate_substitution]
    exact ⟨i + 2, rfl, (Arrives.behind hbrace rfl).of_le (Nat.le_succ _)⟩
  | case5 i hlt c hc hne hend hnot ih =>
    obtain ⟨j, hj, harrives⟩ := ih
    rw [drop_eq_cons hc, afterTemplate_cons hne hend (by rwa [List.head?_drop])]
    exact ⟨j, hj, harrives.of_le (Nat.le_succ _)⟩
  | case6 i hnot =>
    have hle := Nat.le_of_not_lt hnot
    rw [List.drop_eq_nil_of_le hle]
    exact ⟨i, rfl, .nil hle⟩

variable (text) in
/-- So is the body of a regular expression. -/
theorem skipRegexBody?_eq (inClass : Bool) (i : Nat) : ∃ j, skipRegexBody? text inClass i = some j ∧
    Arrives text i j (afterRegexBody inClass (text.drop i)) := by
  fun_induction skipRegexBody? text inClass i with
  | case1 inClass i hlt hnone => exact absurd hnone (not_none_of_lt hlt)
  | case2 inClass i hlt hc ih =>
    obtain ⟨j, hj, harrives⟩ := ih
    rw [drop_eq_cons hc, afterRegexBody_escape, List.tail_drop]
    exact ⟨j, hj, harrives.of_le (by omega)⟩
  | case3 inClass i hlt hc hne ih =>
    obtain ⟨j, hj, harrives⟩ := ih
    rw [drop_eq_cons hc, afterRegexBody_cons inClass hne, if_pos rfl]
    exact ⟨j, hj, harrives.of_le (Nat.le_succ _)⟩
  | case4 inClass i hlt hc hne hopen ih =>
    obtain ⟨j, hj, harrives⟩ := ih
    rw [drop_eq_cons hc, afterRegexBody_cons inClass hne, if_neg hopen, if_pos rfl]
    exact ⟨j, hj, harrives.of_le (Nat.le_succ _)⟩
  | case5 inClass i hlt c hc hne hopen hclose hends =>
    rw [drop_eq_cons hc, afterRegexBody_cons inClass hne, if_neg hopen, if_neg hclose,
      if_pos hends]
    obtain ⟨rfl, -⟩ := hends
    exact ⟨i + 1, rfl, .behind hc rfl⟩
  | case6 inClass i hlt hc hne hopen hclose hends =>
    rw [drop_eq_cons hc, afterRegexBody_cons inClass hne, if_neg hopen, if_neg hclose,
      if_neg hends, if_pos rfl]
    refine ⟨i, rfl, Nat.le_refl _, drop_eq_cons hc, fun d hd hline ↦ ?_⟩
    exact absurd (Option.some.inj hd).symm hline
  | case7 inClass i hlt c hc hne hopen hclose hends hline ih =>
    obtain ⟨j, hj, harrives⟩ := ih
    rw [drop_eq_cons hc, afterRegexBody_cons inClass hne, if_neg hopen, if_neg hclose,
      if_neg hends, if_neg hline]
    exact ⟨j, hj, harrives.of_le (Nat.le_succ _)⟩
  | case8 inClass i hnot =>
    have hle := Nat.le_of_not_lt hnot
    rw [List.drop_eq_nil_of_le hle]
    exact ⟨i, rfl, .nil hle⟩

theorem not_isRelation_of_word (hc : isScanWordChar c = true) : isRelation c = false := by
  have hall : ['=', '!', '<', '>'].all (fun c ↦ !isScanWordChar c) = true := by decide +kernel
  rw [Bool.eq_false_iff]
  intro hrelation
  simp only [isRelation, Bool.or_eq_true, beq_iff_eq] at hrelation
  have hmem : c ∈ ['=', '!', '<', '>'] := by
    rcases hrelation with ((rfl | rfl) | rfl) | rfl <;> decide
  have hword := List.all_eq_true.1 hall c hmem
  rw [hc] at hword
  exact Bool.false_ne_true hword

theorem not_isRelation_of_isBlank (hc : Text.isBlank c = true) : isRelation c = false := by
  rw [Bool.eq_false_iff]
  intro hrelation
  simp only [isRelation, Bool.or_eq_true, beq_iff_eq] at hrelation
  rcases hrelation with ((rfl | rfl) | rfl) | rfl <;> exact absurd hc (by decide)

theorem isScanWordChar_of_isAlphabetic (hc : Text.isAlphabetic c = true) :
    isScanWordChar c = true := by
  change Text.alphabetic.contains c = true at hc
  simp [isScanWordChar, Text.isAlphanumeric, hc]

variable (text) in
/-- So is a regular expression with its flags. -/
theorem skipRegex?_eq (i : Nat) : ∃ j,
    (skipRegexBody? text false i).bind (skipWhile? text Text.isAlphabetic) = some j ∧
      Arrives text i j (afterRegex (text.drop i)) := by
  obtain ⟨j, hj, hbody⟩ := skipRegexBody?_eq text false i
  obtain ⟨l, hl, hle, hdrop, hbefore⟩ := skipWhile?_eq text Text.isAlphabetic j
  rw [hj, Option.bind_some]
  rw [hbody.drop_eq] at hdrop
  refine ⟨l, hl, Nat.le_trans hbody.le hle, hdrop, fun c hc hline ↦ ?_⟩
  rcases hbefore with rfl | ⟨d, hd, halphabetic⟩
  · rw [show afterRegex (text.drop i) = _ from hdrop.symm, hbody.drop_eq] at hc
    exact hbody.before c hc hline
  · exact ⟨d, hd, not_isRelation_of_word (isScanWordChar_of_isAlphabetic halphabetic)⟩

variable (text) in
/-- So is a comment. -/
theorem skipBlockComment?_eq (newLine : Bool) (i : Nat) : ∃ j,
    skipBlockComment? text newLine i = some (j, (afterBlockComment newLine (text.drop i)).2) ∧
      Arrives text i (j + 2) (afterBlockComment newLine (text.drop i)).1 := by
  fun_induction skipBlockComment? text newLine i with
  | case1 newLine i hlt hnone => exact absurd hnone (not_none_of_lt hlt)
  | case2 newLine i hlt c hc hends =>
    obtain ⟨rfl, hslash⟩ := hends
    rw [drop_eq_cons hc, drop_eq_cons hslash, afterBlockComment_end]
    exact ⟨i, rfl, (Arrives.behind hslash rfl).of_le (Nat.le_succ _)⟩
  | case3 newLine i hlt c hc hnot ih =>
    obtain ⟨j, hj, harrives⟩ := ih
    rw [drop_eq_cons hc, afterBlockComment_cons newLine (by rwa [List.head?_drop])]
    exact ⟨j, hj, harrives.of_le (Nat.le_succ _)⟩
  | case4 newLine i hnot =>
    have hle := Nat.le_of_not_lt hnot
    rw [List.drop_eq_nil_of_le hle]
    exact ⟨i, rfl, (Arrives.nil (Nat.le_add_right_of_le hle)).of_le (Nat.le_add_right _ _)⟩

end

end Cursor

/-! ### Checked operations do not fail -/

namespace Nesting

variable {n : Nesting}

/-- In balance, closing never falls below zero. -/
theorem closeBracket?_eq (h : n.Balanced) : n.closeBracket? = some n.closeBracket := by
  obtain ⟨chains, frames, hframes⟩ := h.exists_frames
  cases frames with
  | nil =>
    by_cases hin : n.inSubstitution = true <;> simp [closeBracket?, closeBracket, hin, hframes]
  | cons outer frames =>
    have hle := h.chains_lt hframes
    by_cases hin : n.inSubstitution = true <;>
      simp [closeBracket?, closeBracket, hin, hframes, difference?, hle]

/-- Nor does a line end. -/
theorem reset?_eq (h : n.Balanced) : n.reset? = some n.reset := by
  obtain ⟨chains, frames, hframes⟩ := h.exists_frames
  have hle := h.chains_le hframes
  simp only [reset?, reset, hframes, difference?, if_pos hle, Option.map_some]

end Nesting

namespace NestingScan

/-- The scan at a position. -/
@[reducible] def standing (s : NestingScan) (i : Nat) : Cursor :=
  ⟨i, s.nesting, s.previous, s.newLine⟩

/-- At the position the rest is left of the text, and the scan knows the character before. -/
structure StandsAt (s : NestingScan) (text : List Char) (i : Nat) (rest : List Char) : Prop where
  drop_eq : text.drop i = rest
  before : ∀ c ∈ rest.head?, c ≠ '\n' →
    (Cursor.before? text i).map (·.any isRelation) = some s.afterRelation

section

variable {s : NestingScan} {text rest : List Char} {i j : Nat} {c : Char}

/-- The scan begins at the first position. -/
theorem standsAt_start (text : List Char) : start.StandsAt text 0 text :=
  ⟨rfl, fun _ _ _ ↦ rfl⟩

/-- Where a skip arrives, the scan stands. -/
theorem standsAt_of_arrives (h : Cursor.Arrives text i j rest) (hs : s.afterRelation = false) :
    s.StandsAt text j rest where
  drop_eq := h.drop_eq
  before := by
    intro c hc hline
    obtain ⟨d, hd, hrelation⟩ := h.before c hc hline
    rw [hd, Option.map_some, Option.any_some, hrelation, hs]

theorem afterRelation_settleLine (s : NestingScan) (c : Char) :
    (s.settleLine c).afterRelation = s.afterRelation := by
  unfold settleLine
  split <;> rfl

theorem StandsAt.settleLine (h : s.StandsAt text i rest) (c : Char) :
    (s.settleLine c).StandsAt text i rest :=
  ⟨h.drop_eq, by rw [afterRelation_settleLine]; exact h.before⟩

/-- Settling a line at a position. -/
theorem settleLine?_eq (hb : s.nesting.Balanced) (i : Nat) (c : Char) :
    (s.standing i).settleLine? c = some ((s.settleLine c).standing i) := by
  cases hline : s.newLine with
  | false => simp [Cursor.settleLine?, settleLine, standing, hline]
  | true =>
    by_cases hgoes : (expectsOperand s.previous || continuesExpression c) = true
    · simp only [Cursor.settleLine?, settleLine, standing, hline, if_true, if_pos hgoes]
    · simp only [Cursor.settleLine?, settleLine, standing, hline, if_true, if_neg hgoes,
        Nesting.reset?_eq hb, Option.map_some]

/-- A mark at a position. -/
theorem punctuate?_eq (hb : s.nesting.Balanced) (h : s.StandsAt text i (c :: rest))
    (hline : c ≠ '\n') :
    (s.standing i).punctuate? text c = some (s.punctuate c rest.head?) := by
  have hnext : text[i + 1]? = rest.head? := by
    rw [← Cursor.drop_succ_of_drop h.drop_eq, List.head?_drop]
  have hbefore := h.before c rfl hline
  unfold Cursor.punctuate? punctuate
  simp only [hnext]
  split
  case h_1 | h_2 | h_3 | h_10 | h_11 | h_12 | h_13 | h_14 => rfl
  case h_4 | h_5 | h_6 => exact Nesting.closeBracket?_eq hb
  case h_7 | h_8 => exact Nesting.reset?_eq hb
  case h_9 =>
    obtain ⟨b, hb, heq⟩ := Option.map_eq_some_iff.1 hbefore
    simp only [hb, Option.map_some, heq]
  case h_15 => simp

/-- The checked scan gets forward, to where the scan goes on. -/
def Moves (text : List Char) (i : Nat) (k : Option Cursor) (next : NestingScan × List Char) :
    Prop :=
  ∃ j, i < j ∧ k = some (next.1.standing j) ∧ next.1.StandsAt text j next.2

/-- The text of a template is read on from a position. -/
theorem template?_moves (n : Nesting) (h : text.drop i = c :: rest) :
    Moves text i ((s.standing i).template? text n) (s.template n rest) := by
  obtain ⟨j, hj, harrives⟩ := Cursor.skipTemplate?_eq text (i + 1)
  rw [Cursor.drop_succ_of_drop h] at hj harrives
  refine ⟨j, harrives.le, ?_⟩
  unfold template Cursor.template?
  rw [hj]
  cases hafter : afterTemplate rest with
  | mk rest' opens =>
    rw [hafter] at harrives
    cases opens <;> exact ⟨rfl, standsAt_of_arrives harrives rfl⟩

/-- A word is read on from a position. -/
theorem word?_moves (hword : isScanWordChar c = true) (h : text.drop i = c :: rest) :
    Moves text i ((s.standing i).word? text) (s.word c rest) := by
  obtain ⟨j, hj, hle, hdrop, hbefore⟩ := Cursor.skipWhile?_eq text isScanWordChar i
  have htake := Cursor.slice?_eq_takeWhile hle hdrop (hbefore.imp_right (Exists.imp fun _ h ↦ h.1))
    (Cursor.lt_length_of_drop h)
  rw [h, List.takeWhile_cons_of_pos hword] at htake
  rw [h, List.dropWhile_cons_of_pos hword] at hdrop
  have hlt := Cursor.lt_of_drop hle h (by rw [hdrop]; exact length_dropWhile_le _ _)
  obtain ⟨d, hd, hrelation⟩ := hbefore.resolve_left (Nat.ne_of_gt hlt)
  refine ⟨j, hlt, ?_, hdrop, fun _ _ _ ↦ ?_⟩
  · rw [Cursor.word?, hj, Option.bind_some, htake]
    rfl
  · change (Cursor.before? text j).map _ = some false
    rw [hd, Option.map_some, Option.any_some, Cursor.not_isRelation_of_word hrelation]

/-- Every token is read on from a position. -/
theorem token?_moves (hb : s.nesting.Balanced) (h : s.StandsAt text i (c :: rest))
    (hline : c ≠ '\n') : Moves text i
      (((s.standing i).settleLine? c).bind fun k ↦ k.token? text c) (s.token c rest) := by
  rw [settleLine?_eq hb, Option.bind_some]
  unfold token Cursor.token?
  dsimp only
  have hb := balanced_settleLine hb c
  have h := h.settleLine c
  generalize s.settleLine c = s at hb h
  have hdrop := Cursor.drop_succ_of_drop h.drop_eq
  by_cases hquote : c = '\'' ∨ c = '"'
  · rw [if_pos hquote, if_pos hquote]
    have hrelation : isRelation c = false := by rcases hquote with rfl | rfl <;> rfl
    obtain ⟨j, hj, harrives⟩ := Cursor.skipString?_eq text hrelation (i + 1)
    rw [hdrop] at harrives
    refine ⟨j, harrives.le, ?_, standsAt_of_arrives harrives rfl⟩
    rw [hj]
    rfl
  rw [if_neg hquote, if_neg hquote]
  by_cases htemplate : c = '\x60'
  · rw [if_pos htemplate, if_pos htemplate]
    exact template?_moves _ h.drop_eq
  rw [if_neg htemplate, if_neg htemplate]
  by_cases hends : c = '\x7d' ∧ s.nesting.inSubstitution = true
  · rw [if_pos hends, if_pos hends]
    rw [Nesting.closeBracket?_eq hb, Option.bind_some]
    exact template?_moves _ h.drop_eq
  rw [if_neg hends, if_neg hends]
  by_cases hregex : c = '/' ∧ expectsOperand s.previous = true
  · rw [if_pos hregex, if_pos hregex]
    obtain ⟨j, hj, harrives⟩ := Cursor.skipRegex?_eq text (i + 1)
    rw [hdrop] at harrives
    refine ⟨j, harrives.le, ?_, standsAt_of_arrives harrives rfl⟩
    rw [hj]
    rfl
  rw [if_neg hregex, if_neg hregex]
  by_cases hword : isScanWordChar c = true
  · rw [if_pos hword, if_pos hword]
    exact word?_moves hword h.drop_eq
  rw [if_neg hword, if_neg hword, punctuate?_eq hb h hline]
  refine ⟨i + 1, Nat.lt_succ_self i, rfl, hdrop, fun _ _ _ ↦ ?_⟩
  rw [Cursor.before?_succ (Cursor.getElem?_of_drop h.drop_eq)]
  rfl

/-- Every step at a position succeeds and is the step of the scan. -/
theorem step?_moves (hb : s.nesting.Balanced) (h : s.StandsAt text i (c :: rest)) :
    Moves text i ((s.standing i).step? text) (s.step c rest) := by
  have hc := Cursor.getElem?_of_drop h.drop_eq
  have hdrop := Cursor.drop_succ_of_drop h.drop_eq
  have hnext : text[i + 1]? = rest.head? := by rw [← hdrop, List.head?_drop]
  unfold Cursor.step?
  simp only [hc, hnext]
  by_cases hblank : Text.isBlank c = true
  · rw [if_pos hblank, step_blank hblank]
    refine ⟨i + 1, Nat.lt_succ_self i, rfl, hdrop, fun _ _ _ ↦ ?_⟩
    rw [Cursor.before?_succ hc, Option.map_some, Option.any_some,
      Cursor.not_isRelation_of_isBlank hblank]
  rw [if_neg hblank]
  by_cases hline : c = '/' ∧ rest.head? = some '/'
  · rw [if_pos hline]
    obtain ⟨rfl, hhead⟩ := hline
    obtain ⟨rest, rfl⟩ := List.head?_eq_some_iff.1 hhead
    obtain ⟨j, hj, hle, hleft, hbefore⟩ :=
      Cursor.skipWhile?_eq text (· != '\n') i
    rw [h.drop_eq, List.dropWhile_cons_of_pos rfl, List.dropWhile_cons_of_pos rfl] at hleft
    have hlength := length_dropWhile_le (· != '\n') rest
    have hlt := Cursor.lt_of_drop hle h.drop_eq
      (by rw [hleft]; exact Nat.le_trans hlength (Nat.le_succ _))
    rw [hj, step_lineComment]
    refine ⟨j, hlt, rfl, hleft, fun d hd hnot ↦ ?_⟩
    have hstop := List.head?_dropWhile_not (· != '\n') rest
    rw [Option.mem_def.1 hd] at hstop
    exact absurd (by simpa using hstop) hnot
  rw [if_neg hline]
  by_cases hblock : c = '/' ∧ rest.head? = some '*'
  · rw [if_pos hblock]
    obtain ⟨rfl, hhead⟩ := hblock
    obtain ⟨rest, rfl⟩ := List.head?_eq_some_iff.1 hhead
    obtain ⟨j, hj, harrives⟩ := Cursor.skipBlockComment?_eq text s.newLine (i + 2)
    rw [Cursor.drop_succ_of_drop hdrop] at hj harrives
    rw [hj, step_blockComment]
    exact ⟨j + 2, Nat.lt_of_lt_of_le (by omega) harrives.le, rfl, standsAt_of_arrives harrives rfl⟩
  rw [if_neg hblock, step_token (Bool.eq_false_iff.2 hblank) hline hblock]
  refine token?_moves hb h ?_
  rintro rfl
  exact hblank rfl

end

end NestingScan

namespace Cursor

/-- The checked scan goes from a cursor on over `ks` to its end `last`. -/
structure Ends (text : List Char) (k : Cursor) (ks : List Cursor) (last : Cursor) : Prop where
  trace : k.trace? text = some (ks ++ [last])
  balanced : ∀ k' ∈ ks ++ [last], k'.nesting.Balanced
  after : ∀ k' ∈ ks ++ [last], k.position ≤ k'.position
  increasing : (ks ++ [last]).Pairwise (·.position < ·.position)
  inside : ∀ k' ∈ ks, k'.position < text.length ∧ k'.nesting.depth ≤ maxNesting
  last : text.length ≤ last.position ∨ maxNesting < last.nesting.depth

variable {text : List Char} {k k' last : Cursor} {ks : List Cursor}

variable (text) in
/-- The scan ends at the end of the text, or too deep. -/
theorem Ends.single (hb : k.nesting.Balanced)
    (h : text.length ≤ k.position ∨ maxNesting < k.nesting.depth) : Ends text k [] k where
  trace := by
    rw [trace?, if_neg (by omega)]
    rfl
  balanced := by simpa using hb
  after := by simp
  increasing := List.pairwise_singleton _ _
  inside := fun _ hk ↦ absurd hk List.not_mem_nil
  last := h

/-- Elsewhere it makes a step forward and goes on. -/
theorem Ends.cons (hb : k.nesting.Balanced) (hposition : k.position < text.length)
    (hdepth : k.nesting.depth ≤ maxNesting) (hstep : k.step? text = some k')
    (hlt : k.position < k'.position) (h : Ends text k' ks last) : Ends text k (k :: ks) last where
  trace := by
    rw [trace?, if_pos ⟨hposition, hdepth⟩, hstep]
    dsimp only
    rw [if_pos hlt, h.trace]
    rfl
  balanced := List.forall_mem_cons.2 ⟨hb, h.balanced⟩
  after := List.forall_mem_cons.2
    ⟨Nat.le_refl _, fun l hl ↦ Nat.le_trans (Nat.le_of_lt hlt) (h.after l hl)⟩
  increasing := List.pairwise_cons.2
    ⟨fun l hl ↦ Nat.lt_of_lt_of_le hlt (h.after l hl), h.increasing⟩
  inside := List.forall_mem_cons.2 ⟨⟨hposition, hdepth⟩, h.inside⟩
  last := h.last

/-- By induction on what is left of the text. The counts are balanced at every cursor, so that each
of its steps is the one of the scan. -/
theorem exists_ends (n : Nat) : ∀ {s : NestingScan} {i : Nat} {rest : List Char}, rest.length ≤ n →
    s.nesting.Balanced → s.StandsAt text i rest → s.nesting.depth ≤ maxNesting →
      ∃ ks last, Ends text (s.standing i) ks last ∧
        (s.accepts rest = true ↔ last.nesting.depth ≤ maxNesting) := by
  have atEnd {s : NestingScan} {i : Nat} (hb : s.nesting.Balanced) (h : s.StandsAt text i [])
      (hdepth : s.nesting.depth ≤ maxNesting) : ∃ ks last, Ends text (s.standing i) ks last ∧
        (s.accepts [] = true ↔ last.nesting.depth ≤ maxNesting) :=
    ⟨[], s.standing i, .single _ hb (.inl (List.drop_eq_nil_iff.1 h.drop_eq)),
      iff_of_true s.accepts_nil hdepth⟩
  induction n with
  | zero =>
    intro s i rest hlength hb h hdepth
    obtain rfl := List.length_eq_zero_iff.1 (Nat.le_zero.1 hlength)
    exact atEnd hb h hdepth
  | succ n ih =>
    intro s i rest hlength hb h hdepth
    cases rest with
    | nil => exact atEnd hb h hdepth
    | cons c rest =>
      obtain ⟨j, hlt, hstep, hstands⟩ := NestingScan.step?_moves hb h
      have hnext := NestingScan.balanced_step hb c rest
      have hposition := lt_length_of_drop h.drop_eq
      rw [NestingScan.accepts_cons]
      by_cases hdeep : (s.step c rest).1.nesting.depth ≤ maxNesting
      · have hshorter : (s.step c rest).2.length ≤ n :=
          Nat.le_trans (NestingScan.length_step s c rest) (Nat.le_of_succ_le_succ hlength)
        obtain ⟨ks, last, hends, haccepts⟩ := ih hshorter hnext hstands hdeep
        exact ⟨_, last, hends.cons hb hposition hdepth hstep hlt,
          (and_iff_right hdeep).trans haccepts⟩
      · have hends := Ends.single text (k := (s.step c rest).1.standing j) hnext
          (.inr (Nat.lt_of_not_le hdeep))
        exact ⟨_, _, hends.cons hb hposition hdepth hstep hlt,
          iff_of_false (fun h ↦ hdeep h.1) hdeep⟩

end Cursor

/-- The checked scan never fails, on any text. It goes forward from cursor to cursor, with balanced
counts at each of them, until the text ends or the first one that nests too deep, and the script
passes if that is not met. -/
theorem scan_is_checked (source : String) : ∃ ks last,
    Cursor.trace? source.toList .start = some (ks ++ [last]) ∧
      (∀ k ∈ ks ++ [last], k.nesting.Balanced) ∧
      (ks ++ [last]).Pairwise (·.position < ·.position) ∧
      (∀ k ∈ ks, k.position < source.length ∧ k.nesting.depth ≤ maxNesting) ∧
      (nestsShallowly source = false ↔ maxNesting < last.nesting.depth) ∧
      (nestsShallowly source = true → source.length ≤ last.position) := by
  obtain ⟨ks, last, hends, haccepts⟩ := Cursor.exists_ends _ (Nat.le_refl _)
    Nesting.balanced_start (NestingScan.standsAt_start source.toList) (Nat.zero_le _)
  have hinside := hends.inside
  have hlast := hends.last
  rw [String.length_toList] at hinside hlast
  refine ⟨ks, last, hends.trace, hends.balanced, hends.increasing, hinside, ?_, fun h ↦ ?_⟩
  · rw [← Nat.not_le, ← haccepts, nestsShallowly, Bool.not_eq_true]
  · exact hlast.resolve_right (Nat.not_lt.2 (haccepts.1 h))

end Nodecraft.Script
