import Mathlib.Algebra.GroupWithZero.Nat
import Nodecraft.Script.Nesting

/-!
# Steps of the scan

The scan for nesting keeps a count of its frames and of the chains in them beside these, and marks
the frames of template substitutions by their number. The counts are those of the frames at every
step, whatever the text (`NestingScan.balanced_step`): each operation on the frames keeps them so,
and what is taken off a count is part of it.

The stretches that the scan skips are put down character by character.
-/

set_option autoImplicit false

namespace Nodecraft.Script

namespace Nesting

/-- The counts are those of the frames. -/
structure Balanced (n : Nesting) : Prop where
  frames_ne : n.frames ≠ []
  depth_eq : n.depth = n.frames.length - 1 + n.frames.sum
  /-- The innermost mark comes first, and is the largest. -/
  marks : n.substitutions.Pairwise (· > ·)
  le_frames : ∀ m ∈ n.substitutions, m ≤ n.frames.length

/-- The scan starts with one frame and nothing open. -/
theorem balanced_start : start.Balanced where
  frames_ne := List.cons_ne_nil _ _
  depth_eq := rfl
  marks := .nil
  le_frames := fun _ hm ↦ absurd hm List.not_mem_nil

namespace Balanced

variable {n : Nesting}

theorem exists_frames (h : n.Balanced) : ∃ chains frames, n.frames = chains :: frames :=
  List.exists_cons_of_ne_nil h.frames_ne

/-- The chains of the innermost frame are counted. -/
theorem chains_le {chains : Nat} {frames : List Nat} (h : n.Balanced)
    (hframes : n.frames = chains :: frames) : chains ≤ n.depth := by
  rw [h.depth_eq, hframes, List.sum_cons]
  omega

/-- So is the bracket that opened it, if it is not the whole script. -/
theorem chains_lt {chains outer : Nat} {frames : List Nat} (h : n.Balanced)
    (hframes : n.frames = chains :: outer :: frames) : chains + 1 ≤ n.depth := by
  rw [h.depth_eq, hframes, List.sum_cons, List.length_cons, List.length_cons]
  omega

/-- No more brackets are open than are counted. -/
theorem length_le (h : n.Balanced) : n.frames.length ≤ n.depth + 1 := by
  rw [h.depth_eq]
  omega

theorem openBracket (h : n.Balanced) : n.openBracket.Balanced where
  frames_ne := List.cons_ne_nil _ _
  depth_eq := by
    have hpos := List.length_pos_iff.2 h.frames_ne
    have hdepth := h.depth_eq
    simp only [Nesting.openBracket, List.length_cons, List.sum_cons]
    omega
  marks := h.marks
  le_frames := fun m hm ↦ Nat.le_succ_of_le (h.le_frames m hm)

theorem openSubstitution (h : n.Balanced) : n.openSubstitution.Balanced where
  frames_ne := h.openBracket.frames_ne
  depth_eq := h.openBracket.depth_eq
  marks := List.pairwise_cons.2 ⟨fun m hm ↦ Nat.lt_succ_of_le (h.le_frames m hm), h.marks⟩
  le_frames := List.forall_mem_cons.2 ⟨Nat.le_refl _, h.openBracket.le_frames⟩

/-- A frame that no substitution opened is above all marks. -/
theorem lt_frames (h : n.Balanced) (hnot : n.inSubstitution = false) :
    ∀ m ∈ n.substitutions, m < n.frames.length := by
  cases hmarks : n.substitutions with
  | nil => exact fun _ hm ↦ absurd hm List.not_mem_nil
  | cons top marks =>
    have hpairwise := h.marks
    have htop := h.le_frames top (by rw [hmarks]; exact List.mem_cons_self)
    have hne : top ≠ n.frames.length := by
      simpa only [inSubstitution, hmarks, List.head?_cons, beq_eq_false_iff_ne, ne_eq,
        Option.some.injEq] using hnot
    rw [hmarks, List.pairwise_cons] at hpairwise
    intro m hm
    rcases List.mem_cons.1 hm with rfl | hm
    · omega
    · have := hpairwise.1 m hm
      omega

/-- The marks that stay when a bracket is closed are below it. -/
theorem marks_lt (h : n.Balanced) : ∀ m ∈ (if n.inSubstitution then n.substitutions.tail
    else n.substitutions), m < n.frames.length := by
  split
  · rename_i hin
    cases hmarks : n.substitutions with
    | nil => exact fun _ hm ↦ absurd hm List.not_mem_nil
    | cons top marks =>
      have hpairwise := h.marks
      have htop : top = n.frames.length := by
        simpa only [inSubstitution, hmarks, List.head?_cons, beq_iff_eq, Option.some.injEq]
          using hin
      rw [hmarks, List.pairwise_cons] at hpairwise
      exact fun m hm ↦ htop ▸ hpairwise.1 m hm
  · rename_i hnot
    exact h.lt_frames (Bool.eq_false_iff.2 hnot)

/-- What closing a bracket leaves, field by field. -/
theorem closeBracket_eq (n : Nesting) : n.closeBracket =
    { n with
      substitutions := if n.inSubstitution then n.substitutions.tail else n.substitutions
      frames := if 1 < n.frames.length then n.frames.tail else n.frames
      depth := if 1 < n.frames.length then n.depth - (n.frames.headD 0 + 1) else n.depth } := by
  unfold Nesting.closeBracket
  split
  all_goals
    rename_i hin
    obtain ⟨frames, substitutions, depth⟩ := n
    rcases frames with _ | ⟨chains, _ | ⟨outer, frames⟩⟩ <;> simp

/-- Closing takes no more off the depth than was put on for the frame. -/
theorem closeBracket (h : n.Balanced) : n.closeBracket.Balanced := by
  obtain ⟨chains, frames, hframes⟩ := h.exists_frames
  have hmarks := h.marks_lt
  have hpairwise : (if n.inSubstitution then n.substitutions.tail
      else n.substitutions).Pairwise (· > ·) := by
    split
    · exact h.marks.tail
    · exact h.marks
  rw [closeBracket_eq]
  cases frames with
  | nil =>
    rw [hframes] at hmarks
    have hdepth := h.depth_eq
    rw [hframes] at hdepth
    simp only [hframes, List.length_singleton, Nat.lt_irrefl, if_false]
    exact ⟨List.cons_ne_nil _ _, hdepth, hpairwise, fun m hm ↦ Nat.le_of_lt (hmarks m hm)⟩
  | cons outer frames =>
    have hdepth := h.depth_eq
    rw [hframes] at hmarks hdepth
    simp only [List.length_cons, List.sum_cons] at hdepth hmarks
    have hlong : 1 < (chains :: outer :: frames).length := by
      simp only [List.length_cons]
      omega
    rw [hframes, if_pos hlong, if_pos hlong]
    refine ⟨List.cons_ne_nil _ _, ?_, hpairwise, fun m hm ↦ Nat.le_of_lt_succ (hmarks m hm)⟩
    simp only [List.headD_cons, List.tail_cons, List.length_cons, List.sum_cons]
    omega

/-- A chained access is one level more in its frame. -/
theorem chain (h : n.Balanced) : n.chain.Balanced := by
  obtain ⟨chains, frames, hframes⟩ := h.exists_frames
  have hdepth := h.depth_eq
  have hle := h.le_frames
  unfold Nesting.chain
  rw [hframes] at hdepth hle ⊢
  simp only [List.length_cons, List.sum_cons] at hdepth hle
  refine ⟨List.cons_ne_nil _ _, ?_, h.marks, hle⟩
  simp only [List.length_cons, List.sum_cons]
  omega

/-- A line end takes the levels of its frame off. -/
theorem reset (h : n.Balanced) : n.reset.Balanced := by
  obtain ⟨chains, frames, hframes⟩ := h.exists_frames
  have hdepth := h.depth_eq
  have hle := h.le_frames
  unfold Nesting.reset
  rw [hframes] at hdepth hle ⊢
  simp only [List.length_cons, List.sum_cons] at hdepth hle
  refine ⟨List.cons_ne_nil _ _, ?_, h.marks, hle⟩
  simp only [List.length_cons, List.sum_cons]
  omega

end Balanced

end Nesting

namespace NestingScan

variable {s : NestingScan}

theorem previous_settleLine (s : NestingScan) (c : Char) :
    (s.settleLine c).previous = s.previous := by
  unfold settleLine
  split <;> rfl

theorem balanced_settleLine (h : s.nesting.Balanced) (c : Char) :
    (s.settleLine c).nesting.Balanced := by
  unfold settleLine
  split
  · dsimp only
    split
    · exact h
    · exact h.reset
  · exact h

theorem balanced_punctuate (h : s.nesting.Balanced) (c : Char) (next : Option Char) :
    (s.punctuate c next).Balanced := by
  unfold punctuate
  split
  case h_1 | h_2 | h_3 => exact h.openBracket
  case h_4 | h_5 | h_6 => exact h.closeBracket
  case h_7 | h_8 => exact h.reset
  case h_9 | h_10 | h_11 | h_12 =>
    split
    · exact h
    · exact h.chain
  case h_13 | h_14 => exact h.chain
  case h_15 => exact h

/-- Templates open and close substitutions in balance. -/
theorem balanced_template (s : NestingScan) {n : Nesting} (h : n.Balanced) (rest : List Char) :
    (s.template n rest).1.nesting.Balanced := by
  unfold template
  split
  · exact h.openSubstitution
  · exact h

/-- Words may end a chain, in balance. -/
theorem balanced_word (h : s.nesting.Balanced) (c : Char) (rest : List Char) :
    (s.word c rest).1.nesting.Balanced := by
  unfold word
  dsimp only
  split
  · exact h.chain
  · exact h

/-- Every token keeps the balance. -/
theorem balanced_token (h : s.nesting.Balanced) (c : Char) (rest : List Char) :
    (s.token c rest).1.nesting.Balanced := by
  have hsettled := balanced_settleLine h c
  unfold token
  dsimp only
  split
  · exact hsettled
  · split
    · exact balanced_template _ hsettled rest
    · split
      · exact balanced_template _ hsettled.closeBracket rest
      · split
        · exact hsettled
        · split
          · exact balanced_word hsettled c rest
          · exact balanced_punctuate hsettled c rest.head?

/-- Every step keeps the balance. -/
theorem balanced_step (h : s.nesting.Balanced) (c : Char) (rest : List Char) :
    (s.step c rest).1.nesting.Balanced := by
  unfold step
  split
  · exact h
  · split
    · exact h
    · exact h
    · exact balanced_token h _ _

/-- A blank is skipped, and a line end noted. -/
theorem step_blank {c : Char} (h : Text.isBlank c = true) (rest : List Char) :
    s.step c rest =
      ({ s with newLine := s.newLine || c == '\n', afterRelation := false }, rest) := by
  unfold step
  rw [if_pos h]

theorem step_lineComment (s : NestingScan) (rest : List Char) : s.step '/' ('/' :: rest) =
    ({ s with afterRelation := false }, rest.dropWhile (· != '\n')) := rfl

/-- A comment is skipped, and the line ends in it noted. -/
theorem step_blockComment (s : NestingScan) (rest : List Char) : s.step '/' ('*' :: rest) =
    ({ s with newLine := (afterBlockComment s.newLine rest).2, afterRelation := false },
      (afterBlockComment s.newLine rest).1) := rfl

/-- Whatever is neither blank nor a comment is a token. -/
theorem step_token {c : Char} {rest : List Char} (hblank : Text.isBlank c = false)
    (hline : ¬(c = '/' ∧ rest.head? = some '/')) (hblock : ¬(c = '/' ∧ rest.head? = some '*')) :
    s.step c rest = s.token c rest := by
  unfold step
  rw [if_neg (Bool.eq_false_iff.1 hblank)]
  split
  · exact absurd ⟨rfl, rfl⟩ hline
  · exact absurd ⟨rfl, rfl⟩ hblock
  · rfl

/-! What begins with a token's first character. -/

theorem settleLine_eq_self (h : s.newLine = false) (c : Char) : s.settleLine c = s := by
  unfold settleLine
  rw [h]
  rfl

/-- A string is skipped and is an operand. -/
theorem token_quote {quote : Char} (h : quote = '\'' ∨ quote = '"') (rest : List Char) :
    s.token quote rest =
      ({ s.settleLine quote with previous := some operandEnd, afterRelation := false },
        afterString quote rest) := by
  unfold token
  exact if_pos h

theorem token_template (s : NestingScan) (rest : List Char) : s.token '\x60' rest =
    (s.settleLine '\x60').template (s.settleLine '\x60').nesting rest := rfl

/-- The end of a substitution goes on with its template. -/
theorem token_resume (h : (s.settleLine '\x7d').nesting.inSubstitution = true)
    (rest : List Char) : s.token '\x7d' rest =
      (s.settleLine '\x7d').template (s.settleLine '\x7d').nesting.closeBracket rest := by
  unfold token
  rw [if_neg (by decide), if_neg (by decide), if_pos ⟨rfl, h⟩]

/-- Where an operand is expected, a slash begins a regular expression. -/
theorem token_regex (h : expectsOperand s.previous = true) (rest : List Char) :
    s.token '/' rest =
      ({ s.settleLine '/' with previous := some operandEnd, afterRelation := false },
        afterRegex rest) := by
  unfold token
  rw [if_neg (by decide), if_neg (by decide), if_neg fun h ↦ absurd h.1 (by decide),
    if_pos ⟨rfl, (previous_settleLine s '/').symm ▸ h⟩]

section

variable {c : Char} (hquote : c ∉ ['\'', '"', '\x60'])
  (hbrace : c = '\x7d' → (s.settleLine c).nesting.inSubstitution = false)
  (hslash : c = '/' → expectsOperand s.previous = false)

include hquote hbrace hslash

/-- Any other token is a word or a mark. -/
theorem token_eq (rest : List Char) : s.token c rest =
    if isScanWordChar c then (s.settleLine c).word c rest
    else ({ s.settleLine c with
      nesting := (s.settleLine c).punctuate c rest.head?
      previous := some c
      afterRelation := isRelation c }, rest) := by
  simp only [List.mem_cons, List.not_mem_nil, or_false, not_or] at hquote
  unfold token
  rw [if_neg (not_or.2 ⟨hquote.1, hquote.2.1⟩), if_neg hquote.2.2, if_neg, if_neg]
  · rintro ⟨hc, hexpects⟩
    rw [previous_settleLine, hslash hc] at hexpects
    exact Bool.false_ne_true hexpects
  · rintro ⟨hc, hin⟩
    exact Bool.false_ne_true ((hbrace hc).symm.trans hin)

/-- Words. -/
theorem token_word (hword : isScanWordChar c = true) (rest : List Char) :
    s.token c rest = (s.settleLine c).word c rest := by
  rw [token_eq hquote hbrace hslash, if_pos hword]

/-- Marks. -/
theorem token_punct (hword : isScanWordChar c = false) (rest : List Char) : s.token c rest =
    ({ s.settleLine c with
      nesting := (s.settleLine c).punctuate c rest.head?
      previous := some c
      afterRelation := isRelation c }, rest) := by
  rw [token_eq hquote hbrace hslash, if_neg (Bool.eq_false_iff.1 hword)]

end

/-- At the end of the text nothing is too deep any more. -/
theorem accepts_nil (s : NestingScan) : s.accepts [] = true := by
  rw [accepts.eq_def]

/-- A text is accepted if its first step goes no deeper than allowed and the rest is accepted. -/
theorem accepts_cons (s : NestingScan) (c : Char) (rest : List Char) :
    s.accepts (c :: rest) = true ↔ (s.step c rest).1.nesting.depth ≤ maxNesting ∧
      (s.step c rest).1.accepts (s.step c rest).2 = true := by
  rw [accepts.eq_def]
  simp only [Bool.if_false_left, Bool.and_eq_true, Bool.not_eq_true', decide_eq_false_iff_not,
    Nat.not_lt]

end NestingScan

/-! ### Skipped stretches -/

section

variable {c : Char} {rest : List Char}

/-- A pair of characters that a text does not begin with. -/
theorem not_pair_of_ne_cons {a b : Char} (h : ∀ tail, c = a → rest = b :: tail → False) :
    ¬(c = a ∧ rest.head? = some b) := by
  rintro ⟨hc, hhead⟩
  obtain ⟨tail, htail⟩ := List.head?_eq_some_iff.1 hhead
  exact h tail hc htail

theorem afterString_escape (quote : Char) (rest : List Char) :
    afterString quote ('\\' :: rest) = afterString quote rest.tail := by
  cases rest <;> simp [afterString]

/-- A string ends at its quote or with the line. -/
theorem afterString_cons (quote : Char) (h : c ≠ '\\') (rest : List Char) :
    afterString quote (c :: rest) =
      if c = quote ∨ c = '\n' then rest else afterString quote rest := by
  simp [afterString]

theorem afterTemplate_escape (rest : List Char) :
    afterTemplate ('\\' :: rest) = afterTemplate rest.tail := by
  cases rest <;> simp [afterTemplate]

theorem afterTemplate_substitution (rest : List Char) :
    afterTemplate ('$' :: '\x7b' :: rest) = (rest, true) := rfl

theorem afterTemplate_end (rest : List Char) : afterTemplate ('\x60' :: rest) = (rest, false) := rfl

/-- A template goes on to its end or to a substitution. -/
theorem afterTemplate_cons (hescape : c ≠ '\\') (hend : c ≠ '\x60')
    (h : ¬(c = '$' ∧ rest.head? = some '\x7b')) :
    afterTemplate (c :: rest) = afterTemplate rest := by
  by_cases hc : c = '$'
  · subst hc
    cases rest with
    | nil => rfl
    | cons d rest =>
      have hd : d ≠ '\x7b' := fun hd ↦ h ⟨rfl, congrArg some hd⟩
      simp [afterTemplate, hd]
  · simp [afterTemplate]

theorem afterRegexBody_escape (inClass : Bool) (rest : List Char) :
    afterRegexBody inClass ('\\' :: rest) = afterRegexBody inClass rest.tail := by
  cases rest <;> simp [afterRegexBody]

/-- A regular expression ends at a slash outside of classes, or with the line. -/
theorem afterRegexBody_cons (inClass : Bool) (h : c ≠ '\\') (rest : List Char) :
    afterRegexBody inClass (c :: rest) =
      if c = '[' then afterRegexBody true rest
      else if c = ']' then afterRegexBody false rest
      else if c = '/' ∧ inClass = false then rest
      else if c = '\n' then '\n' :: rest
      else afterRegexBody inClass rest := by
  by_cases hopen : c = '['
  · simp [hopen, afterRegexBody]
  by_cases hclose : c = ']'
  · simp [hclose, afterRegexBody]
  by_cases hslash : c = '/'
  · cases inClass <;> simp [hslash, afterRegexBody]
  by_cases hline : c = '\n'
  · simp [hline, afterRegexBody]
  · simp [afterRegexBody, hopen, hclose, hslash, hline]

theorem afterBlockComment_end (newLine : Bool) (rest : List Char) :
    afterBlockComment newLine ('*' :: '/' :: rest) = (rest, newLine) := rfl

/-- A comment goes on to its end. -/
theorem afterBlockComment_cons (newLine : Bool) (h : ¬(c = '*' ∧ rest.head? = some '/')) :
    afterBlockComment newLine (c :: rest) = afterBlockComment (newLine || c == '\n') rest := by
  by_cases hc : c = '*'
  · subst hc
    cases rest with
    | nil => rfl
    | cons d rest =>
      have hd : d ≠ '/' := fun hd ↦ h ⟨rfl, congrArg some hd⟩
      simp [afterBlockComment, hd]
  · simp [afterBlockComment, hc]

end

end Nodecraft.Script
