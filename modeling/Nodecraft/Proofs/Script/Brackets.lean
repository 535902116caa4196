import Nodecraft.Proofs.Script.Places
import Nodecraft.Script.Reading

/-!
# Brackets within the limit, and brackets that the scan does not see

The scan for nesting stays with a reading of the tokens for as long as it misreads nothing: over
the gap before a token (`Place.tracked_gap`), over the token itself (`Place.Tracked.behind`), and so
over the whole reading (`Place.Reached.length_read_le`). Where the two are at one place, every
bracket that is open in the reading has a frame in the scan, which lets none beyond the limit pass.
A name or number can end inside of what the scan takes for a word, and a regular expression's flags
before what it takes for letters. No token begins where that happens, and the reading ends there.

So a script that passes the scan has no more brackets open than levels are allowed, unless something
is misread (`brackets_within_limit`). None of the ways of misreading can be left out of this: behind
a few characters of each the scan sees none of the brackets that follow (`Misreading.concealing`).
The one that scripts come upon is the slash, which the scan tells by the character before it: an
operator behind its operand, as in `a++ / 2`, seems to await another one, and the rest of the line
is skipped as a regular expression (`countingAndBracketed`).
-/

set_option autoImplicit false

namespace Nodecraft.Script

namespace Place

section

variable {opened : List Bracket} {awaiting : Bool} {cs rest : List Char}

/-! ### Gaps -/

/-- Where the scan is when the language is in a gap. -/
def scanned : Lexer.Gap → List Char → List Char
  | .blank, cs => cs
  | .lineComment, cs => cs.dropWhile (· != '\n')
  | .blockComment, cs => (afterBlockComment false cs).1

/-- A line of blanks is skipped. -/
theorem accepts_unbroken {s : NestingScan} (hdepth : s.nesting.depth ≤ maxNesting)
    (hrelation : s.afterRelation = false)
    (hblank : (cs.takeWhile (· != '\n')).all Text.isBlank = true)
    (h : s.accepts (cs.dropWhile (· != '\n')) = true) : s.accepts cs = true := by
  induction cs with
  | nil => exact h
  | cons c cs ih =>
    by_cases hc : c = '\n'
    · rwa [List.dropWhile_cons_of_neg (by simp [hc])] at h
    · rw [List.dropWhile_cons_of_pos (by simp [hc])] at h
      rw [List.takeWhile_cons_of_pos (by simp [hc]), List.all_cons, Bool.and_eq_true] at hblank
      have hstep : s.step c cs = (s, cs) := by
        obtain ⟨nesting, previous, newLine, afterRelation⟩ := s
        subst hrelation
        rw [NestingScan.step_blank hblank.1]
        simp [hc]
      rw [NestingScan.accepts_cons, hstep]
      exact ⟨hdepth, ih hblank.2 h⟩

/-- Blanks before the next line feed make no difference to the scan behind a line comment. -/
theorem tracked_unbroken (hblank : (cs.takeWhile (· != '\n')).all Text.isBlank = true)
    (h : Tracked ⟨opened, awaiting, cs.dropWhile (· != '\n')⟩) :
    Tracked ⟨opened, awaiting, cs⟩ := by
  obtain ⟨s, hs⟩ := h
  refine ⟨{ s with afterRelation := false }, hs.holds, hs.previous, hs.depth_le, ?_⟩
  refine accepts_unbroken hs.depth_le rfl hblank ?_
  have haccepts := hs.accepts
  dsimp only at haccepts ⊢
  have hstops := List.head?_dropWhile_not (· != '\n') cs
  cases hrest : cs.dropWhile (· != '\n') with
  | nil => exact NestingScan.accepts_nil _
  | cons c rest =>
    rw [hrest] at haccepts hstops
    have hc : c = '\n' := by simpa using hstops
    subst hc
    rw [NestingScan.accepts_cons, NestingScan.step_blank (by decide)] at haccepts ⊢
    exact haccepts

/-- White space marks nothing. -/
theorem isMarked_space {c : Char} (hc : Lexer.isSpace c = true ∨ Lexer.isLineEnd c = true) :
    isMarked .blank (c :: cs) = (c == '\uFEFF' || isMarked .blank cs) := by
  have hslash : c ≠ '/' := by
    rintro rfl
    exact absurd hc (by decide)
  rcases hc with hc | hc <;> simp [isMarked, hslash, hc]

/-- White space runs on to nothing. -/
theorem runsOn_space {c : Char} (hc : Lexer.isSpace c = true ∨ Lexer.isLineEnd c = true) :
    runsOn .blank (c :: cs) = runsOn .blank cs := by
  have hslash : c ≠ '/' := by
    rintro rfl
    exact absurd hc (by decide)
  rcases hc with hc | hc <;> simp [runsOn, hslash, hc]

/-- The scan takes a byte order mark for the end of an operand. -/
theorem tracked_space {c : Char} (hc : Lexer.isSpace c = true ∨ Lexer.isLineEnd c = true)
    (h : Tracked ⟨opened, awaiting, c :: cs⟩) :
    Tracked ⟨opened, awaiting && !(c == '\uFEFF'), cs⟩ := by
  rcases isBlank_of_isGap hc with rfl | hblank
  · rw [beq_self_eq_true, Bool.not_true, Bool.and_false]
    exact tracked_plain (by decide) (not_isScanWordChar (by decide)) h
  · have hmark : (c == '\uFEFF') = false := by
      rw [beq_eq_false_iff_ne]
      rintro rfl
      exact Bool.false_ne_true hblank
    rw [hmark, Bool.not_false, Bool.and_true]
    exact tracked_blank hblank h

/-- The scan keeps track over a gap. -/
theorem tracked_gap {gap : Lexer.Gap} {newLine newLine' : Bool}
    (h : Lexer.skipGap? newLine gap cs = some (newLine', rest)) (hruns : runsOn gap cs = false)
    (hscan : Tracked ⟨opened, awaiting, scanned gap cs⟩) :
    Tracked ⟨opened, awaiting && !isMarked gap cs, rest⟩ := by
  fun_induction Lexer.skipGap? newLine gap cs generalizing awaiting
  case case1 => cases h
  case case2 gap hgap =>
    cases h
    cases gap with
    | blockComment => exact absurd rfl hgap
    | blank | lineComment => simpa [isMarked, scanned] using hscan
  case case3 cs ih => exact ih h hruns (tracked_lineComment hscan)
  case case4 cs ih => exact ih h hruns (tracked_blockComment hscan)
  case case5 c cs hline hblock hend ih =>
    rw [isMarked_space (.inr hend), Bool.not_or, ← Bool.and_assoc]
    exact ih h (runsOn_space (.inr hend) ▸ hruns) (tracked_space (.inr hend) hscan)
  case case6 c cs hline hblock hend hspace ih =>
    rw [isMarked_space (.inl hspace), Bool.not_or, ← Bool.and_assoc]
    exact ih h (runsOn_space (.inl hspace) ▸ hruns) (tracked_space (.inl hspace) hscan)
  case case7 c cs hline hblock hend hspace =>
    have hmarked : isMarked .blank (c :: cs) = false := by
      simp [isMarked, hspace, hend]
    cases h
    rw [hmarked, Bool.not_false, Bool.and_true]
    exact hscan
  case case8 c cs hend ih =>
    simp only [runsOn, hend, if_true, Bool.or_eq_false_iff] at hruns
    simp only [isMarked, hend, if_true]
    refine ih h hruns.2 ?_
    by_cases hc : c = '\n'
    · rw [scanned, List.dropWhile_cons_of_neg (by simp [hc])] at hscan
      exact tracked_blank (hc ▸ by decide) hscan
    · rw [scanned, List.dropWhile_cons_of_pos (by simp [hc])] at hscan
      have hblank : (cs.takeWhile (· != '\n')).all Text.isBlank = true := by
        simpa [hc] using hruns.1
      exact tracked_unbroken hblank hscan
  case case9 c cs hend ih =>
    have hc : c ≠ '\n' := by
      rintro rfl
      exact hend rfl
    simp only [runsOn, isMarked, hend] at hruns ⊢
    rw [scanned, List.dropWhile_cons_of_pos (by simp [hc])] at hscan
    exact ih h hruns hscan
  case case10 ih => exact ih h hruns hscan
  case case11 c cs hnot ih =>
    have hmarked : isMarked .blockComment (c :: cs) = isMarked .blockComment cs := by
      simp [isMarked]
    have hruns' : runsOn .blockComment (c :: cs) = runsOn .blockComment cs := by
      simp [runsOn]
    rw [hmarked]
    refine ih h (hruns' ▸ hruns) ?_
    rw [scanned, afterBlockComment_cons _ (not_pair_of_ne_cons hnot),
      afterBlockComment_fst _ false] at hscan
    exact hscan

/-! ### Tokens -/

/-- Where a reading has come to with the scan behind it. -/
structure Reached (p : Place) : Prop where
  length_le : p.opened.length ≤ maxNesting
  tracked : Lexer.next? p.rest = none ∨ p.Tracked

/-- Where it keeps track, the place is reached. -/
theorem Tracked.reached {p : Place} (h : p.Tracked) : p.Reached := ⟨h.length_le, .inr h⟩

/-- So it is behind a word. -/
theorem Midword.reached (h : Midword ⟨opened, awaiting, rest⟩) (hstops : Lexer.Stops rest) :
    Reached ⟨opened, awaiting, rest⟩ := ⟨h.length_le, h.settled hstops⟩

/-- Behind a string. -/
theorem reached_string {quote : Char} {s : String} (hquote : quote = '"' ∨ quote = '\'')
    (hbody : Lexer.stringBody? quote (cs.length + 1) [] cs = some (s, rest))
    (hunbroken : ¬['\r', '\n'] <:+: (quote :: cs).take ((quote :: cs).length - rest.length))
    (h : Tracked ⟨opened, awaiting, quote :: cs⟩) : Reached ⟨opened, false, rest⟩ := by
  obtain ⟨t, rfl, ht⟩ := Lexer.stringBody?_skipped hquote hbody
  have htext : (quote :: (t ++ rest)).take ((quote :: (t ++ rest)).length - rest.length) =
      quote :: t := by
    rw [← List.cons_append, List.length_append, Nat.add_sub_cancel, List.take_left]
  rw [htext] at hunbroken
  have hrest := ht fun hin ↦ hunbroken (hin.trans (List.suffix_cons quote t).isInfix)
  exact (hrest ▸ tracked_string hquote h).reached

/-- Behind a number. -/
theorem reached_number {c : Char} (hc : c.isDigit = true ∨ c = '.')
    (htakes : Lexer.Takes cs rest) (hstops : Lexer.Stops rest)
    (h : Tracked ⟨opened, awaiting, c :: cs⟩) : Reached ⟨opened, false, rest⟩ := by
  have hbehind : Midword ⟨opened, false, cs⟩ := by
    rcases hc with hdigit | rfl
    · exact Midword.part (isIdentifierPart_of_isDigit hdigit) (.inl h)
    · exact Midword.plain (c := '.') (by decide) (.inl h)
  exact (hbehind.takes htakes).reached hstops

/-- Behind a private name. -/
theorem reached_privateName {name : String} {escaped : Bool}
    (hname : Lexer.name? cs = some (name, escaped, rest))
    (h : Tracked ⟨opened, awaiting, '#' :: cs⟩) : Reached ⟨opened, false, rest⟩ := by
  have hbehind := tracked_plain (by decide) (not_isScanWordChar (by decide)) h
  obtain ⟨hend, hstops⟩ := Midword.name hname (.inl hbehind)
  exact hend.reached hstops

/-- Behind a regular expression. -/
theorem reached_regex (hcomment : cs.head? ≠ some '/' ∧ cs.head? ≠ some '*')
    (hregex : Lexer.afterRegex? cs = some rest) (h : Tracked ⟨opened, true, '/' :: cs⟩) :
    Reached ⟨opened, false, rest⟩ := by
  have hbehind := tracked_regex hcomment h
  refine ⟨hbehind.length_le, ?_⟩
  rcases Lexer.afterRegex?_skipped hregex with hrest | hnone
  · exact .inr (hrest ▸ hbehind)
  · exact .inl hnone

theorem Tracked.stretch {t : List Char} (ht : ∀ c ∈ t, isPlain c = true ∧ c ∈ wordless)
    (h : Tracked ⟨opened, awaiting, t ++ rest⟩) :
    Tracked ⟨opened, t.getLast?.elim awaiting fun c ↦ expectsOperand (some c), rest⟩ :=
  Place.stretch (P := fun awaiting rest ↦ Tracked ⟨opened, awaiting, rest⟩)
    (fun _ _ _ hc h ↦ tracked_plain hc.1 (not_isScanWordChar hc.2) h) ht h

/-- An opening bracket opens. -/
theorem punctuate_open {text : String} {b : Bracket} (h : Bracket.opened? text = some b) :
    punctuate opened text = b :: opened := by
  rw [punctuate, h]

/-- A closing bracket closes the innermost one of its kind. -/
theorem punctuate_close {text : String} {b : Bracket} (hopen : Bracket.opened? text = none)
    (hclose : Bracket.closed? text = some b) (hinnermost : ∀ innermost ∈ opened.head?,
      innermost = b) : punctuate opened text = opened.tail := by
  rw [punctuate, hopen, hclose]
  cases opened with
  | nil => rfl
  | cons innermost opened => exact if_pos (congrArg some (hinnermost innermost rfl))

/-- A punctuator of plain characters is no bracket. -/
theorem punctuate_operator {p : List Char} (hplain : ∀ c ∈ p, isPlain c = true) :
    punctuate opened (String.ofList p) = opened := by
  have hne {c : Char} (hc : isPlain c = false) : String.ofList p ≠ String.ofList [c] := by
    intro h
    have hmem : c ∈ p := String.ofList_injective h ▸ List.mem_singleton_self c
    exact Bool.false_ne_true (hc.symm.trans (hplain c hmem))
  have hopen : Bracket.opened? (String.ofList p) = none := by
    rw [Bracket.opened?, if_neg (hne (c := '(') (by decide)), if_neg (hne (c := '[') (by decide)),
      if_neg (hne (c := '\x7b') (by decide))]
  have hclose : Bracket.closed? (String.ofList p) = none := by
    rw [Bracket.closed?, if_neg (hne (c := ')') (by decide)), if_neg (hne (c := ']') (by decide)),
      if_neg (hne (c := '\x7d') (by decide))]
  rw [punctuate, hopen, hclose]

/-- A punctuator does to the open brackets of a reading what it does to the scan's. -/
theorem tracked_punct {p : List Char} (hp : p ∈ Lexer.punctuators)
    (hclosed : ∀ innermost ∈ opened.head?, ∀ closed ∈ Bracket.closed? (String.ofList p),
      innermost = closed)
    (hslash : p.head? = some '/' → awaiting = false)
    (hcomment : p = ['/'] → rest.head? ≠ some '/' ∧ rest.head? ≠ some '*')
    (h : Tracked ⟨opened, awaiting, p ++ rest⟩) :
    Tracked ⟨punctuate opened (String.ofList p), expectsOperand p.getLast?, rest⟩ := by
  have hopen {c : Char} {b : Bracket}
      (hb : (c, b) ∈ [('(', Bracket.round), ('[', .square), ('\x7b', .curly)])
      (htext : Bracket.opened? (String.ofList [c]) = some b)
      (hlast : expectsOperand [c].getLast? = true) (h : Tracked ⟨opened, awaiting, c :: rest⟩) :
      Tracked ⟨punctuate opened (String.ofList [c]), expectsOperand [c].getLast?, rest⟩ := by
    rw [punctuate_open htext, hlast]
    exact tracked_open hb h
  have hclose {c : Char} {b : Bracket} (hc : c ∈ [')', ']', '\x7d'])
      (hnone : Bracket.opened? (String.ofList [c]) = none)
      (htext : Bracket.closed? (String.ofList [c]) = some b) (hb : b ≠ .substitution)
      (hlast : expectsOperand [c].getLast? = false)
      (hclosed : ∀ innermost ∈ opened.head?, innermost = b)
      (h : Tracked ⟨opened, awaiting, c :: rest⟩) :
      Tracked ⟨punctuate opened (String.ofList [c]), expectsOperand [c].getLast?, rest⟩ := by
    rw [punctuate_close hnone htext hclosed, hlast]
    exact tracked_close hc (fun _ hhead ↦ hb (hclosed _ hhead).symm) h
  rcases Lexer.punctuators_cases hp with hbracket | rfl | rfl | ⟨hne, hplain⟩
  · simp only [List.mem_cons, List.not_mem_nil, or_false] at hbracket
    rcases hbracket with rfl | rfl | rfl | rfl | rfl | rfl
    · exact hopen (b := .round) (by decide) (by decide) (by decide) h
    · exact hopen (b := .square) (by decide) (by decide) (by decide) h
    · exact hopen (b := .curly) (by decide) (by decide) (by decide) h
    · exact hclose (b := .round) (by decide) (by decide) (by decide) (by decide) (by decide)
        (fun innermost h ↦ hclosed innermost h .round (by decide)) h
    · exact hclose (b := .square) (by decide) (by decide) (by decide) (by decide) (by decide)
        (fun innermost h ↦ hclosed innermost h .square (by decide)) h
    · exact hclose (b := .curly) (by decide) (by decide) (by decide) (by decide) (by decide)
        (fun innermost h ↦ hclosed innermost h .curly (by decide)) h
  · obtain rfl := hslash rfl
    have hslash : punctuate opened (String.ofList ['/']) = opened := by rfl
    rw [hslash]
    exact tracked_slash (hcomment rfl) h
  · obtain rfl := hslash rfl
    have hslash : punctuate opened (String.ofList ['/', '=']) = opened := by rfl
    rw [hslash]
    have hequals : Tracked ⟨opened, true, '=' :: rest⟩ :=
      tracked_slash ⟨by simp, by simp⟩ h
    exact tracked_plain (by decide) (not_isScanWordChar (by decide)) hequals
  · rw [punctuate_operator fun c hc ↦ (hplain c hc).1]
    have hbehind := h.stretch hplain
    rw [List.getLast?_eq_some_getLast hne] at hbehind ⊢
    exact hbehind

/-- Behind a punctuator. -/
theorem reached_punct {p q : Place} {operand newLine : Bool} {text : List Char}
    (htext : text ∈ Lexer.punctuators)
    (hgap : Lexer.skipGap? false .blank p.rest = some (newLine, text ++ rest))
    (hread : ∀ m, m ≠ Misreading.hashbang →
      ¬p.misreads operand ⟨.punct (String.ofList text), newLine, text ++ rest, rest⟩ m = true)
    (hbehind : p.behind? operand ⟨.punct (String.ofList text), newLine, text ++ rest, rest⟩ =
      some q)
    (hstart : Tracked ⟨p.opened, p.awaiting && !isMarked .blank p.rest, text ++ rest⟩) :
    q.Reached := by
  have hoperand (hhead : (text ++ rest).head? = some '/') :
      operand = (p.awaiting && !isMarked .blank p.rest) := by
    have hslash := hread .slash (by decide)
    simpa [misreads, hhead] using hslash
  dsimp only [behind?] at hbehind
  split at hbehind
  · rename_i hregex
    rw [Bool.and_eq_true, beq_iff_eq] at hregex
    obtain ⟨after, hafter, rfl⟩ := Option.map_eq_some_iff.1 hbehind
    rw [← hoperand hregex.2, hregex.1] at hstart
    obtain ⟨tail, htail⟩ := List.head?_eq_some_iff.1 hregex.2
    rw [htail] at hstart hgap hafter
    exact reached_regex (Lexer.skipGap?_ne_comment hgap) hafter hstart
  split at hbehind
  · rename_i hresume
    rw [Bool.and_eq_true, beq_iff_eq, beq_iff_eq] at hresume
    obtain rfl : text = ['\x7d'] := String.ofList_injective hresume.1
    obtain ⟨opened, hopened⟩ := List.head?_eq_some_iff.1 hresume.2
    split at hbehind
    · rename_i txt last after htemplate
      cases hbehind
      obtain ⟨txt, last, heq, hafter⟩ := Lexer.templateBody?_skipped htemplate
      cases heq
      rw [hopened] at hstart ⊢
      exact (tracked_resumed hafter hstart).reached
    · exact nomatch hbehind
  · rename_i hregex hresume
    cases hbehind
    rw [String.toList_ofList]
    refine (tracked_punct htext (fun innermost hinnermost closed hclosed ↦ ?_) (fun hhead ↦ ?_)
      (fun hone ↦ ?_) hstart).reached
    · have hstray := hread .stray (by decide)
      dsimp only [misreads] at hstray
      rw [hinnermost, hclosed] at hstray
      cases innermost with
      | substitution =>
        have hcurly : closed = .curly := by simpa using hstray
        have hbrace := Bracket.eq_of_closed?_curly (hcurly ▸ hclosed)
        exact absurd (Bool.and_eq_true_iff.2 ⟨beq_iff_eq.2 hbrace, beq_iff_eq.2 hinnermost⟩) hresume
      | round | square | curly => exact Eq.symm (by simpa using hstray)
    · have hslash : (text ++ rest).head? = some '/' := by rw [List.head?_append, hhead]; rfl
      rw [← hoperand hslash]
      simpa [hslash] using hregex
    · rw [hone] at hgap
      exact Lexer.skipGap?_ne_comment hgap

/-- A token that the scan does not misread leads from place to place. -/
theorem Tracked.behind {p q : Place} {operand : Bool} {l : Lexeme} (h : p.Tracked)
    (hnext : Lexer.next? p.rest = some l) (hbehind : p.behind? operand l = some q)
    (hnone : p.misreadingsAt operand l = []) : q.Reached := by
  obtain ⟨token, newLine, start, rest⟩ := l
  obtain ⟨hgap, hreads⟩ := Lexer.next?_eq_some hnext
  have hread (m : Misreading) (hm : m ≠ .hashbang) : ¬p.misreads operand _ m = true :=
    List.filter_eq_nil_iff.1 hnone m (by cases m <;> first | decide | exact absurd rfl hm)
  have hruns := Bool.eq_false_iff.2 (hread .comment (by decide))
  have hstart := tracked_gap hgap hruns h
  dsimp only at hgap hreads hstart
  cases hreads with
  | endOfText => exact nomatch hbehind
  | string hquote hbody =>
    cases hbehind
    exact reached_string hquote hbody
      (fun hin ↦ hread .continuation (by decide) (decide_eq_true hin)) hstart
  | template htemplate =>
    obtain ⟨text, last, rfl, hafter⟩ := Lexer.templateBody?_skipped htemplate
    cases hbehind
    exact (tracked_template hafter hstart).reached
  | privateName hname =>
    cases hbehind
    exact reached_privateName hname hstart
  | number hc hnumber =>
    obtain ⟨htakes, hnumeral, hstops⟩ := Lexer.number?_takes hc hnumber
    have heq : q = ⟨p.opened, false, rest⟩ := by
      rcases hnumeral with rfl | ⟨x, rfl⟩ <;> exact (Option.some.inj hbehind).symm
    exact heq ▸ reached_number hc htakes hstops hstart
  | name hname =>
    cases hbehind
    obtain ⟨hend, hstops⟩ := Midword.name hname (.inl hstart)
    exact hend.reached hstops
  | punct hpunct =>
    obtain ⟨text, htext, rfl, rfl⟩ := Lexer.punctuator?_eq_some hpunct
    exact reached_punct htext hgap hread hbehind hstart

/-! ### Readings -/

/-- Without a misreading the scan stays behind the reading. -/
theorem Reached.length_read_le {p q : Place} {goals : List Bool} (h : p.Reached)
    (hread : p.read? goals = some q) (hnone : p.misreadings goals = []) :
    q.opened.length ≤ maxNesting := by
  induction goals generalizing p with
  | nil => exact Option.some.inj hread ▸ h.length_le
  | cons operand goals ih =>
    obtain ⟨next, hnext, hread⟩ := Option.bind_eq_some_iff.1 hread
    rw [misreadings, hnext] at hnone
    obtain ⟨l, hl, hbehind⟩ := Option.bind_eq_some_iff.1 hnext
    rw [hl, List.append_eq_nil_iff] at hnone
    have htracked := h.tracked.resolve_left (hl ▸ nofun)
    exact ih (htracked.behind hl hbehind hnone.1) hread hnone.2

/-- At the start, nothing has been lost track of. -/
theorem tracked_start {source : String} (haccepted : nestsShallowly source = true)
    (hnone : "#!".toList.isPrefixOf source.toList = false) : (start source).Tracked := by
  have hrest : Lexer.afterHashbang source.toList = source.toList := by
    unfold Lexer.afterHashbang
    split
    · rename_i heq
      rw [heq] at hnone
      exact nomatch hnone
    · rfl
  refine ⟨.start, .start, rfl, Nat.zero_le _, ?_⟩
  rw [start, hrest]
  exact haccepted

end

/-! ### Readings that misread -/

section

/-- A reading that leads from one place to another, with no misreading but of one kind. -/
def Leads (m : Misreading) (p q : Place) : Prop :=
  ∃ goals, p.read? goals = some q ∧ ∀ k ∈ p.misreadings goals, k = m

variable {m : Misreading} {p q r : Place}

theorem Leads.refl (m : Misreading) (p : Place) : Leads m p p :=
  ⟨[], rfl, fun _ hk ↦ absurd hk List.not_mem_nil⟩

/-- A token at which the grammar awaits no operand, and a reading from there. -/
theorem Leads.cons {l : Lexeme} (hnext : Lexer.next? p.rest = some l)
    (hbehind : p.behind? false l = some q) (hmisread : ∀ k, p.misreads false l k = true → k = m)
    (h : Leads m q r) : Leads m p r := by
  obtain ⟨goals, hread, hgoals⟩ := h
  have hq : p.next? false = some q := by rw [next?, hnext]; exact hbehind
  refine ⟨false :: goals, by rw [read?, hq]; exact hread, ?_⟩
  rw [misreadings, hnext, hq]
  exact fun k hk ↦ (List.mem_append.1 hk).elim
    (fun hk ↦ hmisread k (List.mem_filter.1 hk).2) (hgoals k)

end

end Place

/-! ### Screens -/

namespace Misreading

/-- Behind these characters the scan sees none of the tokens that the language sees. -/
def screen : Misreading → List Char
  | .hashbang => ['#', '!', '/', '*', '\n', ';']
  | .comment => ['/', '/', '\r', ';']
  | .slash => ['a', '+', '+', '/', 'b', ';']
  | .continuation => ['\'', '\\', '\r', '\n', '\'', ';']
  | .stray => []

/-- A bracket that stays open. Without a screen it is hidden by one of another kind. -/
def opening : Misreading → List Char
  | .stray => ['[', ')']
  | _ => ['[']

def brackets (m : Misreading) (n : Nat) : List Char := (List.replicate n m.opening).flatten

theorem brackets_eq_replicate {m : Misreading} (hm : m ≠ .stray) (n : Nat) :
    m.brackets n = List.replicate n '[' := by
  cases m with
  | stray => exact absurd rfl hm
  | hashbang | comment | slash | continuation => exact List.flatten_replicate_singleton

/-- Only one of the texts begins with a hashbang. -/
theorem eq_hashbang_of_isPrefixOf {m : Misreading} {n : Nat}
    (h : "#!".toList.isPrefixOf (m.screen ++ m.brackets n) = true) : m = .hashbang := by
  cases m with
  | hashbang => rfl
  | comment | slash | continuation => exact nomatch h
  | stray => cases n <;> exact nomatch h

theorem afterHashbang_brackets (m : Misreading) (n : Nat) :
    Lexer.afterHashbang (m.brackets n) = m.brackets n := by
  cases n with
  | zero => rfl
  | succ n => cases m <;> rfl

/-- A script that has opened a number of brackets at its end. -/
def concealing (m : Misreading) (n : Nat) : String := String.ofList (m.screen ++ m.brackets n)

theorem toList_concealing (m : Misreading) (n : Nat) :
    (m.concealing n).toList = m.screen ++ m.brackets n := String.toList_ofList

end Misreading

namespace Place

section

variable {m : Misreading} {opened : List Bracket} {awaiting newLine : Bool}
  {cs start rest : List Char} {r : Place}

/-- An operator, which begins with a slash only if that is what is misread. -/
theorem leads_operator {text : String}
    (hnext : Lexer.next? cs = some ⟨.punct text, newLine, start, rest⟩)
    (hopen : Bracket.opened? text = none) (hclose : Bracket.closed? text = none)
    (hruns : runsOn .blank cs = true → m = .comment) (hslash : start.head? = some '/' → m = .slash)
    (h : Leads m ⟨opened, expectsOperand text.toList.getLast?, rest⟩ r) :
    Leads m ⟨opened, awaiting, cs⟩ r := by
  refine .cons hnext ?_ (fun k hk ↦ ?_) h
  · have hbrace : (text == "\x7d") = false := by
      rw [beq_eq_false_iff_ne]
      rintro rfl
      exact nomatch hclose
    simp [behind?, punctuate, hopen, hclose, hbrace]
  · cases k with
    | comment => exact (hruns hk).symm
    | slash =>
      rw [misreads, Bool.and_eq_true, beq_iff_eq] at hk
      exact (hslash hk.1).symm
    | stray => simp [misreads, hclose] at hk
    | hashbang | continuation => exact nomatch hk

/-- A name leads on. -/
theorem leads_name {text : String}
    (hnext : Lexer.next? cs = some ⟨.name text false, newLine, start, rest⟩)
    (hruns : runsOn .blank cs = false) (hslash : start.head? ≠ some '/')
    (h : Leads m ⟨opened, false, rest⟩ r) : Leads m ⟨opened, awaiting, cs⟩ r := by
  refine .cons hnext rfl (fun k hk ↦ ?_) h
  cases k with
  | comment => exact absurd hk (Bool.eq_false_iff.1 hruns)
  | slash =>
    rw [misreads, Bool.and_eq_true, beq_iff_eq] at hk
    exact absurd hk.1 hslash
  | hashbang | continuation | stray => exact nomatch hk

theorem not_name : (Text.isIdentifierStart '[' = false ∧ Text.isIdentifierStart ')' = false ∧
    Text.isIdentifierStart ';' = false) ∧ Text.isIdentifierStart '+' = false ∧
      Text.isIdentifierStart '/' = false ∧ Text.isIdentifierPart '+' = false ∧
      Text.isIdentifierPart ';' = false :=
  ⟨⟨not_isIdentifierStart (by decide), not_isIdentifierStart (by decide),
    not_isIdentifierStart (by decide)⟩, not_isIdentifierStart (by decide),
    not_isIdentifierStart (by decide), not_isIdentifierPart (by decide),
    not_isIdentifierPart (by decide)⟩

/-- A bracket is one token. -/
theorem next?_bracket {c : Char} (hc : c = '[' ∨ c = ')') (cs : List Char) :
    Lexer.next? (c :: cs) = some ⟨.punct (String.ofList [c]), false, c :: cs, cs⟩ := by
  rcases hc with rfl | rfl
  all_goals simp [Lexer.next?, Lexer.skipGap?, Lexer.isLineEnd, Lexer.isSpace, Lexer.token?,
    not_name, Lexer.punctuator?, Lexer.punctuators, Char.isDigit]

/-- An opening bracket leads on, one level deeper. -/
theorem leads_open (h : Leads m ⟨.square :: opened, true, cs⟩ r) :
    Leads m ⟨opened, awaiting, '[' :: cs⟩ r := by
  have hexpects : expectsOperand (some '[') = true := by decide
  refine .cons (next?_bracket (by decide) cs) (q := ⟨.square :: opened, true, cs⟩) ?_ ?_ h
  · simp [behind?, punctuate, Bracket.opened?, hexpects]
  · intro k hk
    cases k <;> simp [misreads, runsOn, Lexer.isLineEnd, Lexer.isSpace, Bracket.closed?] at hk

/-- So does a closing bracket of another kind, which closes nothing. -/
theorem leads_stray (h : Leads .stray ⟨.square :: opened, false, cs⟩ r) :
    Leads .stray ⟨.square :: opened, awaiting, ')' :: cs⟩ r := by
  have hexpects : expectsOperand (some ')') = false := by decide
  refine .cons (next?_bracket (by decide) cs) (q := ⟨.square :: opened, false, cs⟩) ?_ ?_ h
  · simp [behind?, punctuate, Bracket.opened?, Bracket.closed?, hexpects]
  · intro k hk
    cases k <;> simp [misreads, runsOn, Lexer.isLineEnd, Lexer.isSpace] at hk ⊢

/-- Any number of opening brackets. -/
theorem leads_brackets (m : Misreading) (n : Nat) (opened : List Bracket) (awaiting : Bool) :
    ∃ r : Place, r.opened.length = opened.length + n ∧
      Leads m ⟨opened, awaiting, m.brackets n⟩ r := by
  induction n generalizing opened awaiting with
  | zero => exact ⟨_, rfl, .refl m _⟩
  | succ n ih =>
    by_cases hm : m = .stray
    · subst hm
      obtain ⟨r, hlength, h⟩ := ih (.square :: opened) false
      exact ⟨r, by rw [hlength, List.length_cons]; omega, leads_open (leads_stray h)⟩
    · obtain ⟨r, hlength, h⟩ := ih (.square :: opened) true
      rw [Misreading.brackets_eq_replicate hm] at h ⊢
      exact ⟨r, by rw [hlength, List.length_cons]; omega, leads_open h⟩

/-- A semicolon leads on. -/
theorem leads_terminator (newLine : Bool)
    (hnext : Lexer.next? cs = some ⟨.punct ";", newLine, ';' :: rest, rest⟩)
    (hruns : runsOn .blank cs = true → m = .comment) (h : Leads m ⟨opened, true, rest⟩ r) :
    Leads m ⟨opened, awaiting, cs⟩ r :=
  leads_operator hnext (by decide) (by decide) hruns nofun h

theorem leads_semicolon (h : Leads m ⟨opened, true, cs⟩ r) :
    Leads m ⟨opened, awaiting, ';' :: cs⟩ r := by
  refine leads_terminator false ?_ ?_ h
  all_goals simp [Lexer.next?, Lexer.skipGap?, Lexer.isLineEnd, Lexer.isSpace, Lexer.token?,
    not_name, Lexer.punctuator?, Lexer.punctuators, Char.isDigit, runsOn]

/-- The grammar sees a quotient of `a++` and `b`. -/
theorem leads_quotient (h : Leads .slash ⟨opened, true, cs⟩ r) :
    Leads .slash ⟨opened, awaiting, 'a' :: '+' :: '+' :: '/' :: 'b' :: ';' :: cs⟩ r := by
  have hletters : Text.isIdentifierStart 'a' = true ∧ Text.isIdentifierStart 'b' = true := by
    exact ⟨((isAlphanum_spec (by decide)).2.2 (by decide)).1,
      ((isAlphanum_spec (by decide)).2.2 (by decide)).1⟩
  have hname {c d : Char} (hc : c = 'a' ∧ d = '+' ∨ c = 'b' ∧ d = ';') (cs : List Char) :
      Lexer.next? (c :: d :: cs) =
        some ⟨.name (String.ofList [c]) false, false, c :: d :: cs, d :: cs⟩ := by
    rcases hc with ⟨rfl, rfl⟩ | ⟨rfl, rfl⟩
    all_goals simp [Lexer.next?, Lexer.skipGap?, Lexer.isLineEnd, Lexer.isSpace, Lexer.token?,
      not_name, hletters, Lexer.name?, Char.isDigit]
  have hoperator {c : Char} {text : List Char}
      (hc : text = ['+', '+'] ∧ c = '/' ∨ text = ['/'] ∧ c = 'b') (cs : List Char) :
      Lexer.next? (text ++ c :: cs) =
        some ⟨.punct (String.ofList text), false, text ++ c :: cs, c :: cs⟩ := by
    rcases hc with ⟨rfl, rfl⟩ | ⟨rfl, rfl⟩
    all_goals simp [Lexer.next?, Lexer.skipGap?, Lexer.isLineEnd, Lexer.isSpace, Lexer.token?,
      not_name, Lexer.punctuator?, Lexer.punctuators, Char.isDigit]
  have hruns {c d : Char} (hc : c = 'a' ∨ c = '+' ∨ c = '/' ∧ d = 'b' ∨ c = 'b') (cs : List Char) :
      runsOn .blank (c :: d :: cs) = false := by
    rcases hc with rfl | rfl | ⟨rfl, rfl⟩ | rfl <;> simp [runsOn, Lexer.isLineEnd, Lexer.isSpace]
  have hdivisor (awaiting : Bool) : Leads .slash ⟨opened, awaiting, 'b' :: ';' :: cs⟩ r :=
    leads_name (hname (by decide) cs) (hruns (by decide) cs) (by simp) (leads_semicolon h)
  have hslash (awaiting : Bool) : Leads .slash ⟨opened, awaiting, '/' :: 'b' :: ';' :: cs⟩ r :=
    leads_operator (hoperator (.inr ⟨rfl, rfl⟩) (';' :: cs)) (by decide) (by decide)
      (fun h ↦ absurd h (by simp [hruns])) (fun _ ↦ rfl) (hdivisor _)
  have hcounted (awaiting : Bool) :
      Leads .slash ⟨opened, awaiting, '+' :: '+' :: '/' :: 'b' :: ';' :: cs⟩ r :=
    leads_operator (hoperator (.inl ⟨rfl, rfl⟩) ('b' :: ';' :: cs)) (by decide) (by decide)
      (fun h ↦ absurd h (by simp [hruns])) (fun _ ↦ rfl) (hslash _)
  exact leads_name (hname (by decide) _) (hruns (by decide) _) (by simp) (hcounted _)

/-- The language sees one text on two lines. -/
theorem leads_continued (h : Leads .continuation ⟨opened, true, cs⟩ r) :
    Leads .continuation ⟨opened, awaiting, '\'' :: '\\' :: '\r' :: '\n' :: '\'' :: ';' :: cs⟩
      r := by
  have hstring : Lexer.next? ('\'' :: '\\' :: '\r' :: '\n' :: '\'' :: ';' :: cs) =
      some ⟨.string "", false, '\'' :: '\\' :: '\r' :: '\n' :: '\'' :: ';' :: cs, ';' :: cs⟩ := by
    simp [Lexer.next?, Lexer.skipGap?, Lexer.isLineEnd, Lexer.isSpace, Lexer.token?,
      Lexer.stringBody?, Lexer.escape?, Lexer.textOf]
  refine .cons hstring (q := ⟨opened, false, ';' :: cs⟩) rfl (fun k hk ↦ ?_) (leads_semicolon h)
  cases k with
  | continuation => rfl
  | comment => simp [misreads, runsOn, Lexer.isLineEnd, Lexer.isSpace] at hk
  | hashbang | slash | stray => cases hk

/-- What hides brackets leads on to them. -/
theorem leads_screen (m : Misreading) (hcs : Lexer.afterHashbang cs = cs)
    (h : Leads m ⟨[], true, cs⟩ r) :
    Leads m ⟨[], true, Lexer.afterHashbang (m.screen ++ cs)⟩ r := by
  cases m with
  | hashbang =>
    change Leads .hashbang ⟨[], true, '\n' :: ';' :: cs⟩ r
    refine leads_terminator true ?_ ?_ h
    all_goals simp [Lexer.next?, Lexer.skipGap?, Lexer.isLineEnd, Lexer.isSpace, Lexer.token?,
      not_name, Lexer.punctuator?, Lexer.punctuators, Char.isDigit, runsOn]
  | comment =>
    change Leads .comment ⟨[], true, '/' :: '/' :: '\r' :: ';' :: cs⟩ r
    refine leads_terminator true ?_ (fun _ ↦ rfl) h
    simp [Lexer.next?, Lexer.skipGap?, Lexer.isLineEnd, Lexer.isSpace, Lexer.token?, not_name,
      Lexer.punctuator?, Lexer.punctuators, Char.isDigit]
  | slash => exact leads_quotient h
  | continuation => exact leads_continued h
  | stray =>
    rw [Misreading.screen, List.nil_append, hcs]
    exact h

end

end Place

/-! ### The scan behind a screen -/

namespace NestingScan

variable {s : NestingScan} {c : Char} {cs : List Char}

/-- A token within the bound. -/
theorem accepts_token (behind : NestingScan) (hblank : Text.isBlank c = false) (hslash : c ≠ '/')
    {rest : List Char} (htoken : s.token c cs = (behind, rest))
    (hdepth : behind.nesting.depth ≤ maxNesting) (h : behind.accepts rest = true) :
    s.accepts (c :: cs) = true := by
  rw [accepts_cons, step_token hblank (fun h ↦ hslash h.1) (fun h ↦ hslash h.1), htoken]
  exact ⟨hdepth, h⟩

/-- A mark within the bound. -/
theorem accepts_punct (hline : s.newLine = false) (hblank : Text.isBlank c = false)
    (hword : isScanWordChar c = false) (hc : c ∉ ['\'', '"', '\x60', '\x7d', '/']) {n : Nesting}
    (hpunct : s.punctuate c cs.head? = n) (hdepth : n.depth ≤ maxNesting)
    (h : NestingScan.accepts ⟨n, some c, false, isRelation c⟩ cs = true) :
    s.accepts (c :: cs) = true := by
  have hne (d : Char) (hd : d ∈ ['\'', '"', '\x60', '\x7d', '/']) : c ≠ d := fun h ↦ hc (h ▸ hd)
  have hslash := hne '/' (by decide)
  have hquote : c ∉ ['\'', '"', '\x60'] := fun h ↦ hc (List.mem_of_mem_take (i := 3) h)
  refine accepts_token ⟨n, some c, false, isRelation c⟩ hblank hslash ?_ hdepth h
  rw [token_punct hquote (fun h ↦ absurd h (hne '\x7d' (by decide)))
    (fun h ↦ absurd h hslash) hword, settleLine_eq_self hline, hpunct]
  dsimp only
  rw [hline]

/-- A quoted text is skipped. -/
theorem accepts_quote {quote : Char} (hline : s.newLine = false)
    (hquote : quote = '\'' ∨ quote = '"') (hdepth : s.nesting.depth ≤ maxNesting)
    (h : NestingScan.accepts ⟨s.nesting, some operandEnd, false, false⟩
      (afterString quote cs) = true) : s.accepts (quote :: cs) = true := by
  have hblank : Text.isBlank quote = false := by rcases hquote with rfl | rfl <;> decide
  have hslash : quote ≠ '/' := by rcases hquote with rfl | rfl <;> decide
  refine accepts_token ⟨s.nesting, some operandEnd, false, false⟩ hblank hslash ?_ hdepth h
  rw [token_quote hquote, settleLine_eq_self hline]
  dsimp only
  rw [hline]

end NestingScan

/-! ### Stretches that do not end -/

section

variable {cs : List Char}

/-- A comment that does not end hides everything. -/
theorem afterBlockComment_open (h : '*' ∉ cs) (newLine : Bool) :
    (afterBlockComment newLine cs).1 = [] := by
  induction cs generalizing newLine with
  | nil => rfl
  | cons c cs ih =>
    rw [List.mem_cons, not_or] at h
    rw [afterBlockComment_cons newLine fun hc ↦ h.1 hc.1.symm]
    exact ih h.2 _

/-- So does a string. -/
theorem afterString_open {quote : Char} (hquote : quote ∉ cs) (hline : '\n' ∉ cs)
    (hescape : '\\' ∉ cs) : afterString quote cs = [] := by
  induction cs with
  | nil => rfl
  | cons c cs ih =>
    rw [List.mem_cons, not_or] at hquote hline hescape
    rw [afterString_cons quote (Ne.symm hescape.1), if_neg]
    · exact ih hquote.2 hline.2 hescape.2
    · exact not_or.2 ⟨Ne.symm hquote.1, Ne.symm hline.1⟩

/-- So does a regular expression. -/
theorem afterRegexBody_open (hslash : '/' ∉ cs) (hline : '\n' ∉ cs) (hescape : '\\' ∉ cs)
    (inClass : Bool) : afterRegexBody inClass cs = [] := by
  induction cs generalizing inClass with
  | nil => rfl
  | cons c cs ih =>
    rw [List.mem_cons, not_or] at hslash hline hescape
    have hrest := ih hslash.2 hline.2 hescape.2
    rw [afterRegexBody_cons inClass (Ne.symm hescape.1), hrest, hrest, hrest,
      if_neg (show ¬(c = '/' ∧ inClass = false) from fun h ↦ hslash.1 h.1.symm),
      if_neg (Ne.symm hline.1), ite_self, ite_self]

end

/-! ### Hidden brackets -/

/-- Brackets behind the first line. -/
theorem accepts_hashbang {cs : List Char} (h : '*' ∉ cs) :
    NestingScan.start.accepts ('#' :: '!' :: '/' :: '*' :: cs) = true := by
  refine NestingScan.accepts_punct rfl (by decide) (not_isScanWordChar (by decide)) (by decide)
    (n := ⟨[0], [], 0⟩) rfl (by decide) ?_
  refine NestingScan.accepts_punct rfl (by decide) (not_isScanWordChar (by decide)) (by decide)
    (n := ⟨[1], [], 1⟩) rfl (by decide) ?_
  rw [NestingScan.accepts_cons, NestingScan.step_blockComment]
  dsimp only
  rw [afterBlockComment_open h]
  exact ⟨by decide, NestingScan.accepts_nil _⟩

/-- Brackets in a comment. -/
theorem accepts_comment {cs : List Char} (h : '\n' ∉ cs) :
    NestingScan.start.accepts ('/' :: '/' :: cs) = true := by
  have hrest : cs.dropWhile (· != '\n') = [] :=
    List.dropWhile_eq_nil_iff.2 fun c hc ↦ bne_iff_ne.2 fun heq ↦ h (heq ▸ hc)
  rw [NestingScan.accepts_cons, NestingScan.step_lineComment, hrest]
  exact ⟨by decide, NestingScan.accepts_nil _⟩

/-- Brackets behind a quotient. -/
theorem accepts_quotient {cs : List Char} (hslash : '/' ∉ cs) (hline : '\n' ∉ cs)
    (hescape : '\\' ∉ cs) :
    NestingScan.start.accepts ('a' :: '+' :: '+' :: '/' :: 'b' :: cs) = true := by
  have hplus : isScanWordChar '+' = false := not_isScanWordChar (by decide)
  have hword : NestingScan.start.token 'a' ('+' :: '+' :: '/' :: 'b' :: cs) =
      (⟨⟨[0], [], 0⟩, some 'a', false, false⟩, '+' :: '+' :: '/' :: 'b' :: cs) := by
    rw [NestingScan.token_word (by decide) (by decide) (by decide)
      (isScanWordChar_of_isAlphanum (by decide)), NestingScan.settleLine_eq_self rfl, NestingScan.word,
      List.takeWhile_cons_of_neg (by simp [hplus]), List.dropWhile_cons_of_neg (by simp [hplus])]
    rfl
  have hregex : afterRegex ('b' :: cs) = [] := by
    rw [afterRegex, afterRegexBody_open]
    · rfl
    all_goals simp [*]
  refine NestingScan.accepts_token _ (by decide) (by decide) hword (by decide) ?_
  refine NestingScan.accepts_punct rfl (by decide) hplus (by decide) (n := ⟨[1], [], 1⟩) rfl
    (by decide) ?_
  refine NestingScan.accepts_punct rfl (by decide) hplus (by decide) (n := ⟨[2], [], 2⟩) rfl
    (by decide) ?_
  rw [NestingScan.accepts_cons, NestingScan.step_token (by decide) (by simp) (by simp),
    NestingScan.token_regex (expectsOperand_iff.2 (by decide)), NestingScan.settleLine_eq_self rfl,
    hregex]
  exact ⟨(by decide : 2 ≤ maxNesting), NestingScan.accepts_nil _⟩

/-- Brackets in a string that goes on over lines. -/
theorem accepts_continued {cs : List Char} (hquote : '\'' ∉ cs) (hline : '\n' ∉ cs)
    (hescape : '\\' ∉ cs) :
    NestingScan.start.accepts ('\'' :: '\\' :: '\r' :: '\n' :: '\'' :: cs) = true := by
  refine NestingScan.accepts_quote rfl (.inl rfl) (by decide) ?_
  rw [afterString_escape, List.tail_cons, afterString_cons _ (by decide), if_pos (.inr rfl)]
  refine NestingScan.accepts_quote rfl (.inl rfl) (by decide) ?_
  rw [afterString_open hquote hline hescape]
  exact NestingScan.accepts_nil _

/-- Brackets that are closed by others. -/
theorem accepts_strays (n : Nat) {s : NestingScan} (hs : s.nesting = .start)
    (hline : s.newLine = false) : s.accepts (Misreading.stray.brackets n) = true := by
  induction n generalizing s with
  | zero => exact NestingScan.accepts_nil s
  | succ n ih =>
    change s.accepts ('[' :: ')' :: Misreading.stray.brackets n) = true
    refine NestingScan.accepts_punct hline (by decide) (not_isScanWordChar (by decide)) (by decide)
      (n := ⟨[0, 0], [], 1⟩) (by rw [NestingScan.punctuate, hs]; rfl) (by decide) ?_
    refine NestingScan.accepts_punct rfl (by decide) (not_isScanWordChar (by decide)) (by decide)
      (n := .start) rfl (by decide) ?_
    exact ih rfl rfl

/-- The scan sees none of the brackets. -/
theorem nestsShallowly_concealing (m : Misreading) (n : Nat) :
    nestsShallowly (m.concealing n) = true := by
  have hnot {c : Char} (hc : c ≠ '[') (hm : m ≠ .stray) : c ∉ m.brackets n := by
    rw [Misreading.brackets_eq_replicate hm]
    exact fun h ↦ hc (List.eq_of_mem_replicate h)
  rw [nestsShallowly, Misreading.toList_concealing]
  cases m with
  | hashbang => exact accepts_hashbang (by simp [hnot])
  | comment => exact accepts_comment (by simp [hnot])
  | slash => exact accepts_quotient (by simp [hnot]) (by simp [hnot]) (by simp [hnot])
  | continuation => exact accepts_continued (by simp [hnot]) (by simp [hnot]) (by simp [hnot])
  | stray => exact accepts_strays n rfl rfl

/-- A script that passes the scan has at most as many brackets open as levels are allowed, wherever
a reading of its tokens has come to, if nothing in it is misread on the way. Each way of misreading
can hide any number of brackets by itself. -/
theorem brackets_within_limit {source : String} {goals : List Bool} {p : Place}
    (hread : (Place.start source).read? goals = some p) (haccepted : nestsShallowly source = true) :
    (misreadings source goals = [] → p.opened.length ≤ maxNesting) ∧
    ∀ (m : Misreading) (n : Nat), ∃ (source : String) (goals : List Bool) (p : Place),
      (Place.start source).read? goals = some p ∧ nestsShallowly source = true ∧
        (∀ k ∈ misreadings source goals, k = m) ∧ p.opened.length = n := by
  refine ⟨fun hnone ↦ ?_, fun m n ↦ ?_⟩
  · rw [misreadings, List.append_eq_nil_iff] at hnone
    have hhashbang : "#!".toList.isPrefixOf source.toList = false := by
      refine Bool.eq_false_iff.2 fun h ↦ ?_
      rw [if_pos h] at hnone
      exact nomatch hnone.1
    exact (Place.tracked_start haccepted hhashbang).reached.length_read_le hread hnone.2
  · obtain ⟨r, hlength, h⟩ := Place.leads_brackets m n [] true
    obtain ⟨goals, hread, hgoals⟩ := Place.leads_screen m (m.afterHashbang_brackets n) h
    have hstart : Place.start (m.concealing n) =
        ⟨[], true, Lexer.afterHashbang (m.screen ++ m.brackets n)⟩ := by
      rw [Place.start, Misreading.toList_concealing]
    refine ⟨m.concealing n, goals, r, hstart ▸ hread, nestsShallowly_concealing m n, ?_, ?_⟩
    · rw [misreadings, hstart]
      refine fun k hk ↦ (List.mem_append.1 hk).elim (fun hk ↦ ?_) (hgoals k)
      rw [Misreading.toList_concealing] at hk
      split at hk
      · rename_i hprefix
        rw [List.mem_singleton.1 hk, Misreading.eq_hashbang_of_isPrefixOf hprefix]
      · exact absurd hk List.not_mem_nil
    · rw [hlength, List.length_nil, Nat.zero_add]

/-- In a template's substitution within the arguments of a call three brackets are open. -/
theorem brackets_within_limit_substitution :
    (Place.start "f(\x60a$\x7b[1]\x7d\x60) / 2;").read? [true, false, true, true] =
        some ⟨[.square, .substitution, .round], true, "1]\x7d\x60) / 2;".toList⟩ ∧
      nestsShallowly "f(\x60a$\x7b[1]\x7d\x60) / 2;" = true ∧
      misreadings "f(\x60a$\x7b[1]\x7d\x60) / 2;" [true, false, true, true] = [] ∧
      [Bracket.square, .substitution, .round].length ≤ maxNesting := by
  have hread : (Place.start "f(\x60a$\x7b[1]\x7d\x60) / 2;").read? [true, false, true, true] =
      some ⟨[.square, .substitution, .round], true, "1]\x7d\x60) / 2;".toList⟩ := by decide +kernel
  have haccepted : nestsShallowly "f(\x60a$\x7b[1]\x7d\x60) / 2;" = true := by decide +kernel
  have hnone : misreadings "f(\x60a$\x7b[1]\x7d\x60) / 2;" [true, false, true, true] = [] := by
    decide +kernel
  exact ⟨hread, haccepted, hnone, (brackets_within_limit hread haccepted).1 hnone⟩

/-- A function whose parameter has a value under 63 brackets, behind one on the same line that
divides by two what it has just counted up. -/
def countingAndBracketed : String :=
  "return \x7b f(a) \x7b return a++ / 2; \x7d, g(b = " ++
    String.ofList (List.replicate 63 '[' ++ List.replicate 63 ']') ++ ") \x7b\x7d \x7d"

theorem toList_countingAndBracketed : countingAndBracketed.toList =
    "return \x7b f(a) \x7b return a++ / 2; \x7d, g(b = ".toList ++
      (List.replicate 63 '[' ++ List.replicate 63 ']') ++ ") \x7b\x7d \x7d".toList := by
  unfold countingAndBracketed
  simp only [String.toList_append, String.toList_ofList]

/-- It passes the scan, although a reading of its tokens that comes to its end with every bracket
closed has more of them open on the way than levels are allowed. -/
theorem countingAndBracketed_nests :
    nestsShallowly countingAndBracketed = true ∧
      ∃ goals goals' p, (Place.start countingAndBracketed).read? goals = some p ∧
        maxNesting < p.opened.length ∧ p.read? goals' = some ⟨[], false, []⟩ := by
  have haccepted : nestsShallowly countingAndBracketed = true := by
    rw [nestsShallowly, toList_countingAndBracketed]
    decide +kernel
  have hread : ((Place.start countingAndBracketed).read? (List.replicate 82 false)).bind (fun p ↦
      (p.read? (List.replicate 67 false)).map fun q ↦ (p.opened.length, q)) =
        some (65, ⟨[], false, []⟩) := by
    rw [Place.start, toList_countingAndBracketed]
    decide +kernel
  obtain ⟨p, hopened, hread⟩ := Option.bind_eq_some_iff.1 hread
  obtain ⟨q, hclosed, hq⟩ := Option.map_eq_some_iff.1 hread
  obtain ⟨hlength, rfl⟩ := Prod.mk.inj hq
  exact ⟨haccepted, _, _, p, hopened, hlength ▸ by decide, hclosed⟩

end Nodecraft.Script
