import Nodecraft.Proofs.Markup.Lexing
import Nodecraft.Proofs.Script.Scan
import Nodecraft.Proofs.Template.TagGrammar
import Nodecraft.Script.Lexer
import Mathlib.Data.List.TakeWhile

/-!
# Tokens as the scan sees them

What the reader of tokens takes off the front of a text (`Lexer.token?_reads`), in the terms of the
scan for nesting. Names, numbers and most punctuators are plain (`isPlain`): they have no characters
that the scan treats in a way of its own. Quoted texts, template text and regular expressions are
skipped by both alike, but for a quoted text that goes on behind a carriage return and a line feed.
-/

set_option autoImplicit false

namespace Nodecraft.Script

open Template.Tag (blanks mem_blanks_of_isBlank)

/-! ### Kinds of characters -/

/-- The characters that open and close what the scan keeps apart. -/
def scanMarks : List Char := ['\'', '"', '\x60', '/', '(', '[', '\x7b', ')', ']', '\x7d']

/-- Whether the scan takes a character by itself or as part of a word. -/
def isPlain (c : Char) : Bool := !Text.isBlank c && !scanMarks.contains c

/-- Plain characters are neither blank nor marks of the scan. -/
theorem isPlain_iff {c : Char} : isPlain c = true ↔ Text.isBlank c = false ∧ c ∉ scanMarks := by
  simp [isPlain]

section

variable {c : Char}

/-- The characters of names, numbers and the words of the scan. -/
def isWordly (c : Char) : Bool := Text.isIdentifierPart c || isScanWordChar c

/-- What belongs to a word for either of the two readers. -/
theorem isWordly_iff : isWordly c = true ↔
    Text.isIdentifierPart c = true ∨ isScanWordChar c = true :=
  Bool.or_eq_true_iff

theorem isWordly_of_isScanWordChar (h : isScanWordChar c = true) : isWordly c = true :=
  isWordly_iff.2 (.inr h)

/-- The blanks and the marks of the language. -/
def wordless : List Char :=
  blanks ++ ['!', '"', '#', '%', '&', '\'', '(', ')', '*', '+', ',', '-', '.', '/', ':', ';', '<',
    '=', '>', '?', '@', '[', '\\', ']', '^', '\x60', '\x7b', '|', '\x7d', '~', '\uFEFF']

/-- Marks belong to no word. -/
theorem not_isWordly (h : c ∈ wordless) : isWordly c = false := by
  have hall : wordless.all (!isWordly ·) = true := by decide +kernel
  simpa only [Bool.not_eq_true'] using List.all_eq_true.1 hall c h

theorem not_isScanWordChar (h : c ∈ wordless) : isScanWordChar c = false :=
  (Bool.or_eq_false_iff.1 (not_isWordly h)).2

theorem not_isIdentifierPart (h : c ∈ wordless) : Text.isIdentifierPart c = false :=
  (Bool.or_eq_false_iff.1 (not_isWordly h)).1

theorem not_isIdentifierStart (h : c ∈ wordless) : Text.isIdentifierStart c = false := by
  have hpart := not_isIdentifierPart h
  simp only [Text.isIdentifierPart, Bool.or_eq_false_iff] at hpart
  exact hpart.1.1.1.1.1.2

theorem not_mem_wordless (h : isWordly c = true) : c ∉ wordless :=
  fun hmem ↦ Bool.false_ne_true ((not_isWordly hmem).symm.trans h)

/-- Characters of words are plain. -/
theorem isPlain_of_isWordly (h : isWordly c = true) : isPlain c = true := by
  refine isPlain_iff.2 ⟨Bool.eq_false_iff.2 fun hblank ↦ not_mem_wordless h ?_,
    fun hmark ↦ not_mem_wordless h ?_⟩
  · exact List.mem_append_left _ (mem_blanks_of_isBlank hblank)
  · exact (by decide : scanMarks ⊆ wordless) hmark

/-- What awaits an operand. -/
def operandMarks : List Char := "=?:!~+-*/%&|^<>,;([\x7b".toList

/-- What an operand is expected after. -/
theorem expectsOperand_iff : expectsOperand (some c) = true ↔ c ∈ operandMarks :=
  List.contains_iff_mem

/-- After a word none is. -/
theorem not_expectsOperand_of_isWordly (h : isWordly c = true) :
    expectsOperand (some c) = false :=
  Bool.eq_false_iff.2 fun hmark ↦
    not_mem_wordless h ((by decide : operandMarks ⊆ wordless) (expectsOperand_iff.1 hmark))

theorem toNat_lt_of_isAlphanum (h : c.isAlphanum = true) : c.toNat < 128 := by
  rcases Bool.or_eq_true_iff.1 h with halpha | hdigit
  · exact Template.toNat_lt_of_isAlpha halpha
  · obtain ⟨-, hle⟩ := Bool.and_eq_true_iff.1 hdigit
    exact Nat.lt_of_le_of_lt (of_decide_eq_true hle) (by decide)

/-- What holds of all characters up to a number is seen by going through them. -/
theorem forall_toNat_lt {n : Nat} {P : Char → Prop} (h : ∀ m < n, P (Char.ofNat m))
    (hc : c.toNat < n) : P c := by
  have hp := h c.toNat hc
  rwa [Char.ofNat_toNat] at hp

/-- The letters and digits of ASCII in the tables. -/
theorem isAlphanum_spec (h : c.isAlphanum = true) :
    isScanWordChar c = true ∧ Text.isIdentifierPart c = true ∧
      (c.isDigit = false → Text.isIdentifierStart c = true ∧ Text.isAlphabetic c = true) :=
  forall_toNat_lt (P := fun c ↦ c.isAlphanum = true →
      isScanWordChar c = true ∧ Text.isIdentifierPart c = true ∧
        (c.isDigit = false → Text.isIdentifierStart c = true ∧ Text.isAlphabetic c = true))
    (by decide +kernel) (toNat_lt_of_isAlphanum h) h

theorem isScanWordChar_of_isAlphanum (h : c.isAlphanum = true) : isScanWordChar c = true :=
  (isAlphanum_spec h).1

theorem isDigitIn_of_le {base : Nat} {last : Char} (hdigit : c.isDigit = true) (hle : c ≤ last)
    (hlast : last.toNat < base + 48) : Number.isDigitIn base c = true := by
  obtain ⟨hfirst, hnine⟩ := Bool.and_eq_true_iff.1 hdigit
  have hzero : 48 ≤ c.toNat := of_decide_eq_true hfirst
  have hlt : c.toNat < base + 48 := Nat.lt_of_le_of_lt hle hlast
  unfold Number.isDigitIn
  rw [Number.digitValue?, if_pos ⟨of_decide_eq_true hfirst, of_decide_eq_true hnine⟩]
  exact decide_eq_true (by omega)

theorem isDigitIn_of_isDigit (h : c.isDigit = true) : Number.isDigitIn 10 c = true :=
  isDigitIn_of_le h (of_decide_eq_true (Bool.and_eq_true_iff.1 h).2) (by decide)

theorem isScanWordChar_of_isDigit (h : c.isDigit = true) : isScanWordChar c = true :=
  isScanWordChar_of_isAlphanum (Bool.or_eq_true_iff.2 (.inr h))

theorem isScanWordChar_of_isDigitIn {base : Nat} (h : Number.isDigitIn base c = true) :
    isScanWordChar c = true :=
  isScanWordChar_of_isAlphanum (Markup.isAlphanum_of_isDigitIn h)

theorem isIdentifierPart_of_start (h : Text.isIdentifierStart c = true) :
    Text.isIdentifierPart c = true := by
  simp [Text.isIdentifierPart, h]

theorem isIdentifierPart_of_isDigit (h : c.isDigit = true) : Text.isIdentifierPart c = true :=
  (isAlphanum_spec (Bool.or_eq_true_iff.2 (.inr h))).2.1

/-- Letters belong to words. -/
theorem isScanWordChar_of_isAlphabetic (h : Text.isAlphabetic c = true) :
    isScanWordChar c = true := by
  simp only [isScanWordChar, Text.isAlphanumeric, Bool.or_eq_true]
  exact .inl (.inl (.inl h))

/-- The blanks of the language are those of the scan, and one more. -/
theorem isBlank_of_isGap (h : Lexer.isSpace c = true ∨ Lexer.isLineEnd c = true) :
    c = '\uFEFF' ∨ Text.isBlank c = true := by
  simp only [Lexer.isSpace, Lexer.isLineEnd, Bool.or_eq_true, Bool.and_eq_true, beq_iff_eq,
    decide_eq_true_eq] at h
  rcases h with ((((((((((h | h) | h) | h) | h) | h) | h) | h) | h) | h) | h) | (((h | h) | h) | h)
  case inl.inl.inl.inl.inl.inl.inr => exact .inl h
  case inl.inl.inl.inl.inr => exact .inr (by simp [Text.isBlank, h])
  all_goals exact .inr (h ▸ by decide)

end

namespace Lexer

/-! ### Tokens -/

/-- Where each kind of token is read, and what is left behind it. -/
inductive Reads : List Char → Token → List Char → Prop
  | endOfText : Reads [] .endOfText []
  | string {quote : Char} {body rest : List Char} {s : String} (hquote : quote = '"' ∨ quote = '\'')
    (h : stringBody? quote (body.length + 1) [] body = some (s, rest)) :
    Reads (quote :: body) (.string s) rest
  | template {body rest : List Char} {t : Token} (h : template? body = some (t, rest)) :
    Reads ('\x60' :: body) t rest
  | privateName {body rest : List Char} {text : String} {escaped : Bool}
    (h : name? body = some (text, escaped, rest)) : Reads ('#' :: body) (.privateName text) rest
  | number {c : Char} {cs rest : List Char} {t : Token} (hc : c.isDigit = true ∨ c = '.')
    (h : number? (c :: cs) = some (t, rest)) : Reads (c :: cs) t rest
  | name {cs rest : List Char} {text : String} {escaped : Bool}
    (h : name? cs = some (text, escaped, rest)) : Reads cs (.name text escaped) rest
  | punct {cs rest : List Char} {t : Token} (h : punctuator? cs = some (t, rest)) : Reads cs t rest

/-- What is taken for a token reads as one. -/
theorem token?_reads {cs rest : List Char} {t : Token} (h : token? cs = some (t, rest)) :
    Reads cs t rest := by
  unfold token? at h
  split at h
  · cases h
    exact .endOfText
  · obtain ⟨⟨s, left⟩, hbody, heq⟩ := Option.map_eq_some_iff.1 h
    cases heq
    exact .string (.inl rfl) hbody
  · obtain ⟨⟨s, left⟩, hbody, heq⟩ := Option.map_eq_some_iff.1 h
    cases heq
    exact .string (.inr rfl) hbody
  · exact .template h
  · obtain ⟨⟨text, escaped, left⟩, hname, heq⟩ := Option.map_eq_some_iff.1 h
    cases heq
    exact .privateName hname
  · split at h
    · rename_i hnumber
      refine .number ?_ h
      rcases Bool.or_eq_true_iff.1 hnumber with hdigit | hpoint
      · exact .inl hdigit
      · exact .inr (eq_of_beq (Bool.and_eq_true_iff.1 hpoint).1)
    · split at h
      · obtain ⟨⟨text, escaped, left⟩, hname, heq⟩ := Option.map_eq_some_iff.1 h
        cases heq
        exact .name hname
      · exact .punct h

/-- The next token stands behind the gap. -/
theorem next?_eq_some {cs : List Char} {l : Lexeme} (h : next? cs = some l) :
    skipGap? false .blank cs = some (l.newLine, l.start) ∧ Reads l.start l.token l.rest := by
  obtain ⟨⟨newLine, start⟩, hgap, h⟩ := Option.bind_eq_some_iff.1 h
  obtain ⟨⟨t, rest⟩, htoken, heq⟩ := Option.bind_eq_some_iff.1 h
  cases heq
  exact ⟨hgap, token?_reads htoken⟩

/-! ### Punctuators -/

/-- A punctuator is one of the list. -/
theorem punctuator?_eq_some {cs rest : List Char} {t : Token}
    (h : punctuator? cs = some (t, rest)) :
    ∃ p ∈ punctuators, t = .punct (String.ofList p) ∧ cs = p ++ rest := by
  unfold punctuator? at h
  split at h
  · split at h
    · cases h
      exact ⟨['?'], by decide, rfl, rfl⟩
    · cases h
      exact ⟨['?', '.'], by decide, rfl, rfl⟩
  · obtain ⟨p, hp, heq⟩ := Option.map_eq_some_iff.1 h
    cases heq
    have hprefix := List.find?_some hp
    obtain ⟨behind, rfl⟩ := List.isPrefixOf_iff_prefix.1 hprefix
    exact ⟨p, List.mem_of_find?_eq_some hp, rfl, by rw [List.drop_left]⟩

/-- A punctuator is a bracket, begins with a slash, or is plain and has no word in it. -/
theorem punctuators_cases {p : List Char} (h : p ∈ punctuators) :
    p ∈ [['('], ['['], ['\x7b'], [')'], [']'], ['\x7d']] ∨ p = ['/'] ∨ p = ['/', '='] ∨
      p ≠ [] ∧ ∀ c ∈ p, isPlain c = true ∧ c ∈ wordless := by
  have hall : punctuators.all (fun p ↦
      [['('], ['['], ['\x7b'], [')'], [']'], ['\x7d']].contains p || p == ['/'] ||
        p == ['/', '='] || p != [] && p.all fun c ↦ isPlain c && wordless.contains c) = true := by
    decide +kernel
  have hp := List.all_eq_true.1 hall p h
  simpa only [Bool.or_eq_true, or_assoc, List.contains_iff_mem, beq_iff_eq, Bool.and_eq_true,
    bne_iff_ne, List.all_eq_true] using hp

theorem exists_cons_of_mem_punctuators {p : List Char} (h : p ∈ punctuators) :
    ∃ c t, p = c :: t ∧ c ∈ wordless := by
  rcases punctuators_cases h with hbracket | rfl | rfl | ⟨hne, hplain⟩
  · simp only [List.mem_cons, List.not_mem_nil, or_false] at hbracket
    rcases hbracket with rfl | rfl | rfl | rfl | rfl | rfl
    all_goals exact ⟨_, _, rfl, by decide⟩
  · exact ⟨_, _, rfl, by decide⟩
  · exact ⟨_, _, rfl, by decide⟩
  · obtain ⟨c, t, rfl⟩ := List.exists_cons_of_ne_nil hne
    exact ⟨c, t, rfl, (hplain c (List.mem_cons_self ..)).2⟩

/-- A word begins with no punctuator. -/
theorem punctuator?_eq_none {c : Char} (hword : isScanWordChar c = true) (rest : List Char) :
    punctuator? (c :: rest) = none := by
  have hnone : c ∉ wordless := not_mem_wordless (isWordly_of_isScanWordChar hword)
  unfold punctuator?
  split
  · rename_i heq
    exact absurd ((List.cons.inj heq).1 ▸ by decide : c ∈ wordless) hnone
  · rw [Option.map_eq_none_iff, List.find?_eq_none]
    intro p hp hprefix
    obtain ⟨d, t, rfl, hd⟩ := exists_cons_of_mem_punctuators hp
    exact hnone (eq_of_beq (Bool.and_eq_true_iff.1 hprefix).1 ▸ hd)

/-- No token begins in a word of the scan that no name and no number begins. -/
theorem next?_eq_none {c : Char} (hword : isScanWordChar c = true)
    (hname : Text.isIdentifierStart c = false) (hdigit : c.isDigit = false) (rest : List Char) :
    next? (c :: rest) = none := by
  have hwordly : isWordly c = true := isWordly_of_isScanWordChar hword
  have hne : ∀ d ∈ ['/', '"', '\'', '\x60', '#', '.', '\\', '?'], c ≠ d := by
    rintro d hd rfl
    exact not_mem_wordless hwordly
      ((by decide : ['/', '"', '\'', '\x60', '#', '.', '\\', '?'] ⊆ wordless) hd)
  simp only [List.forall_mem_cons, List.not_mem_nil, false_imp_iff, implies_true, and_true] at hne
  obtain ⟨hslash, hdouble, hsingle, htemplate, hprivate, hpoint, hescape, hquestion⟩ := hne
  have hgap : ¬(isSpace c = true ∨ isLineEnd c = true) := by
    intro h
    rcases isBlank_of_isGap h with rfl | hblank
    · exact not_mem_wordless hwordly (by decide)
    · exact not_mem_wordless hwordly (List.mem_append_left _ (mem_blanks_of_isBlank hblank))
  rw [not_or, Bool.not_eq_true, Bool.not_eq_true] at hgap
  have hstart : skipGap? false .blank (c :: rest) = some (false, c :: rest) := by
    simp [skipGap?, hslash, hgap]
  have hpunct := punctuator?_eq_none hword rest
  have htoken : token? (c :: rest) = none := by
    simp [token?, hpoint, hescape, hdigit, hname, hpunct]
  simp only [next?, hstart, htoken, Option.bind_eq_bind, Option.bind_some, Option.bind_none]

/-! ### Names and numbers -/

/-- Plain characters are taken off the front of a text, and the last of them awaits no operand. -/
def Takes (cs rest : List Char) : Prop :=
  ∃ t, cs = t ++ rest ∧ (∀ c ∈ t, isPlain c = true) ∧
    ∀ c ∈ t.getLast?, expectsOperand (some c) = false

section

variable {c : Char} {cs rest left : List Char}

theorem Takes.refl (cs : List Char) : Takes cs cs :=
  ⟨[], rfl, fun _ hc ↦ absurd hc List.not_mem_nil, fun _ hc ↦ nomatch hc⟩

theorem Takes.trans (h : Takes cs rest) (h' : Takes rest left) : Takes cs left := by
  obtain ⟨t, rfl, hplain, hended⟩ := h
  obtain ⟨u, rfl, hplain', hended'⟩ := h'
  refine ⟨t ++ u, (List.append_assoc t u left).symm, fun c hc ↦ ?_, fun c hc ↦ ?_⟩
  · exact (List.mem_append.1 hc).elim (hplain c) (hplain' c)
  · rw [List.getLast?_append, Option.mem_def, Option.or_eq_some_iff] at hc
    exact hc.elim (hended' c) fun h ↦ hended c h.2

theorem Takes.cons (hplain : isPlain c = true) (hended : expectsOperand (some c) = false)
    (h : Takes cs rest) : Takes (c :: cs) rest :=
  Takes.trans ⟨[c], rfl, by simpa using hplain, by simpa using hended⟩ h

/-- A sign in front of a stretch that is not empty. -/
theorem Takes.sign (hplain : isPlain c = true) (hlength : rest.length < cs.length)
    (h : Takes cs rest) : Takes (c :: cs) rest := by
  obtain ⟨t, rfl, hall, hended⟩ := h
  refine ⟨c :: t, rfl, List.forall_mem_cons.2 ⟨hplain, hall⟩, ?_⟩
  cases t with
  | nil => exact absurd hlength (Nat.lt_irrefl _)
  | cons d t => rwa [List.getLast?_cons_cons]

/-- A character of a word is taken over. -/
theorem takes_wordly (hc : isWordly c = true) (h : Takes cs rest) : Takes (c :: cs) rest :=
  h.cons (isPlain_of_isWordly hc) (not_expectsOperand_of_isWordly hc)

/-- So are several. -/
theorem takes_dropWhile {p : Char → Bool} (hp : ∀ c, p c = true → isWordly c = true)
    (cs : List Char) : Takes cs (cs.dropWhile p) := by
  induction cs with
  | nil => exact .refl _
  | cons c cs ih =>
    by_cases hc : p c = true
    · rw [List.dropWhile_cons_of_pos hc]
      exact takes_wordly (hp c hc) ih
    · rw [List.dropWhile_cons_of_neg hc]
      exact .refl _

theorem isWordly_of_isDigitIn {base : Nat} (h : Number.isDigitIn base c = true) :
    isWordly c = true :=
  isWordly_of_isScanWordChar (isScanWordChar_of_isDigitIn h)

theorem isWordly_of_isDigit (h : c.isDigit = true) : isWordly c = true :=
  isWordly_of_isScanWordChar (isScanWordChar_of_isDigit h)

theorem isWordly_of_letter (h : c ∈ "_neExXoObB".toList) : isWordly c = true := by
  have hall : "_neExXoObB".toList.all (fun c ↦ c == '_' || c.isAlphanum) = true := by decide
  have hc := List.all_eq_true.1 hall c h
  rw [Bool.or_eq_true, beq_iff_eq] at hc
  rcases hc with rfl | halphanum
  · simp [isWordly, isScanWordChar]
  · exact isWordly_of_isScanWordChar (isScanWordChar_of_isAlphanum halphanum)

theorem length_dropWhile_lt {p : Char → Bool} (h : (cs.takeWhile p).isEmpty ≠ true) :
    (cs.dropWhile p).length < cs.length := by
  have hpos : 0 < (cs.takeWhile p).length :=
    List.length_pos_iff.2 fun hnil ↦ h (List.isEmpty_iff.2 hnil)
  have hlength := congrArg List.length (List.takeWhile_append_dropWhile (p := p) (l := cs))
  rw [List.length_append] at hlength
  omega

/-- Digits are taken as far as they go. -/
theorem digits?_eq_some {base : Nat} {ds : List Char} (h : digits? base cs = some (ds, rest)) :
    rest = cs.dropWhile (fun c ↦ Number.isDigitIn base c || c == '_') ∧
      (ds ≠ [] → rest.length < cs.length) := by
  unfold digits? at h
  dsimp only at h
  split at h
  · rename_i hempty
    cases h
    refine ⟨?_, fun hne ↦ absurd rfl hne⟩
    have hall := List.takeWhile_append_dropWhile
      (p := fun c ↦ Number.isDigitIn base c || c == '_') (l := cs)
    rwa [List.isEmpty_iff.1 hempty, List.nil_append, eq_comm] at hall
  · rename_i hempty
    split at h
    · exact nomatch h
    · cases h
      exact ⟨rfl, fun _ ↦ length_dropWhile_lt hempty⟩

theorem isWordly_of_digits {base : Nat} (h : (Number.isDigitIn base c || c == '_') = true) :
    isWordly c = true :=
  (Bool.or_eq_true_iff.1 h).elim isWordly_of_isDigitIn
    fun h ↦ eq_of_beq h ▸ isWordly_of_letter (by decide)

/-- Digits are taken over. -/
theorem digits?_takes {base : Nat} {ds : List Char} (h : digits? base cs = some (ds, rest)) :
    Takes cs rest :=
  (digits?_eq_some h).1 ▸ takes_dropWhile (fun _ ↦ isWordly_of_digits) cs

/-- There is a sign or there is none. -/
theorem splitSign_cases {negative : Bool} {body : List Char}
    (h : Number.splitSign cs = (negative, body)) :
    body = cs ∨ ∃ sign ∈ ['+', '-'], cs = sign :: body := by
  unfold Number.splitSign at h
  split at h
  · cases h
    exact .inr ⟨'-', by decide, rfl⟩
  · cases h
    exact .inr ⟨'+', by decide, rfl⟩
  · cases h
    exact .inl rfl

/-- An exponent is taken over. -/
theorem exponent?_takes {e : Int} (h : exponent? cs = some (e, rest)) : Takes cs rest := by
  unfold exponent? at h
  split at h
  · rename_i c tail
    split at h
    · rename_i hc
      cases hsplit : Number.splitSign tail with
      | mk negative body =>
      rw [hsplit] at h
      obtain ⟨⟨ds, left⟩, hdigits, h⟩ := Option.bind_eq_some_iff.1 h
      obtain ⟨_, hguard, heq⟩ := Option.bind_eq_some_iff.1 h
      have hds : ds ≠ [] := by
        rintro rfl
        exact nomatch hguard
      cases heq
      have htakes := digits?_takes hdigits
      refine takes_wordly (isWordly_of_letter ?_) ?_
      · rcases hc with rfl | rfl <;> decide
      · rcases splitSign_cases hsplit with rfl | ⟨sign, hsign, rfl⟩
        · exact htakes
        · refine htakes.sign ?_ ((digits?_eq_some hdigits).2 hds)
          simp only [List.mem_cons, List.not_mem_nil, or_false] at hsign
          rcases hsign with rfl | rfl <;> decide
    · cases h
      exact .refl _
  · cases h
    exact .refl _

/-- Where a number ends no other token of its kind begins. -/
def Stops (rest : List Char) : Prop :=
  ∀ c ∈ rest.head?, Text.isIdentifierStart c = false ∧ c.isDigit = false

theorem Stops.of_not_part (h : ∀ c ∈ rest.head?, Text.isIdentifierPart c = false) :
    Stops rest := fun c hc ↦
  ⟨Bool.eq_false_iff.2 fun hstart ↦
      Bool.false_ne_true ((h c hc).symm.trans (isIdentifierPart_of_start hstart)),
    Bool.eq_false_iff.2 fun hdigit ↦
      Bool.false_ne_true ((h c hc).symm.trans (isIdentifierPart_of_isDigit hdigit))⟩

/-- The token is a number that ends before the text. -/
def Ends (t : Token) (rest : List Char) : Prop :=
  (t = .bigInt ∨ ∃ x, t = .number x) ∧ Stops rest

/-- A number ends where no word goes on. -/
theorem endNumber?_ends {token t : Token} (htoken : token = .bigInt ∨ ∃ x, token = .number x)
    (h : endNumber? token cs = some (t, rest)) : rest = cs ∧ Ends t rest := by
  unfold endNumber? at h
  split at h
  · split at h
    · exact nomatch h
    · rename_i hnot
      cases h
      simp only [Bool.or_eq_true, not_or, Bool.not_eq_true] at hnot
      exact ⟨rfl, htoken, fun d hd ↦ Option.some.inj hd ▸ hnot.1⟩
  · cases h
    exact ⟨rfl, htoken, fun d hd ↦ nomatch hd⟩

/-- What follows the whole part is taken over. -/
theorem decimalTail?_takes {whole : List Char} {plain : Bool} {t : Token}
    (h : decimalTail? whole plain cs = some (t, rest)) : Takes cs rest ∧ Ends t rest := by
  unfold decimalTail? at h
  split at h
  · split at h
    · obtain ⟨rfl, hends⟩ := endNumber?_ends (.inl rfl) h
      exact ⟨takes_wordly (isWordly_of_letter (by decide)) (.refl _), hends⟩
    · exact nomatch h
  · obtain ⟨⟨fraction, left⟩, hdigits, h⟩ := Option.bind_eq_some_iff.1 h
    obtain ⟨⟨e, left'⟩, hexponent, h⟩ := Option.bind_eq_some_iff.1 h
    obtain ⟨rfl, hends⟩ := endNumber?_ends (.inr ⟨_, rfl⟩) h
    have htakes := (digits?_takes hdigits).trans (exponent?_takes hexponent)
    exact ⟨.cons (by decide) (by decide) htakes, hends⟩
  · obtain ⟨⟨e, left⟩, hexponent, h⟩ := Option.bind_eq_some_iff.1 h
    obtain ⟨rfl, hends⟩ := endNumber?_ends (.inr ⟨_, rfl⟩) h
    exact ⟨exponent?_takes hexponent, hends⟩

/-- A number with a base is taken over. -/
theorem inBase?_takes {base : Nat} {t : Token} (h : inBase? base cs = some (t, rest)) :
    Takes cs rest ∧ Ends t rest := by
  obtain ⟨⟨ds, left⟩, hdigits, h⟩ := Option.bind_eq_some_iff.1 h
  obtain ⟨_, -, h⟩ := Option.bind_eq_some_iff.1 h
  have htakes := digits?_takes hdigits
  split at h
  · obtain ⟨rfl, hends⟩ := endNumber?_ends (.inl rfl) h
    exact ⟨htakes.trans (takes_wordly (isWordly_of_letter (by decide)) (.refl _)), hends⟩
  · obtain ⟨rfl, hends⟩ := endNumber?_ends (.inr ⟨_, rfl⟩) h
    exact ⟨htakes, hends⟩

/-- A number that begins with zero is taken over. -/
theorem leadingZero?_takes {t : Token} (h : leadingZero? cs = some (t, rest)) :
    Takes cs rest ∧ Ends t rest := by
  have htakes := takes_dropWhile (fun _ ↦ isWordly_of_isDigit) cs
  unfold leadingZero? at h
  dsimp only at h
  split at h
  · obtain ⟨rfl, hends⟩ := endNumber?_ends (.inr ⟨_, rfl⟩) h
    exact ⟨htakes, hends⟩
  · exact (decimalTail?_takes h).imp_left htakes.trans

/-- Every number is taken over. -/
theorem number?_takes {t : Token} (hc : c.isDigit = true ∨ c = '.')
    (h : number? (c :: cs) = some (t, rest)) : Takes cs rest ∧ Ends t rest := by
  have hletter {a b : Char} (hab : a ∈ "_neExXoObB".toList ∧ b ∈ "_neExXoObB".toList) {d : Char}
      (hd : d = a ∨ d = b) : isWordly d = true :=
    hd.elim (fun hd ↦ isWordly_of_letter (hd ▸ hab.1)) fun hd ↦ isWordly_of_letter (hd ▸ hab.2)
  unfold number? at h
  split at h
  · rename_i d tail heq
    cases heq
    split at h
    · rename_i hd
      exact (inBase?_takes h).imp_left (takes_wordly (hletter (by decide) hd))
    split at h
    · rename_i hd
      exact (inBase?_takes h).imp_left (takes_wordly (hletter (by decide) hd))
    split at h
    · rename_i hd
      exact (inBase?_takes h).imp_left (takes_wordly (hletter (by decide) hd))
    split at h
    · exact leadingZero?_takes h
    split at h
    · exact nomatch h
    · exact decimalTail?_takes h
  · rename_i tail heq
    cases heq
    obtain ⟨⟨fraction, left⟩, hdigits, h⟩ := Option.bind_eq_some_iff.1 h
    obtain ⟨⟨e, left'⟩, hexponent, h⟩ := Option.bind_eq_some_iff.1 h
    obtain ⟨rfl, hends⟩ := endNumber?_ends (.inr ⟨_, rfl⟩) h
    exact ⟨(digits?_takes hdigits).trans (exponent?_takes hexponent), hends⟩
  · rename_i hzero hpoint
    obtain ⟨⟨ds, left⟩, hdigits, h⟩ := Option.bind_eq_some_iff.1 h
    have hdigit : c.isDigit = true := hc.resolve_right fun hc ↦ hpoint cs (hc ▸ rfl)
    have hleft : left = cs.dropWhile (fun c ↦ Number.isDigitIn 10 c || c == '_') := by
      rw [(digits?_eq_some hdigits).1, List.dropWhile_cons_of_pos]
      exact Bool.or_eq_true_iff.2 (.inl (isDigitIn_of_isDigit hdigit))
    have htakes : Takes cs left := hleft ▸ takes_dropWhile (fun _ ↦ isWordly_of_digits) cs
    exact (decimalTail?_takes h).imp_left htakes.trans

end

/-! ### Escapes and quoted text -/

section

variable {cs rest : List Char}

/-- The digits of an escape, in braces or not. -/
theorem codePoint?_eq_some {n : Nat} (h : codePoint? cs = some (n, rest)) :
    ∃ ds, (∀ d ∈ ds, d.isAlphanum = true) ∧
      (cs = '\x7b' :: ds ++ '\x7d' :: rest ∨ ds ≠ [] ∧ cs = ds ++ rest) := by
  unfold codePoint? at h
  split at h
  · rename_i tail
    dsimp only at h
    split at h
    · rename_i left hclose
      split at h
      · exact nomatch h
      · cases h
        refine ⟨tail.takeWhile isHexDigit, fun d hd ↦ ?_, .inl ?_⟩
        · exact Markup.isAlphanum_of_isDigitIn (List.mem_takeWhile_imp hd)
        · rw [List.cons_append, ← hclose, List.takeWhile_append_dropWhile]
    · exact nomatch h
  · rename_i a b c d tail _
    split at h
    · rename_i hdigits
      cases h
      refine ⟨[a, b, c, d], fun e he ↦ ?_, .inr ⟨List.cons_ne_nil _ _, rfl⟩⟩
      exact Markup.isAlphanum_of_isDigitIn (List.all_eq_true.1 hdigits e he)
    · exact nomatch h
  · exact nomatch h

/-- A stretch in which quoted text and template text do not end. -/
inductive Inert : List Char → Prop
  | nil : Inert []
  | cons {c : Char} {t : List Char} (hc : c.isAlphanum = true ∨ c = '\x7b' ∨ c = '\x7d')
    (h : Inert t) : Inert (c :: t)
  | escape (c : Char) {t : List Char} (h : Inert t) : Inert ('\\' :: c :: t)

/-- Inert texts in a row. -/
theorem Inert.append {t u : List Char} (ht : Inert t) (hu : Inert u) : Inert (t ++ u) := by
  induction ht with
  | nil => exact hu
  | cons hc _ ih => exact .cons hc ih
  | escape c _ ih => exact .escape c ih

/-- Letters and digits are inert. -/
theorem Inert.of_alphanum {t : List Char} (ht : ∀ d ∈ t, d.isAlphanum = true) : Inert t := by
  induction t with
  | nil => exact .nil
  | cons c t ih =>
    rw [List.forall_mem_cons] at ht
    exact .cons (.inl ht.1) (ih ht.2)

/-- So is the number of a code point. -/
theorem Inert.of_codePoint? {n : Nat} (h : codePoint? cs = some (n, rest)) :
    ∃ t, Inert t ∧ cs = t ++ rest := by
  obtain ⟨ds, hds, rfl | ⟨-, rfl⟩⟩ := codePoint?_eq_some h
  · refine ⟨'\x7b' :: ds ++ ['\x7d'], .cons (.inr (.inl rfl)) ?_, by simp⟩
    exact (Inert.of_alphanum hds).append (.cons (.inr (.inr rfl)) .nil)
  · exact ⟨ds, .of_alphanum hds, rfl⟩

/-- An octal escape takes digits only. -/
theorem octalEscape_eq {c : Char} (hdigit : c.isDigit = true) (hle : c ≤ '7') (cs : List Char) :
    ∃ t, (∀ d ∈ t, d.isAlphanum = true) ∧ cs = t ++ (octalEscape (c :: cs)).2 := by
  have hoctal := isDigitIn_of_le hdigit hle (by decide : '7'.toNat < 8 + 48)
  obtain ⟨k, hk, hdrop⟩ : ∃ k ≤ (cs.takeWhile (Number.isDigitIn 8)).length,
      (octalEscape (c :: cs)).2 = cs.drop k := by
    have hdrop (n : Nat) : (c :: cs).drop (min (n + 1)
        ((cs.takeWhile (Number.isDigitIn 8)).length + 1)) =
          cs.drop (min n (cs.takeWhile (Number.isDigitIn 8)).length) := by
      rw [Nat.add_min_add_right, List.drop_succ_cons]
    simp only [octalEscape, List.takeWhile_cons_of_pos hoctal, List.length_cons]
    by_cases hle : (c :: cs).head?.getD '7' ≤ '3'
    · exact ⟨min 2 _, Nat.min_le_right _ _, by rw [if_pos hle, hdrop]⟩
    · exact ⟨min 1 _, Nat.min_le_right _ _, by rw [if_neg hle, hdrop]⟩
  refine ⟨cs.take k, fun d hd ↦ ?_, by rw [hdrop, List.take_append_drop]⟩
  rw [← List.takeWhile_append_dropWhile (p := Number.isDigitIn 8) (l := cs),
    List.take_append_of_le_length hk] at hd
  exact Markup.isAlphanum_of_isDigitIn (List.mem_takeWhile_imp (List.mem_of_mem_take hd))

/-- What an escape has behind its first character. A line may end there with two characters. -/
theorem escape?_eq_some {inTemplate : Bool} {points : List Nat}
    (h : escape? inTemplate cs = some (points, rest)) :
    ∃ c t, cs = c :: t ++ rest ∧ (Inert t ∨ c = '\r' ∧ t = ['\n']) := by
  unfold escape? at h
  split at h
  · cases h
  rename_i c left
  split at h
  case h_1 | h_2 | h_3 | h_4 | h_5 | h_6 =>
    cases h
    exact ⟨_, [], rfl, .inl .nil⟩
  case h_7 =>
    split at h
    · rename_i a b tail
      split at h
      · rename_i hdigits
        rw [Bool.and_eq_true] at hdigits
        cases h
        exact ⟨_, [a, b], rfl, .inl (.cons (.inl (Markup.isAlphanum_of_isDigitIn hdigits.1))
          (.cons (.inl (Markup.isAlphanum_of_isDigitIn hdigits.2)) .nil))⟩
      · cases h
    · cases h
  case h_8 =>
    split at h
    · cases h
    · rename_i high after hhigh
      obtain ⟨t, ht, rfl⟩ := Inert.of_codePoint? hhigh
      have hone (heq : after = rest) : ∃ c u, 'u' :: (t ++ after) = c :: u ++ rest ∧
          (Inert u ∨ c = '\r' ∧ u = ['\n']) := ⟨'u', t, heq ▸ rfl, .inl ht⟩
      split at h
      · split at h
        · rename_i more
          split at h
          · rename_i low _ hlow
            split at h
            · cases h
              obtain ⟨u, hu, rfl⟩ := Inert.of_codePoint? hlow
              exact ⟨'u', t ++ '\\' :: 'u' :: u, by simp, .inl (ht.append (.escape 'u' hu))⟩
            · cases h
              exact hone rfl
          · cases h
            exact hone rfl
        · cases h
          exact hone rfl
      · cases h
        exact hone rfl
  case h_9 =>
    split at h
    · cases h
      exact ⟨_, ['\n'], rfl, .inr ⟨rfl, rfl⟩⟩
    · cases h
      exact ⟨_, [], rfl, .inl .nil⟩
  case h_10 =>
    split at h
    · cases h
      exact ⟨_, [], rfl, .inl .nil⟩
    split at h
    · rename_i hdigit
      split at h
      · split at h
        · cases h
          exact ⟨_, [], rfl, .inl .nil⟩
        · cases h
      split at h
      · rename_i hle
        cases h
        obtain ⟨t, ht, heq⟩ := octalEscape_eq hdigit hle left
        exact ⟨c, t, congrArg (c :: ·) heq, .inl (.of_alphanum ht)⟩
      · cases h
        exact ⟨_, [], rfl, .inl .nil⟩
    · cases h
      exact ⟨_, [], rfl, .inl .nil⟩

/-- Letters, digits and braces end no quoted text. -/
theorem ne_of_inert {c : Char} (hc : c.isAlphanum = true ∨ c = '\x7b' ∨ c = '\x7d') :
    ∀ d ∈ ['"', '\'', '\\', '\n', '\x60', '$'], c ≠ d := by
  have hends : ['"', '\'', '\\', '\n', '\x60', '$'].all
      (fun d ↦ !(d.isAlphanum || d == '\x7b' || d == '\x7d')) = true := by decide
  rintro d hd rfl
  have hnone := List.all_eq_true.1 hends c hd
  simp only [Bool.not_eq_true', Bool.or_eq_false_iff, beq_eq_false_iff_ne] at hnone
  rcases hc with hc | hc | hc
  · exact Bool.false_ne_true (hnone.1.1.symm.trans hc)
  · exact hnone.1.2 hc
  · exact hnone.2 hc

/-- An inert text is skipped within a string. -/
theorem afterString_inert {quote : Char} (hquote : quote = '"' ∨ quote = '\'') {t : List Char}
    (ht : Inert t) (rest : List Char) : afterString quote (t ++ rest) = afterString quote rest := by
  induction ht with
  | nil => rfl
  | @cons c t hc _ ih =>
    have hne := ne_of_inert hc
    have hstays : ¬(c = quote ∨ c = '\n') := by
      rintro (rfl | rfl)
      · rcases hquote with rfl | rfl
        · exact hne '"' (by decide) rfl
        · exact hne '\'' (by decide) rfl
      · exact hne '\n' (by decide) rfl
    rw [List.cons_append, afterString_cons quote (hne '\\' (by decide)), if_neg hstays, ih]
  | escape c _ ih => rw [List.cons_append, afterString_escape, List.cons_append, List.tail_cons, ih]

/-- Inert text within a template is passed over. -/
theorem afterTemplate_inert {t : List Char} (ht : Inert t) (rest : List Char) :
    afterTemplate (t ++ rest) = afterTemplate rest := by
  induction ht with
  | nil => rfl
  | @cons c t hc _ ih =>
    have hne := ne_of_inert hc
    rw [List.cons_append, afterTemplate_cons (hne '\\' (by decide)) (hne '\x60' (by decide))
      (fun h ↦ hne '$' (by decide) h.1), ih]
  | escape c _ ih =>
    rw [List.cons_append, afterTemplate_escape, List.cons_append, List.tail_cons, ih]

/-- A quoted text ends for the scan where it ends, unless it goes on behind two line ends. -/
theorem stringBody?_skipped {quote : Char} (hquote : quote = '"' ∨ quote = '\'') {fuel : Nat}
    {acc : List Nat} {s : String} (h : stringBody? quote fuel acc cs = some (s, rest)) :
    ∃ t, cs = t ++ rest ∧ (¬['\r', '\n'] <:+: t → afterString quote cs = rest) := by
  fun_induction stringBody? quote fuel acc cs
  case case1 | case2 | case5 | case6 => exact nomatch h
  case case3 left =>
    cases h
    refine ⟨[quote], rfl, fun _ ↦ ?_⟩
    have hescape : quote ≠ '\\' := by rcases hquote with rfl | rfl <;> decide
    rw [afterString_cons quote hescape, if_pos (.inl rfl)]
  case case4 points left hescaped _ ih =>
    obtain ⟨t, rfl, ht⟩ := ih h
    obtain ⟨c, u, rfl, hu⟩ := escape?_eq_some hescaped
    refine ⟨'\\' :: c :: u ++ t, by simp, fun hline ↦ ?_⟩
    rw [afterString_escape, List.cons_append, List.tail_cons]
    rcases hu with hu | ⟨rfl, rfl⟩
    · rw [afterString_inert hquote hu]
      exact ht fun hin ↦ hline (hin.trans (List.suffix_append _ t).isInfix)
    · exact absurd ⟨['\\'], t, rfl⟩ hline
  case case7 c left hquote hescape hline ih =>
    obtain ⟨t, rfl, ht⟩ := ih h
    refine ⟨c :: t, rfl, fun hline' ↦ ?_⟩
    rw [afterString_cons quote hescape, if_neg (not_or.2 ⟨hquote, fun h ↦ hline (.inl h)⟩)]
    exact ht fun hin ↦ hline' (hin.trans (List.suffix_cons c t).isInfix)

/-- The scan skips the part of a template that the reader reads. -/
theorem templateBody?_skipped {fuel : Nat} {good : Bool} {acc : List Nat} {t : Token}
    (h : templateBody? fuel good acc cs = some (t, rest)) :
    ∃ text last, t = .template text last ∧ afterTemplate cs = (rest, !last) := by
  fun_induction templateBody? fuel good acc cs
  case case1 | case2 => exact nomatch h
  case case3 => 
    cases h
    exact ⟨_, _, rfl, rfl⟩
  case case4 hescaped _ ih =>
    obtain ⟨c, u, rfl, hu⟩ := escape?_eq_some hescaped
    obtain ⟨text, last, rfl, hafter⟩ := ih h
    refine ⟨text, last, rfl, ?_⟩
    rw [afterTemplate_escape, List.cons_append, List.tail_cons, ← hafter]
    rcases hu with hu | ⟨-, rfl⟩
    · exact afterTemplate_inert hu _
    · exact afterTemplate_cons (by decide) (by decide) (by simp)
  case case5 ih =>
    obtain ⟨text, last, rfl, hafter⟩ := ih h
    refine ⟨text, last, rfl, ?_⟩
    rw [afterTemplate_escape, ← hafter, List.drop_one]
  case case6 =>
    cases h
    exact ⟨_, _, rfl, rfl⟩
  case case7 ih =>
    obtain ⟨text, last, rfl, hafter⟩ := ih h
    refine ⟨text, last, rfl, ?_⟩
    rw [← hafter]
    rfl
  case case8 ih =>
    obtain ⟨text, last, rfl, hafter⟩ := ih h
    refine ⟨text, last, rfl, ?_⟩
    rw [← hafter]
    rfl
  case case9 hsubstitution _ _ hend hescape ih =>
    obtain ⟨text, last, rfl, hafter⟩ := ih h
    refine ⟨text, last, rfl, ?_⟩
    rw [← hafter]
    exact afterTemplate_cons hescape hend (not_pair_of_ne_cons hsubstitution)

/-- The scan skips the regular expression that the reader reads. -/
theorem regexBody?_skipped {inClass : Bool} (h : regexBody? inClass cs = some rest) :
    afterRegexBody inClass cs = rest := by
  fun_induction regexBody? inClass cs
  case case1 | case2 | case3 | case5 => exact nomatch h
  case case4 ih => rw [afterRegexBody_escape, List.tail_cons, ih h]
  case case6 inClass c left hescape _ hend =>
    cases h
    obtain ⟨rfl, rfl⟩ : c = '/' ∧ inClass = false := by simpa using hend
    rfl
  case case7 hescape hline hend ih =>
    rename_i inClass c left
    rw [afterRegexBody_cons _ hescape, ← ih h]
    have hnot : ¬(c = '/' ∧ inClass = false) := by simpa using hend
    have hbreak : c ≠ '\n' := by
      rintro rfl
      exact hline rfl
    rw [if_neg hnot, if_neg hbreak]
    split
    · rfl
    · split <;> rfl

/-- Behind a regular expression the scan is where the language is, unless no token begins there. -/
theorem afterRegex?_skipped (h : afterRegex? cs = some rest) :
    afterRegex cs = rest ∨ next? rest = none := by
  obtain ⟨body, hbody, h⟩ := Option.bind_eq_some_iff.1 h
  obtain ⟨_, hguard, heq⟩ := Option.bind_eq_some_iff.1 h
  have hflags : ∀ c ∈ body.takeWhile Text.isIdentifierPart, Text.isAlphabetic c = true := by
    have hletters : "dgimsuvy".toList.all (fun c ↦ c.isAlphanum && !c.isDigit) = true := by decide
    unfold guard at hguard
    split at hguard
    · rename_i hflags
      rw [Bool.and_eq_true, List.all_eq_true] at hflags
      intro c hc
      have hletter := List.all_eq_true.1 hletters c (List.contains_iff_mem.1 (hflags.1 c hc))
      rw [Bool.and_eq_true, Bool.not_eq_true'] at hletter
      exact ((isAlphanum_spec hletter.1).2.2 hletter.2).2
    · exact nomatch hguard
  cases heq
  have hafter : afterRegex cs =
      (body.dropWhile Text.isIdentifierPart).dropWhile Text.isAlphabetic := by
    rw [afterRegex, regexBody?_skipped hbody]
    conv_lhs => rw [← List.takeWhile_append_dropWhile (p := Text.isIdentifierPart) (l := body)]
    exact List.dropWhile_append_of_pos hflags
  have hstops := List.head?_dropWhile_not Text.isIdentifierPart body
  rw [hafter]
  cases hrest : body.dropWhile Text.isIdentifierPart with
  | nil => exact .inl rfl
  | cons c left =>
    rw [hrest, List.head?_cons] at hstops
    by_cases hc : Text.isAlphabetic c = true
    · have hleft : Stops (c :: left) := .of_not_part fun d hd ↦ Option.some.inj hd ▸ hstops
      obtain ⟨hname, hdigit⟩ := hleft c rfl
      exact .inr (next?_eq_none (isScanWordChar_of_isAlphabetic hc) hname hdigit left)
    · exact .inl (List.dropWhile_cons_of_neg hc)

/-! ### Gaps -/

/-- No comment begins where a gap ends. -/
theorem skipGap?_ne_comment {newLine newLine' : Bool} {gap : Gap} {tail : List Char}
    (h : skipGap? newLine gap cs = some (newLine', '/' :: tail)) :
    tail.head? ≠ some '/' ∧ tail.head? ≠ some '*' := by
  fun_induction skipGap? newLine gap cs
  case case1 | case2 => exact nomatch h
  case case7 hline hblock _ _ =>
    cases h
    refine ⟨fun hhead ↦ ?_, fun hhead ↦ ?_⟩
    · obtain ⟨left, rfl⟩ := List.head?_eq_some_iff.1 hhead
      exact hline left rfl rfl
    · obtain ⟨left, rfl⟩ := List.head?_eq_some_iff.1 hhead
      exact hblock left rfl rfl
  all_goals exact ‹_ → _› h

end

end Lexer

end Nodecraft.Script
