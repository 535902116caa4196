import Nodecraft.Proofs.Script.Lexemes

/-!
# Open brackets, token by token

A text read token by token has a list of open brackets at every place between two tokens. What a
slash stands for is for the grammar to say, so a reading goes by a list of its answers
(`Place.read?`) and is not bound to one grammar. The scan for nesting has no grammar and goes by
characters; the ways in which it parts from a reading are `Misreading`.

Up to the first of these the scan follows the reading (`Place.Tracked`): its frames are the open
brackets, its marks those of the template substitutions among them, and the character it goes by
says what the end of the token before says. Here this is carried over one character or skipped
stretch at a time.
-/

set_option autoImplicit false

namespace Nodecraft.Script

inductive Bracket
  | round
  | square
  | curly
  | substitution
  deriving DecidableEq, Repr

namespace Bracket

/-- The bracket that a punctuator opens. -/
def opened? (text : String) : Option Bracket :=
  if text = "(" then some .round
  else if text = "[" then some .square
  else if text = "\x7b" then some .curly
  else none

/-- The bracket that a punctuator closes. -/
def closed? (text : String) : Option Bracket :=
  if text = ")" then some .round
  else if text = "]" then some .square
  else if text = "\x7d" then some .curly
  else none

theorem eq_of_closed?_curly {text : String} (h : closed? text = some .curly) :
    text = "\x7d" := by
  unfold closed? at h
  split at h
  · exact nomatch h
  split at h
  · exact nomatch h
  split at h
  · assumption
  · exact nomatch h

end Bracket

/-- Where a text is between two tokens. -/
structure Place where
  /-- The open brackets, innermost first. -/
  opened : List Bracket
  /-- Whether the last character of the token before is one that an operand follows. -/
  awaiting : Bool
  rest : List Char
  deriving DecidableEq, Repr

namespace Place

/-- A script is read from behind its hashbang line. -/
def start (source : String) : Place := ⟨[], true, Lexer.afterHashbang source.toList⟩

/-- Where template text leaves off. -/
def behindText (opened : List Bracket) (last : Bool) (rest : List Char) : Place :=
  if last then ⟨opened, false, rest⟩ else ⟨.substitution :: opened, true, rest⟩

/-- A bracket is closed by its own kind only. -/
def punctuate (opened : List Bracket) (text : String) : List Bracket :=
  match Bracket.opened? text, Bracket.closed? text with
  | some b, _ => b :: opened
  | none, some b => if opened.head? = some b then opened.tail else opened
  | none, none => opened

/-- The place behind a token. `operand` tells whether the grammar awaits an operand there, so that
a slash starts a regular expression. A brace that ends a substitution resumes template text. -/
def behind? (p : Place) (operand : Bool) (l : Lexeme) : Option Place :=
  match l.token with
  | .endOfText => none
  | .template _ last => some (behindText p.opened last l.rest)
  | .punct text =>
    if operand && l.start.head? == some '/' then
      (Lexer.afterRegex? l.start.tail).map fun rest => ⟨p.opened, false, rest⟩
    else if text == "\x7d" && p.opened.head? == some .substitution then
      match Lexer.template? l.rest with
      | some (.template _ last, rest) => some (behindText p.opened.tail last rest)
      | _ => none
    else some ⟨punctuate p.opened text, expectsOperand text.toList.getLast?, l.rest⟩
  | _ => some ⟨p.opened, false, l.rest⟩

def next? (p : Place) (operand : Bool) : Option Place :=
  (Lexer.next? p.rest).bind (p.behind? operand)

/-- Reads a token for each answer of the grammar. -/
def read? (p : Place) : List Bool → Option Place
  | [] => some p
  | operand :: goals => (p.next? operand).bind fun next => next.read? goals

end Place

/-! ### Where the scan parts from the language -/

inductive Misreading
  /-- The first line says what runs the script. -/
  | hashbang
  /-- A line comment ends without a line feed, and more than blanks stand before the next one. -/
  | comment
  /-- The last character before a slash does not tell whether the slash divides. -/
  | slash
  /-- A quoted text goes on behind a carriage return and a line feed. -/
  | continuation
  /-- A bracket is closed by one of another kind. -/
  | stray
  deriving DecidableEq, Repr

/-- Whether a byte order mark stands among the blanks of a gap. -/
def isMarked : Lexer.Gap → List Char → Bool
  | _, [] => false
  | .blank, '/' :: '/' :: rest => isMarked .lineComment rest
  | .blank, '/' :: '*' :: rest => isMarked .blockComment rest
  | .blank, c :: rest =>
    if Lexer.isLineEnd c || Lexer.isSpace c then c == '\uFEFF' || isMarked .blank rest else false
  | .lineComment, c :: rest =>
    if Lexer.isLineEnd c then isMarked .blank rest else isMarked .lineComment rest
  | .blockComment, '*' :: '/' :: rest => isMarked .blank rest
  | .blockComment, _ :: rest => isMarked .blockComment rest

/-- Whether more than blanks stand before the next line feed behind a line comment of a gap. -/
def runsOn : Lexer.Gap → List Char → Bool
  | _, [] => false
  | .blank, '/' :: '/' :: rest => runsOn .lineComment rest
  | .blank, '/' :: '*' :: rest => runsOn .blockComment rest
  | .blank, c :: rest =>
    if Lexer.isLineEnd c || Lexer.isSpace c then runsOn .blank rest else false
  | .lineComment, c :: rest =>
    if Lexer.isLineEnd c then
      c != '\n' && !(rest.takeWhile (· != '\n')).all Text.isBlank || runsOn .blank rest
    else runsOn .lineComment rest
  | .blockComment, '*' :: '/' :: rest => runsOn .blank rest
  | .blockComment, _ :: rest => runsOn .blockComment rest

/-- The characters of a token. -/
def Lexeme.text (l : Lexeme) : List Char := l.start.take (l.start.length - l.rest.length)

namespace Place

/-- Whether the scan misreads a token, or the gap before it, in the given way. -/
def misreads (p : Place) (operand : Bool) (l : Lexeme) : Misreading → Bool
  | .hashbang => false
  | .comment => runsOn .blank p.rest
  | .slash => l.start.head? == some '/' && operand != (p.awaiting && !isMarked .blank p.rest)
  | .continuation =>
    match l.token with
    | .string _ => ['\r', '\n'] <:+: l.text
    | _ => false
  | .stray =>
    match l.token with
    | .punct text =>
      match p.opened.head?, Bracket.closed? text with
      | some .substitution, some closed => closed != .curly
      | some innermost, some closed => closed != innermost
      | _, _ => false
    | _ => false

def misreadingsAt (p : Place) (operand : Bool) (l : Lexeme) : List Misreading :=
  [.comment, .slash, .continuation, .stray].filter (p.misreads operand l)

/-- What the scan misreads in the course of a reading. -/
def misreadings (p : Place) : List Bool → List Misreading
  | [] => []
  | operand :: goals =>
    ((Lexer.next? p.rest).map (p.misreadingsAt operand)).getD [] ++
      ((p.next? operand).map fun next => next.misreadings goals).getD []

end Place

def misreadings (source : String) (goals : List Bool) : List Misreading :=
  (if "#!".toList.isPrefixOf source.toList then [.hashbang] else []) ++
    (Place.start source).misreadings goals

/-! ### The scan at a place -/

/-- The numbers of frames at the template substitutions among open brackets. -/
def marks : List Bracket → List Nat
  | [] => []
  | .substitution :: opened => (opened.length + 2) :: marks opened
  | _ :: opened => marks opened

/-- A substitution lies no deeper than there are brackets open. -/
theorem marks_le (opened : List Bracket) : ∀ m ∈ marks opened, m ≤ opened.length + 1 := by
  induction opened with
  | nil => exact fun _ hm ↦ absurd hm List.not_mem_nil
  | cons b opened ih =>
    have hle : ∀ m ∈ marks opened, m ≤ (b :: opened).length + 1 :=
      fun m hm ↦ Nat.le_succ_of_le (ih m hm)
    cases b with
    | substitution => exact List.forall_mem_cons.2 ⟨Nat.le_refl _, hle⟩
    | round | square | curly => exact hle

namespace Nesting

/-- The frames are those of the open brackets. -/
structure Holds (n : Nesting) (opened : List Bracket) : Prop where
  balanced : n.Balanced
  length_eq : n.frames.length = opened.length + 1
  substitutions_eq : n.substitutions = marks opened

namespace Holds

variable {n : Nesting} {opened : List Bracket}

/-- Open brackets are counted by the depth. -/
theorem length_le (h : n.Holds opened) : opened.length ≤ n.depth := by
  have hle := h.balanced.length_le
  rw [h.length_eq] at hle
  exact Nat.le_of_succ_le_succ hle

/-- A substitution ends with the next brace exactly if it is innermost. -/
theorem inSubstitution_eq (h : n.Holds opened) :
    n.inSubstitution = (opened.head? == some .substitution) := by
  rw [Bool.eq_iff_iff, beq_iff_eq, inSubstitution, h.length_eq, h.substitutions_eq, beq_iff_eq]
  cases opened with
  | nil => simp [marks]
  | cons b opened =>
    have hle (hhead : (marks opened).head? = some ((b :: opened).length + 1)) : False := by
      have := marks_le opened _ (List.mem_of_head? hhead)
      rw [List.length_cons] at this
      omega
    cases b with
    | substitution => simp [marks]
    | round | square | curly => exact iff_of_false hle (by simp)

theorem start : Nesting.start.Holds [] := ⟨balanced_start, rfl, rfl⟩

theorem reset (h : n.Holds opened) : n.reset.Holds opened where
  balanced := h.balanced.reset
  length_eq := by
    rw [← h.length_eq]
    unfold Nesting.reset
    split <;> simp [*]
  substitutions_eq := by
    rw [← h.substitutions_eq]
    unfold Nesting.reset
    split <;> rfl

theorem chain (h : n.Holds opened) : n.chain.Holds opened where
  balanced := h.balanced.chain
  length_eq := by
    rw [← h.length_eq]
    unfold Nesting.chain
    split <;> simp [*]
  substitutions_eq := by
    rw [← h.substitutions_eq]
    unfold Nesting.chain
    split <;> rfl

theorem openSubstitution (h : n.Holds opened) :
    n.openSubstitution.Holds (.substitution :: opened) where
  balanced := h.balanced.openSubstitution
  length_eq := congrArg (· + 1) h.length_eq
  substitutions_eq := by
    simp only [Nesting.openSubstitution, Nesting.openBracket, List.length_cons, h.length_eq,
      h.substitutions_eq, marks]

theorem openBracket {b : Bracket} (hb : b ≠ .substitution) (h : n.Holds opened) :
    n.openBracket.Holds (b :: opened) where
  balanced := h.balanced.openBracket
  length_eq := congrArg (· + 1) h.length_eq
  substitutions_eq := by
    cases b with
    | substitution => exact absurd rfl hb
    | round | square | curly => exact h.substitutions_eq

/-- A closing bracket closes the innermost one, and none if none is open. -/
theorem closeBracket (h : n.Holds opened) : n.closeBracket.Holds opened.tail where
  balanced := h.balanced.closeBracket
  length_eq := by
    rw [Balanced.closeBracket_eq]
    cases opened with
    | nil => simp [h.length_eq]
    | cons b opened => simp [h.length_eq]
  substitutions_eq := by
    rw [Balanced.closeBracket_eq, h.inSubstitution_eq, h.substitutions_eq]
    rcases opened with _ | ⟨_ | _ | _ | _, opened⟩ <;> rfl

end Holds

end Nesting

namespace NestingScan

variable {s : NestingScan} {opened : List Bracket}

/-- A new line closes no brackets. -/
theorem holds_settleLine (h : s.nesting.Holds opened) (c : Char) :
    (s.settleLine c).nesting.Holds opened := by
  unfold settleLine
  split
  · dsimp only
    split
    · exact h
    · exact h.reset
  · exact h

end NestingScan

namespace Place

/-- The scan has come to the place and accepts what is left. -/
structure Tracks (p : Place) (s : NestingScan) : Prop where
  holds : s.nesting.Holds p.opened
  previous : expectsOperand s.previous = p.awaiting
  depth_le : s.nesting.depth ≤ maxNesting
  accepts : s.accepts p.rest = true

def Tracked (p : Place) : Prop := ∃ s, p.Tracks s

/-- Where the scan keeps track, no more brackets are open than it lets through. -/
theorem Tracked.length_le {p : Place} (h : p.Tracked) : p.opened.length ≤ maxNesting := by
  obtain ⟨s, hs⟩ := h
  exact Nat.le_trans hs.holds.length_le hs.depth_le

section

variable {opened left : List Bracket} {awaiting behind : Bool} {c : Char} {cs rest : List Char}

/-- A step of the scan from one place to another. -/
theorem Tracked.next (h : Tracked ⟨opened, awaiting, c :: cs⟩)
    (hstep : ∀ s : NestingScan, s.nesting.Holds opened → expectsOperand s.previous = awaiting →
      (s.step c cs).1.nesting.Holds left ∧ expectsOperand (s.step c cs).1.previous = behind ∧
        (s.step c cs).2 = rest) : Tracked ⟨left, behind, rest⟩ := by
  obtain ⟨s, hs⟩ := h
  obtain ⟨hholds, hprevious, hrest⟩ := hstep s hs.holds hs.previous
  obtain ⟨hdepth, haccepts⟩ := (s.accepts_cons c cs).1 hs.accepts
  exact ⟨_, hholds, hprevious, hdepth, hrest ▸ haccepts⟩

/-- A blank changes nothing. -/
theorem tracked_blank (hblank : Text.isBlank c = true) (h : Tracked ⟨opened, awaiting, c :: cs⟩) :
    Tracked ⟨opened, awaiting, cs⟩ :=
  h.next fun s hholds hprevious ↦ by
    rw [NestingScan.step_blank hblank]
    exact ⟨hholds, hprevious, rfl⟩

/-- Nor does a comment to the end of the line. -/
theorem tracked_lineComment (h : Tracked ⟨opened, awaiting, '/' :: '/' :: cs⟩) :
    Tracked ⟨opened, awaiting, cs.dropWhile (· != '\n')⟩ :=
  h.next fun _ hholds hprevious ↦ ⟨hholds, hprevious, rfl⟩

theorem afterBlockComment_fst (newLine newLine' : Bool) (cs : List Char) :
    (afterBlockComment newLine cs).1 = (afterBlockComment newLine' cs).1 := by
  fun_induction afterBlockComment newLine cs generalizing newLine'
  case case1 => rfl
  case case2 => rfl
  case case3 c cs newLine hnot ih =>
    rw [ih (newLine' || _), afterBlockComment_cons newLine' (not_pair_of_ne_cons hnot)]

/-- Nor does any other comment. -/
theorem tracked_blockComment (h : Tracked ⟨opened, awaiting, '/' :: '*' :: cs⟩) :
    Tracked ⟨opened, awaiting, (afterBlockComment false cs).1⟩ :=
  h.next fun _ hholds hprevious ↦ ⟨hholds, hprevious, afterBlockComment_fst _ _ cs⟩

/-- A character that begins a token for the scan. -/
theorem Tracked.token (hblank : Text.isBlank c = false)
    (hcomment : c = '/' → cs.head? ≠ some '/' ∧ cs.head? ≠ some '*')
    (h : Tracked ⟨opened, awaiting, c :: cs⟩)
    (htoken : ∀ s : NestingScan, (s.settleLine c).nesting.Holds opened →
      expectsOperand s.previous = awaiting →
      (s.token c cs).1.nesting.Holds left ∧ expectsOperand (s.token c cs).1.previous = behind ∧
        (s.token c cs).2 = rest) : Tracked ⟨left, behind, rest⟩ :=
  h.next fun s hholds hprevious ↦ by
    rw [NestingScan.step_token hblank (fun h ↦ (hcomment h.1).1 h.2)
      (fun h ↦ (hcomment h.1).2 h.2)]
    exact htoken s (NestingScan.holds_settleLine hholds c) hprevious

theorem not_expectsOperand_operandEnd :
    expectsOperand (some NestingScan.operandEnd) = false := by decide

/-- A string is an operand. -/
theorem tracked_string {quote : Char} (hquote : quote = '"' ∨ quote = '\'')
    (h : Tracked ⟨opened, awaiting, quote :: cs⟩) :
    Tracked ⟨opened, false, afterString quote cs⟩ := by
  have hblank : Text.isBlank quote = false := by rcases hquote with rfl | rfl <;> decide
  have hslash : quote ≠ '/' := by rcases hquote with rfl | rfl <;> decide
  refine h.token hblank (fun h ↦ absurd h hslash) fun s hholds _ ↦ ?_
  rw [NestingScan.token_quote hquote.symm]
  exact ⟨hholds, not_expectsOperand_operandEnd, rfl⟩

/-- Template text is skipped from where it starts or resumes. -/
theorem tracked_text {s : NestingScan} {n : Nesting} (h : n.Holds opened) {last : Bool}
    (hafter : afterTemplate cs = (rest, !last)) :
    (s.template n cs).1.nesting.Holds (behindText opened last rest).opened ∧
      expectsOperand (s.template n cs).1.previous = (behindText opened last rest).awaiting ∧
      (s.template n cs).2 = (behindText opened last rest).rest := by
  unfold NestingScan.template
  rw [hafter]
  cases last with
  | false => exact ⟨h.openSubstitution, expectsOperand_iff.2 (by decide), rfl⟩
  | true => exact ⟨h, not_expectsOperand_operandEnd, rfl⟩

/-- The text of a template ends it or opens a substitution. -/
theorem tracked_template {last : Bool} (hafter : afterTemplate cs = (rest, !last))
    (h : Tracked ⟨opened, awaiting, '\x60' :: cs⟩) : Tracked (behindText opened last rest) := by
  refine h.token (by decide) (absurd · (by decide)) fun s hholds _ ↦ ?_
  rw [NestingScan.token_template]
  exact tracked_text hholds hafter

/-- Behind a substitution its template goes on. -/
theorem tracked_resumed {last : Bool} (hafter : afterTemplate cs = (rest, !last))
    (h : Tracked ⟨.substitution :: opened, awaiting, '\x7d' :: cs⟩) :
    Tracked (behindText opened last rest) := by
  refine h.token (by decide) (absurd · (by decide)) fun s hholds _ ↦ ?_
  rw [NestingScan.token_resume hholds.inSubstitution_eq]
  exact tracked_text hholds.closeBracket hafter

/-- A regular expression is one where an operand is awaited. -/
theorem tracked_regex (hcomment : cs.head? ≠ some '/' ∧ cs.head? ≠ some '*')
    (h : Tracked ⟨opened, true, '/' :: cs⟩) : Tracked ⟨opened, false, afterRegex cs⟩ := by
  refine h.token (by decide) (fun _ ↦ hcomment) fun s hholds hprevious ↦ ?_
  rw [NestingScan.token_regex hprevious]
  exact ⟨hholds, not_expectsOperand_operandEnd, rfl⟩

/-- A word is an operand. -/
theorem tracked_word (hc : isScanWordChar c = true) (h : Tracked ⟨opened, awaiting, c :: cs⟩) :
    Tracked ⟨opened, false, cs.dropWhile isScanWordChar⟩ := by
  obtain ⟨hblank, hmarks⟩ := isPlain_iff.1 (isPlain_of_isWordly (isWordly_of_isScanWordChar hc))
  have hne (d : Char) (hd : d ∈ scanMarks) : c ≠ d := fun h ↦ hmarks (h ▸ hd)
  have hquote : c ∉ ['\'', '"', '\x60'] := fun h ↦ hmarks (List.mem_of_mem_take (i := 3) h)
  refine h.token hblank (fun h ↦ absurd h (hne '/' (by decide))) fun s hholds _ ↦ ?_
  rw [NestingScan.token_word hquote (fun h ↦ absurd h (hne '\x7d' (by decide)))
    (fun h ↦ absurd h (hne '/' (by decide))) hc]
  refine ⟨?_, (by decide : expectsOperand (some 'a') = false), rfl⟩
  unfold NestingScan.word
  dsimp only
  split
  · exact hholds.chain
  · exact hholds

/-- Any other character that begins a token is taken by itself. -/
theorem Tracked.punctuated (hblank : Text.isBlank c = false) (hword : isScanWordChar c = false)
    (hquote : c ∉ ['\'', '"', '\x60']) (hbrace : c = '\x7d' → opened.head? ≠ some .substitution)
    (hslash : c = '/' → awaiting = false ∧ cs.head? ≠ some '/' ∧ cs.head? ≠ some '*')
    (hbehind : expectsOperand (some c) = behind) (h : Tracked ⟨opened, awaiting, c :: cs⟩)
    (hpunct : ∀ s : NestingScan, s.nesting.Holds opened → (s.punctuate c cs.head?).Holds left) :
    Tracked ⟨left, behind, cs⟩ := by
  refine h.token hblank (fun h ↦ (hslash h).2) fun s hholds hprevious ↦ ?_
  rw [NestingScan.token_punct hquote (fun h ↦ ?_) (fun h ↦ hprevious.trans (hslash h).1) hword]
  · exact ⟨hpunct _ hholds, hbehind, rfl⟩
  · rw [hholds.inSubstitution_eq]
    exact beq_eq_false_iff_ne.2 (hbrace h)

/-- The operators count chains and close nothing. -/
theorem holds_punctuate {s : NestingScan} (h : s.nesting.Holds opened)
    (hc : c ∉ ['(', '[', '\x7b', ')', ']', '\x7d']) (next : Option Char) :
    (s.punctuate c next).Holds opened := by
  unfold NestingScan.punctuate
  split
  case h_1 | h_2 | h_3 | h_4 | h_5 | h_6 => exact absurd (by decide) hc
  case h_7 | h_8 => exact h.reset
  case h_9 | h_10 | h_11 | h_12 =>
    split
    · exact h
    · exact h.chain
  case h_13 | h_14 => exact h.chain
  case h_15 => exact h

/-- Any other mark may await an operand. -/
theorem tracked_plain (hplain : isPlain c = true) (hword : isScanWordChar c = false)
    (h : Tracked ⟨opened, awaiting, c :: cs⟩) : Tracked ⟨opened, expectsOperand (some c), cs⟩ := by
  obtain ⟨hblank, hmarks⟩ := isPlain_iff.1 hplain
  have hnot {marks : List Char} (hsub : marks ⊆ scanMarks) : c ∉ marks := fun h ↦ hmarks (hsub h)
  refine h.punctuated hblank hword (hnot (by decide)) (fun hc ↦ ?_) (fun hc ↦ ?_) rfl
    fun s hholds ↦ holds_punctuate hholds (hnot (by decide)) _
  · exact absurd (hc ▸ by decide) hmarks
  · exact absurd (hc ▸ by decide) hmarks

/-- Elsewhere a slash divides. -/
theorem tracked_slash (hcomment : cs.head? ≠ some '/' ∧ cs.head? ≠ some '*')
    (h : Tracked ⟨opened, false, '/' :: cs⟩) : Tracked ⟨opened, true, cs⟩ :=
  h.punctuated (by decide) (not_isScanWordChar (by decide)) (by decide) (absurd · (by decide))
    (fun _ ↦ ⟨rfl, hcomment⟩) (by decide) fun _ hholds ↦ holds_punctuate hholds (by decide) _

/-- An opening bracket opens. -/
theorem tracked_open {b : Bracket}
    (hb : (c, b) ∈ [('(', Bracket.round), ('[', .square), ('\x7b', .curly)])
    (h : Tracked ⟨opened, awaiting, c :: cs⟩) : Tracked ⟨b :: opened, true, cs⟩ := by
  simp only [List.mem_cons, Prod.mk.injEq, List.not_mem_nil, or_false] at hb
  rcases hb with ⟨rfl, rfl⟩ | ⟨rfl, rfl⟩ | ⟨rfl, rfl⟩
  all_goals
    exact h.punctuated (by decide) (not_isScanWordChar (by decide)) (by decide) (absurd · (by decide))
      (absurd · (by decide)) (by decide) fun _ hholds ↦ hholds.openBracket (by decide)

/-- A closing bracket closes the innermost one, whatever its kind. -/
theorem tracked_close (hc : c ∈ [')', ']', '\x7d'])
    (hbrace : c = '\x7d' → opened.head? ≠ some .substitution)
    (h : Tracked ⟨opened, awaiting, c :: cs⟩) : Tracked ⟨opened.tail, false, cs⟩ := by
  simp only [List.mem_cons, List.not_mem_nil, or_false] at hc
  rcases hc with rfl | rfl | rfl
  all_goals
    exact h.punctuated (by decide) (not_isScanWordChar (by decide)) (by decide) hbrace
      (absurd · (by decide)) (by decide) fun _ hholds ↦ hholds.closeBracket

end

/-! ### Stretches -/

section

variable {opened : List Bracket} {awaiting : Bool} {c : Char} {cs rest : List Char}

/-- The scan has come to the place or has read on to the end of a word. -/
def Midword (p : Place) : Prop :=
  p.Tracked ∨ p.awaiting = false ∧ Tracked ⟨p.opened, false, p.rest.dropWhile isScanWordChar⟩

/-- Nor are more brackets open inside of a word. -/
theorem Midword.length_le {p : Place} (h : p.Midword) : p.opened.length ≤ maxNesting :=
  h.elim Tracked.length_le fun h ↦ h.2.length_le

/-- A character outside of words is where the scan is. -/
theorem Midword.tracked (hc : ∀ c ∈ cs.head?, isScanWordChar c = false)
    (h : Midword ⟨opened, awaiting, cs⟩) : Tracked ⟨opened, awaiting, cs⟩ := by
  rcases h with h | ⟨rfl, h⟩
  · exact h
  · have hstays : cs.dropWhile isScanWordChar = cs := by
      cases cs with
      | nil => rfl
      | cons c cs => exact List.dropWhile_cons_of_neg (Bool.eq_false_iff.1 (hc c rfl))
    exact hstays ▸ h

/-- A plain character inside of a word. -/
theorem Midword.plain (hplain : isPlain c = true) (h : Midword ⟨opened, awaiting, c :: cs⟩) :
    Midword ⟨opened, expectsOperand (some c), cs⟩ := by
  by_cases hword : isScanWordChar c = true
  · rw [not_expectsOperand_of_isWordly (isWordly_of_isScanWordChar hword)]
    rcases h with h | ⟨-, h⟩
    · exact .inr ⟨rfl, tracked_word hword h⟩
    · rw [List.dropWhile_cons_of_pos hword] at h
      exact .inr ⟨rfl, h⟩
  · rw [Bool.not_eq_true] at hword
    exact .inl (tracked_plain hplain hword (h.tracked fun d hd ↦ Option.some.inj hd ▸ hword))

/-- What each character of a stretch carries over holds behind its last one. -/
theorem stretch {P : Bool → List Char → Prop} {q : Char → Prop}
    (hstep : ∀ (awaiting : Bool) (c : Char) (cs : List Char), q c → P awaiting (c :: cs) →
      P (expectsOperand (some c)) cs) {t : List Char} (ht : ∀ c ∈ t, q c)
    (h : P awaiting (t ++ rest)) :
    P (t.getLast?.elim awaiting fun c ↦ expectsOperand (some c)) rest := by
  induction t generalizing awaiting with
  | nil => exact h
  | cons c t ih =>
    rw [List.forall_mem_cons] at ht
    have hbehind := ih ht.2 (hstep awaiting c (t ++ rest) ht.1 h)
    cases t with
    | nil => exact hbehind
    | cons d t =>
      rw [List.getLast?_cons_cons]
      rw [List.getLast?_eq_some_getLast (List.cons_ne_nil d t)] at hbehind ⊢
      exact hbehind

/-- Several of them. -/
theorem Midword.stretch {t : List Char} (hplain : ∀ c ∈ t, isPlain c = true)
    (h : Midword ⟨opened, awaiting, t ++ rest⟩) :
    Midword ⟨opened, t.getLast?.elim awaiting fun c ↦ expectsOperand (some c), rest⟩ :=
  Place.stretch (P := fun awaiting rest ↦ Midword ⟨opened, awaiting, rest⟩)
    (fun _ _ _ hc h ↦ h.plain hc) hplain h

/-- What numbers take over is plain. -/
theorem Midword.takes (htakes : Lexer.Takes cs rest) (h : Midword ⟨opened, false, cs⟩) :
    Midword ⟨opened, false, rest⟩ := by
  obtain ⟨t, rfl, hplain, hended⟩ := htakes
  have hbehind := h.stretch hplain
  cases hlast : t.getLast? with
  | none => rwa [hlast] at hbehind
  | some c =>
    rw [hlast, Option.elim_some, hended c hlast] at hbehind
    exact hbehind

/-- Where no name goes on, the scan is between words, unless no token begins there. -/
theorem Midword.settled (hstops : Lexer.Stops rest) (h : Midword ⟨opened, awaiting, rest⟩) :
    Lexer.next? rest = none ∨ Tracked ⟨opened, awaiting, rest⟩ := by
  cases rest with
  | nil => exact .inr (h.tracked nofun)
  | cons c rest =>
    by_cases hword : isScanWordChar c = true
    · obtain ⟨hname, hdigit⟩ := hstops c rfl
      exact .inl (Lexer.next?_eq_none hword hname hdigit rest)
    · exact .inr (h.tracked fun d hd ↦ Option.some.inj hd ▸ Bool.eq_false_iff.2 hword)

/-- So are letters and digits. -/
theorem Midword.alphanum {t : List Char} (ht : ∀ d ∈ t, d.isAlphanum = true)
    (h : Midword ⟨opened, awaiting, t ++ rest⟩) :
    Midword ⟨opened, t.getLast?.elim awaiting fun c ↦ expectsOperand (some c), rest⟩ :=
  h.stretch fun c hc ↦
    isPlain_of_isWordly (isWordly_of_isScanWordChar (isScanWordChar_of_isAlphanum (ht c hc)))

/-- So is a part of a name. -/
theorem Midword.part (hc : Text.isIdentifierPart c = true)
    (h : Midword ⟨opened, awaiting, c :: cs⟩) : Midword ⟨opened, false, cs⟩ := by
  have hwordly : isWordly c = true := isWordly_iff.2 (.inl hc)
  exact not_expectsOperand_of_isWordly hwordly ▸ h.plain (isPlain_of_isWordly hwordly)

/-- The scan opens and closes the braces of an escape. -/
theorem Midword.codePoint {n : Nat} (h : Lexer.codePoint? cs = some (n, rest))
    (hmid : Midword ⟨opened, false, cs⟩) : Midword ⟨opened, false, rest⟩ := by
  obtain ⟨ds, hds, rfl | ⟨hne, rfl⟩⟩ := Lexer.codePoint?_eq_some h
  · have hopen : Tracked ⟨opened, false, '\x7b' :: (ds ++ '\x7d' :: rest)⟩ :=
      hmid.tracked fun c hc ↦ Option.some.inj hc ▸ not_isScanWordChar (by decide)
    have hinside : Tracked ⟨.curly :: opened, true, ds ++ '\x7d' :: rest⟩ :=
      tracked_open (by decide) hopen
    have hclose := Midword.alphanum hds (.inl hinside)
    refine .inl (tracked_close (by decide) (fun _ ↦ ?_) (hclose.tracked fun c hc ↦ ?_))
    · exact nofun
    · exact Option.some.inj hc ▸ not_isScanWordChar (by decide)
  · have hbehind := hmid.alphanum hds
    have hlast := isScanWordChar_of_isAlphanum (hds _ (List.getLast_mem hne))
    rw [List.getLast?_eq_some_getLast hne, Option.elim_some,
      not_expectsOperand_of_isWordly (isWordly_of_isScanWordChar hlast)] at hbehind
    exact hbehind

/-- A name is followed to its end, with its escapes. -/
theorem Midword.nameChars {fuel : Nat} {first escaped : Bool} {name : List Char}
    (h : Lexer.nameChars? fuel first cs = some (name, escaped, rest))
    (hfirst : first = false → awaiting = false) (hmid : Midword ⟨opened, awaiting, cs⟩) :
    Midword ⟨opened, false, rest⟩ ∧ Lexer.Stops rest := by
  fun_induction Lexer.nameChars? fuel first cs generalizing name escaped awaiting
  case case1 | case3 | case4 | case5 | case7 | case9 => exact nomatch h
  case case2 hpoint _ _ ih =>
    obtain ⟨⟨more, escaped, left⟩, hmore, heq⟩ := Option.map_eq_some_iff.1 h
    cases heq
    have hescape : Midword ⟨opened, false, 'u' :: _⟩ := hmid.plain (by decide)
    have hletter := hescape.part (isAlphanum_spec (by decide)).2.1
    exact ih hmore (fun _ ↦ rfl) (hletter.codePoint hpoint)
  case case6 first accept c tail _ _ haccept ih =>
    obtain ⟨⟨more, escaped, left⟩, hmore, heq⟩ := Option.map_eq_some_iff.1 h
    cases heq
    have hpart : Text.isIdentifierPart c = true := by
      cases first with
      | true => exact isIdentifierPart_of_start haccept
      | false => exact haccept
    exact ih hmore (fun _ ↦ rfl) (hmid.part hpart)
  case case8 first accept c tail _ _ haccept hnot =>
    cases h
    have hfalse := Bool.eq_false_iff.2 hnot
    subst hfalse
    rw [hfirst rfl] at hmid
    exact ⟨hmid, .of_not_part fun d hd ↦ Option.some.inj hd ▸ Bool.eq_false_iff.2 haccept⟩
  case case10 hnot =>
    cases h
    rw [hfirst (Bool.eq_false_iff.2 hnot)] at hmid
    exact ⟨hmid, nofun⟩

/-- So is a whole name. -/
theorem Midword.name {name : String} {escaped : Bool}
    (h : Lexer.name? cs = some (name, escaped, rest)) (hmid : Midword ⟨opened, awaiting, cs⟩) :
    Midword ⟨opened, false, rest⟩ ∧ Lexer.Stops rest := by
  have hescaped (h : Lexer.escapedName? cs = some (name, escaped, rest)) :
      Midword ⟨opened, false, rest⟩ ∧ Lexer.Stops rest := by
    obtain ⟨⟨chars, escaped, left⟩, hchars, heq⟩ := Option.map_eq_some_iff.1 h
    cases heq
    exact Midword.nameChars hchars nofun hmid
  unfold Lexer.name? at h
  split at h
  · cases h
  · rename_i c tail
    split at h
    · rename_i hstart
      split at h
      · exact hescaped h
      · cases h
        have htakes := Lexer.takes_dropWhile
          (fun c hc ↦ isWordly_iff.2 (.inl hc)) tail (p := Text.isIdentifierPart)
        refine ⟨(hmid.part (isIdentifierPart_of_start hstart)).takes htakes, ?_⟩
        refine .of_not_part fun c hc ↦ ?_
        have hstops := List.head?_dropWhile_not Text.isIdentifierPart tail
        rw [hc] at hstops
        exact hstops
    · split at h
      · exact hescaped h
      · cases h

end

end Place

end Nodecraft.Script
