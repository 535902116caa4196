import Nodecraft.Script.Surface
import Nodecraft.Text.Letters
import Nodecraft.Text.Blank

/-!
An estimate of how deeply a script nests, taken from its characters before it is parsed: open
brackets, and chains of operators that a parser follows by recursion. Each bracket has a frame
that counts the chains inside it; separators and line ends reset the innermost frame.
-/

set_option autoImplicit false

namespace Nodecraft.Script

/-- Chain counts of the open brackets, innermost first and the whole script last. -/
structure Nesting where
  frames : List Nat
  /-- The number of frames at each open template substitution, innermost first. -/
  substitutions : List Nat
  depth : Nat
  deriving DecidableEq, Repr

namespace Nesting

def start : Nesting := ⟨[0], [], 0⟩

def openBracket (n : Nesting) : Nesting := { n with frames := 0 :: n.frames, depth := n.depth + 1 }

def openSubstitution (n : Nesting) : Nesting :=
  let n := n.openBracket
  { n with substitutions := n.frames.length :: n.substitutions }

/-- Whether the next closing brace ends a template substitution. -/
def inSubstitution (n : Nesting) : Bool := n.substitutions.head? == some n.frames.length

/-- A closing bracket takes its frame's chains with it; one too many is ignored. -/
def closeBracket (n : Nesting) : Nesting :=
  let n := if n.inSubstitution then { n with substitutions := n.substitutions.tail } else n
  match n.frames with
  | chains :: outer :: frames =>
    { n with frames := outer :: frames, depth := n.depth - (chains + 1) }
  | _ => n

def chain (n : Nesting) : Nesting :=
  match n.frames with
  | chains :: frames => { n with frames := (chains + 1) :: frames, depth := n.depth + 1 }
  | [] => { n with depth := n.depth + 1 }

def reset (n : Nesting) : Nesting :=
  match n.frames with
  | chains :: frames => { n with frames := 0 :: frames, depth := n.depth - chains }
  | [] => n

end Nesting

/-- Whether an operand is still awaited after a character, as at the start of the script. -/
def expectsOperand : Option Char → Bool
  | none => true
  | some c => "=?:!~+-*/%&|^<>,;([\x7b".toList.contains c

/-- Whether a line that starts with the character continues the expression before it. -/
def continuesExpression (c : Char) : Bool := "=?:.+-*/%&|^<>,".toList.contains c

def isScanWordChar (c : Char) : Bool := Text.isAlphanumeric c || c == '_' || c == '$'

/-- Words that start an operand of their own. -/
def operandWords : List String := ["typeof", "void", "delete", "new", "await", "yield"]

/-- What follows a quoted text. A line end closes it too. -/
def afterString (quote : Char) : List Char → List Char
  | [] => []
  | '\\' :: rest =>
    match rest with
    | [] => []
    | _ :: rest => afterString quote rest
  | c :: rest => if c = quote ∨ c = '\n' then rest else afterString quote rest

/-- What follows a stretch of template text, and whether a substitution opens there. -/
def afterTemplate : List Char → List Char × Bool
  | [] => ([], false)
  | '\\' :: rest =>
    match rest with
    | [] => ([], false)
    | _ :: rest => afterTemplate rest
  | '\x60' :: rest => (rest, false)
  | '$' :: rest =>
    match rest with
    | '\x7b' :: rest => (rest, true)
    | rest => afterTemplate rest
  | _ :: rest => afterTemplate rest

/-- What follows the body of a regular expression, up to its flags. -/
def afterRegexBody (inClass : Bool) : List Char → List Char
  | [] => []
  | '\\' :: rest =>
    match rest with
    | [] => []
    | _ :: rest => afterRegexBody inClass rest
  | '[' :: rest => afterRegexBody true rest
  | ']' :: rest => afterRegexBody false rest
  | '/' :: rest => if inClass then afterRegexBody inClass rest else rest
  | '\n' :: rest => '\n' :: rest
  | _ :: rest => afterRegexBody inClass rest

def afterRegex (cs : List Char) : List Char := (afterRegexBody false cs).dropWhile Text.isAlphabetic

/-- What follows a block comment's body, and whether it spans lines. -/
def afterBlockComment (newLine : Bool) : List Char → List Char × Bool
  | [] => ([], newLine)
  | '*' :: '/' :: rest => (rest, newLine)
  | c :: rest => afterBlockComment (newLine || c == '\n') rest

theorem length_afterString (quote : Char) (cs : List Char) :
    (afterString quote cs).length ≤ cs.length := by
  fun_induction afterString quote cs <;> simp_all <;> omega

theorem length_afterTemplate (cs : List Char) : (afterTemplate cs).1.length ≤ cs.length := by
  fun_induction afterTemplate cs <;> simp_all <;> omega

theorem length_afterRegexBody (inClass : Bool) (cs : List Char) :
    (afterRegexBody inClass cs).length ≤ cs.length := by
  fun_induction afterRegexBody inClass cs <;> simp_all <;> omega

theorem length_dropWhile_le (p : Char → Bool) (cs : List Char) :
    (cs.dropWhile p).length ≤ cs.length := by
  induction cs with
  | nil => simp
  | cons c rest ih =>
    simp only [List.dropWhile]
    split
    · simp only [List.length_cons]; omega
    · simp

theorem length_afterRegex (cs : List Char) : (afterRegex cs).length ≤ cs.length :=
  Nat.le_trans (length_dropWhile_le _ _) (length_afterRegexBody _ _)

theorem length_afterBlockComment (newLine : Bool) (cs : List Char) :
    (afterBlockComment newLine cs).1.length ≤ cs.length := by
  fun_induction afterBlockComment newLine cs <;> simp_all <;> omega

/-- The scan between two tokens. -/
structure NestingScan where
  nesting : Nesting
  /-- The last character that is neither blank nor in a comment, with stand-ins for operands. -/
  previous : Option Char
  /-- Whether a line has ended since that character. -/
  newLine : Bool
  /-- Whether the character directly before is one of `=`, `!`, `<` and `>`. -/
  afterRelation : Bool

namespace NestingScan

def start : NestingScan := ⟨.start, none, false, false⟩

/-- A character that ends an operand, standing for a literal just skipped. -/
def operandEnd : Char := '"'

/-- A line end that ends an expression resets the innermost frame. -/
def settleLine (s : NestingScan) (c : Char) : NestingScan :=
  if s.newLine then
    { s with
      newLine := false
      nesting := if expectsOperand s.previous || continuesExpression c then s.nesting
        else s.nesting.reset }
  else s

/-- The effect of an operator or bracket on the nesting, given what stands around it. -/
def punctuate (s : NestingScan) (c : Char) (next : Option Char) : Nesting :=
  match c with
  | '(' | '[' | '\x7b' => s.nesting.openBracket
  | ')' | ']' | '\x7d' => s.nesting.closeBracket
  | ';' | ',' => s.nesting.reset
  | '=' => if next = some '=' || s.afterRelation then s.nesting else s.nesting.chain
  | '?' =>
    if next = some '.' || next = some '?' || s.previous = some '?' then s.nesting
    else s.nesting.chain
  | '!' | '~' => if next = some '=' then s.nesting else s.nesting.chain
  | '+' | '-' => s.nesting.chain
  | _ => s.nesting

def isRelation (c : Char) : Bool := c == '=' || c == '!' || c == '<' || c == '>'

/-- Template text from its start or from the end of a substitution. -/
def template (s : NestingScan) (nesting : Nesting) (rest : List Char) :
    NestingScan × List Char :=
  match afterTemplate rest with
  | (rest, true) =>
    ({ s with nesting := nesting.openSubstitution, previous := some '(', afterRelation := false },
      rest)
  | (rest, false) =>
    ({ s with nesting := nesting, previous := some operandEnd, afterRelation := false }, rest)

def word (s : NestingScan) (c : Char) (rest : List Char) : NestingScan × List Char :=
  let text := String.ofList (c :: rest.takeWhile isScanWordChar)
  ({ s with
      nesting := if operandWords.contains text then s.nesting.chain else s.nesting
      previous := some 'a'
      afterRelation := false },
    rest.dropWhile isScanWordChar)

/-- A token whose first character is neither blank nor the start of a comment. -/
def token (s : NestingScan) (c : Char) (rest : List Char) : NestingScan × List Char :=
  let s := s.settleLine c
  let operand : NestingScan := { s with previous := some operandEnd, afterRelation := false }
  if c = '\'' ∨ c = '"' then (operand, afterString c rest)
  else if c = '\x60' then s.template s.nesting rest
  else if c = '\x7d' ∧ s.nesting.inSubstitution then s.template s.nesting.closeBracket rest
  else if c = '/' ∧ expectsOperand s.previous then (operand, afterRegex rest)
  else if isScanWordChar c then s.word c rest
  else
    ({ s with
        nesting := s.punctuate c rest.head?
        previous := some c
        afterRelation := isRelation c },
      rest)

def step (s : NestingScan) (c : Char) (rest : List Char) : NestingScan × List Char :=
  if Text.isBlank c then
    ({ s with newLine := s.newLine || c == '\n', afterRelation := false }, rest)
  else match c, rest with
    | '/', '/' :: rest => ({ s with afterRelation := false }, rest.dropWhile (· != '\n'))
    | '/', '*' :: rest =>
      let (rest, newLine) := afterBlockComment s.newLine rest
      ({ s with newLine := newLine, afterRelation := false }, rest)
    | c, rest => s.token c rest

theorem length_template (s : NestingScan) (n : Nesting) (rest : List Char) :
    (s.template n rest).2.length ≤ rest.length := by
  have h := length_afterTemplate rest
  unfold template
  split <;> simp_all

theorem length_token (s : NestingScan) (c : Char) (rest : List Char) :
    (s.token c rest).2.length ≤ rest.length := by
  unfold token
  dsimp only
  split
  · exact length_afterString c rest
  · split
    · exact length_template _ _ _
    · split
      · exact length_template _ _ _
      · split
        · exact length_afterRegex rest
        · split
          · exact length_dropWhile_le _ _
          · exact Nat.le_refl _

theorem length_step (s : NestingScan) (c : Char) (rest : List Char) :
    (s.step c rest).2.length ≤ rest.length := by
  unfold step
  split
  · exact Nat.le_refl _
  · split
    · exact Nat.le_trans (length_dropWhile_le _ _) (Nat.le_succ _)
    · exact Nat.le_trans (length_afterBlockComment s.newLine _) (Nat.le_succ _)
    · exact length_token s _ _

/-- Whether no point of the text nests deeper than allowed. -/
def accepts (s : NestingScan) : List Char → Bool
  | [] => true
  | c :: rest =>
    let next := s.step c rest
    if maxNesting < next.1.nesting.depth then false else next.1.accepts next.2
termination_by cs => cs.length
decreasing_by exact Nat.lt_succ_of_le (length_step s c rest)

end NestingScan

/-- Whether a script passes the estimate. -/
def nestsShallowly (source : String) : Bool := NestingScan.start.accepts source.toList

end Nodecraft.Script
