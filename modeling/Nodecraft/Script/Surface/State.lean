import Nodecraft.Script.Lexer
import Nodecraft.Script.Surface
import Nodecraft.Number.Shortest

/-!
The state a grammar rule runs in: one token of lookahead, and what the surrounding constructs
allow. Rules call each other through a record of entry points, so that each rule is an ordinary
definition and the recursion is tied in one place.
-/

set_option autoImplicit false

namespace Nodecraft.Script.Surface.Grammar

/-- What the surrounding constructs allow. -/
structure Flags where
  /-- Whether `in` is an operator here. -/
  inOperator : Bool
  awaiting : Bool
  yielding : Bool
  returning : Bool

structure State where
  lexeme : Lexeme
  flags : Flags
  /-- Shorthand properties with defaults that no assignment has turned into patterns yet. -/
  covers : Nat
  /-- Places, counted from the end, where an opening parenthesis starts no arrow function. -/
  notArrow : List Nat
  exported : List String

abbrev Rule (α : Type) := EStateM Unit State α

section
variable {α β : Type}

def fail : Rule α := throw ()

def ensure (b : Bool) : Rule Unit := if b then pure () else fail

def token : Rule Token := return (← get).lexeme.token

def advance : Rule Unit := fun s =>
  match Lexer.next? s.lexeme.rest with
  | some lexeme => .ok () { s with lexeme := lexeme }
  | none => .error () s

/-- Reads the text after the current token as the given token. -/
def become (token : Token) (rest : List Char) : Rule Unit :=
  modify fun s => { s with lexeme := { s.lexeme with token := token, rest := rest } }

/-- Goes on with the token at the head of the given text. -/
def advanceTo (rest : List Char) : Rule Unit := do
  modify fun s => { s with lexeme := { s.lexeme with rest := rest } }
  advance

/-- The token after the current one, if it can be read. -/
def peek : Rule (Option Lexeme) := return Lexer.next? (← get).lexeme.rest

def atPunct (p : String) : Rule Bool := return (← token).isPunct p

def atWord (w : String) : Rule Bool := return (← token).isWord w

def atEnd : Rule Bool := do
  match ← token with
  | .endOfText => return true
  | _ => return false

def afterNewLine : Rule Bool := return (← get).lexeme.newLine

def eatPunct (p : String) : Rule Bool := do
  if ← atPunct p then
    advance
    return true
  return false

def eatWord (w : String) : Rule Bool := do
  if ← atWord w then
    advance
    return true
  return false

def expectPunct (p : String) : Rule Unit := do ensure (← eatPunct p)

def expectWord (w : String) : Rule Unit := do ensure (← eatWord w)

def flags : Rule Flags := return (← get).flags

/-- Runs a rule under changed flags. -/
def withFlags (f : Flags → Flags) (rule : Rule α) : Rule α := do
  let saved ← flags
  modify fun s => { s with flags := f s.flags }
  let a ← rule
  modify fun s => { s with flags := saved }
  return a

def withIn (rule : Rule α) : Rule α := withFlags ({ · with inOperator := true }) rule

/-- Runs a rule, and goes back to where it started if it fails. -/
def attempt (rule : Rule α) : Rule (Option α) := fun s =>
  match rule s with
  | .ok a s => .ok (some a) s
  | .error _ failed => .ok none { s with notArrow := failed.notArrow }

/-- Results of a step until it yields none, at most as many as the bound. -/
def collect (step : Rule (Option α)) : Nat → Rule (List α)
  | 0 => fail
  | bound + 1 => do
    match ← step with
    | none => return []
    | some a => return a :: (← collect step bound)

/-- Repeats a step that extends a value until it yields none. -/
def extend (step : α → Rule (Option α)) : Nat → α → Rule α
  | 0, _ => fail
  | bound + 1, a => do
    match ← step a with
    | none => return a
    | some b => extend step bound b

/-- Elements between commas up to a closing punctuator, which stays. A last comma may be empty. -/
def delimited (bound : Nat) (close : String) (element : Rule α) : Rule (List α) :=
  collect (do
    if ← atPunct close then return none
    let a ← element
    if !(← atPunct close) then expectPunct ","
    return some a) bound

/-- A semicolon, or a place where one may be left out. -/
def semicolon : Rule Unit := do
  if ← eatPunct ";" then return
  ensure ((← atPunct "\x7d") || (← atEnd) || (← afterNewLine))

/-- Whether a token can be a name under the flags. -/
def isIdentifier (flags : Flags) : Token → Bool
  | .name text _ =>
    !Token.isReserved text && !(flags.awaiting && text == "await") &&
      !(flags.yielding && text == "yield")
  | _ => false

def identifier : Rule String := do
  let t ← token
  ensure (isIdentifier (← flags) t)
  match t with
  | .name text _ =>
    advance
    return text
  | _ => fail

/-- A name or a word, as after a point. -/
def wordName : Rule String := do
  match ← token with
  | .name text _ =>
    advance
    return text
  | _ => fail

end

/-- Entry points of the grammar, with a bound for repetitions. -/
structure Entries where
  bound : Nat
  assignment : Rule Expr
  binary : Nat → Rule Expr
  unary : Rule Expr
  /-- The operand of `new` after that word. -/
  construct : Rule Expr
  pattern : Rule Pattern
  /-- A statement; `single` where it is the body of another one. -/
  statement : (single : Bool) → Rule Stmt

end Nodecraft.Script.Surface.Grammar
