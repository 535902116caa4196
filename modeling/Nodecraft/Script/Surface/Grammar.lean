import Nodecraft.Script.Surface.Statement

/-!
The grammar with its recursion tied, and the reading of whole scripts and single expressions.
-/

set_option autoImplicit false

namespace Nodecraft.Script.Surface

open Grammar

mutual

def assignmentWithin : Nat → Rule Expr
  | 0 => fail
  | fuel + 1 => fun s => assignment (⟨fuel, assignmentWithin fuel, binaryWithin fuel,
      unaryWithin fuel, constructWithin fuel, patternWithin fuel, statementWithin fuel⟩) s

def binaryWithin : Nat → Nat → Rule Expr
  | 0, _ => fail
  | fuel + 1, least => fun s => binary (⟨fuel, assignmentWithin fuel, binaryWithin fuel,
      unaryWithin fuel, constructWithin fuel, patternWithin fuel, statementWithin fuel⟩) least s

def unaryWithin : Nat → Rule Expr
  | 0 => fail
  | fuel + 1 => fun s => unary (⟨fuel, assignmentWithin fuel, binaryWithin fuel,
      unaryWithin fuel, constructWithin fuel, patternWithin fuel, statementWithin fuel⟩) s

def constructWithin : Nat → Rule Expr
  | 0 => fail
  | fuel + 1 => fun s => construct (⟨fuel, assignmentWithin fuel, binaryWithin fuel,
      unaryWithin fuel, constructWithin fuel, patternWithin fuel, statementWithin fuel⟩) s

def patternWithin : Nat → Rule Pattern
  | 0 => fail
  | fuel + 1 => fun s => pattern (⟨fuel, assignmentWithin fuel, binaryWithin fuel,
      unaryWithin fuel, constructWithin fuel, patternWithin fuel, statementWithin fuel⟩) s

def statementWithin : Nat → Bool → Rule Stmt
  | 0, _ => fail
  | fuel + 1, single => fun s => statement (⟨fuel, assignmentWithin fuel, binaryWithin fuel,
      unaryWithin fuel, constructWithin fuel, patternWithin fuel, statementWithin fuel⟩) single s

end

/-- Entry points for a text of the given length: each consumes a token within a few calls. -/
def entriesFor (length : Nat) : Entries :=
  let fuel := 16 * length + 64
  ⟨fuel, assignmentWithin fuel, binaryWithin fuel, unaryWithin fuel, constructWithin fuel,
    patternWithin fuel, statementWithin fuel⟩

/-- Runs a rule at the start of a text. What awaits at the outermost level is a module. -/
def run? {α : Type} (source : String) (returning : Bool) (rule : Entries → Rule α) : Option α :=
  let cs := source.toList
  match Lexer.next? cs with
  | none => none
  | some lexeme =>
    match rule (entriesFor cs.length) ⟨lexeme, ⟨true, true, false, returning⟩, 0, [], []⟩ with
    | .ok a s => if s.covers = 0 then some a else none
    | .error _ _ => none

/-- A script is a sequence of statements; `return` may stand outside functions. -/
def script? (source : String) : Option (List Stmt) :=
  run? (String.ofList (Lexer.afterHashbang source.toList)) true fun g => do
    let body ← bodyStatements g
    ensure (← atEnd)
    return body

/-- One expression at the head of a text. What follows the token behind it is not read. -/
def expression? (source : String) : Option Expr := run? source false Grammar.expression

end Nodecraft.Script.Surface
