import Nodecraft.Text.Blank
import Nodecraft.Text.Letters
import Nodecraft.Text.Search

/-!
Import declarations in logic. What they name is provided by the sandbox, so they are left out.
-/

set_option autoImplicit false

namespace Nodecraft.Logic

def isIndent (c : Char) : Bool := c == ' ' || c == '\t'

def isQuote (c : Char) : Bool := c == '"' || c == '\''

/-- The text behind a quoted module name on one line. The quotes need not be of one kind. -/
def afterQuoted? : List Char → Option (List Char)
  | [] => none
  | c :: cs =>
    if isQuote c then
      match cs.dropWhile fun c => !isQuote c && c != '\n' with
      | q :: rest => if isQuote q then some rest else none
      | [] => none
    else none

/-- The text behind a module name that white space may precede. -/
def afterModule? (cs : List Char) : Option (List Char) := afterQuoted? (cs.dropWhile Text.isBlank)

/-- The text behind the first `from` with a module name, before any semicolon. -/
def afterFrom? : Char → List Char → Option (List Char)
  | _, [] => none
  | before, c :: cs =>
    let here := if Text.isWordChar before then none
      else (Text.dropKnown? ['f', 'r', 'o', 'm'] (c :: cs)).bind afterModule?
    match here with
    | some rest => some rest
    | none => if c == ';' then none else afterFrom? c cs

/-- The text behind the names that are imported and the module they come from. -/
def afterNames? : List Char → Option (List Char)
  | [] => none
  | c :: cs => if Text.isBlank c || c == '\x7b' || c == '*' then afterFrom? c cs else none

/-- An import may end in a semicolon on its line. -/
def dropSemicolon (cs : List Char) : List Char :=
  match cs.dropWhile isIndent with
  | ';' :: rest => rest
  | rest => rest

/-- The text behind an import declaration at the beginning of a line. -/
def afterImport? (cs : List Char) : Option (List Char) := do
  let rest ← Text.dropKnown? "import".toList (cs.dropWhile isIndent)
  return dropSemicolon (← (afterModule? rest).or (afterNames? rest))

/-- Leaves out imports; the fuel bounds the characters to go through. -/
def withoutImports : Nat → Bool → List Char → List Char
  | 0, _, cs => cs
  | _, _, [] => []
  | fuel + 1, atLineStart, c :: cs =>
    match if atLineStart then afterImport? (c :: cs) else none with
    | some rest => withoutImports fuel false rest
    | none => c :: withoutImports fuel (c == '\n') cs

def stripImports (logic : String) : String :=
  String.ofList (withoutImports logic.length true logic.toList)

end Nodecraft.Logic
