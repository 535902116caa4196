import Nodecraft.Logic.Import

/-!
The forms in which logic is written, and its text as the body of a function that returns the
component's options.
-/

set_option autoImplicit false

namespace Nodecraft.Logic

inductive Form
  | empty
  | exportDefault
  /-- Nothing but an object literal. -/
  | optionsLiteral
  /-- Statements of a setup function. -/
  | imperative
  deriving DecidableEq, Repr, Inhabited

def Form.name : Form → String
  | .empty => "empty"
  | .exportDefault => "export-default"
  | .optionsLiteral => "options-literal"
  | .imperative => "imperative"

/-- The text behind `export default` as whole words. -/
def afterExport? (cs : List Char) : Option (List Char) := do
  let rest ← Text.dropKnown? "export".toList cs
  guard (rest.head?.any Text.isBlank)
  let rest ← Text.dropKnown? "default".toList (rest.dropWhile Text.isBlank)
  guard !(rest.head?.any Text.isWordChar)
  return rest

/-- The text with its first `export default` turned into `return`. -/
def returning? : Bool → List Char → Option (List Char)
  | _, [] => none
  | behindWord, c :: cs =>
    match if behindWord then none else afterExport? (c :: cs) with
    | some rest => some ("return".toList ++ rest)
    | none => (returning? (Text.isWordChar c) cs).map (c :: ·)

def isBraced (s : String) : Bool :=
  s.toList.head? == some '\x7b' && s.toList.getLast? == some '\x7d'

/-- The form of some logic and its text as a function body. -/
def asFunctionBody (logic : String) : Form × String :=
  let body := Text.trim (stripImports logic)
  if body.isEmpty then (.empty, "")
  else match returning? false body.toList with
    | some cs => (.exportDefault, String.ofList cs)
    | none =>
      if isBraced body then (.optionsLiteral, "return (\n" ++ body ++ "\n);")
      else (.imperative, "return \x7b setup() \x7b\n" ++ body ++ "\n\x7d \x7d;")

end Nodecraft.Logic
