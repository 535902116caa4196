import Nodecraft.Script.Reading
import Nodecraft.Template.Basic
import Nodecraft.Template.Fault
import Nodecraft.Text.Blank
import Nodecraft.Text.Search

/-!
Expressions, handlers and loops as they are written in attributes.
-/

set_option autoImplicit false

namespace Nodecraft.Template

open Script

def expression (source directive : String) : Except Fault Expr :=
  (readExpression (Text.trim source)).mapError (.expression directive (Text.trim source))

def isCallable : Expr → Bool
  | .name _ => true
  | .member _ _ _ => true
  | .function _ => true
  | _ => false

/-- An expression if it is one, else statements. -/
def handler (source directive : String) : Except Fault Handler :=
  if (Text.trim source).isEmpty then .ok (.inline [])
  else match readExpression source with
    | .ok e => .ok (if isCallable e then .callable e else .inline [.expr e])
    | .error _ =>
      match readScript source with
      | .ok body => .ok (.inline body)
      | .error e => .error (.handler directive source e)

/-! ### Loops -/

/-- A loop's names and its source. -/
structure LoopText where
  names : List Char
  source : List Char

/-- The source behind a separating word and the space after it. -/
def afterSeparator? (cs : List Char) : Option (List Char) := do
  let rest ← (Text.dropKnown? ['i', 'n'] cs).or (Text.dropKnown? ['o', 'f'] cs)
  let gap := rest.takeWhile Text.isBlank
  let source := Text.trimEndChars (rest.dropWhile Text.isBlank)
  if gap.isEmpty then none
  else if source.isEmpty then if 1 < gap.length then some [] else none
  else some source

/-- Splits at the first separating word with a source behind it; the names must not be empty. -/
def splitLoop? : List Char → List Char → Option LoopText
  | _, [] => none
  | before, c :: cs =>
    let here := if before.isEmpty || !Text.isBlank c then none
      else afterSeparator? (cs.dropWhile Text.isBlank)
    match here with
    | some source => some ⟨before.reverse, source⟩
    | none => splitLoop? (c :: before) cs

/-- The stretches of a text between commas outside brackets. -/
def splitCommas : Int → List Char → List Char → List (List Char)
  | _, acc, [] => [acc.reverse]
  | depth, acc, c :: cs =>
    if c == ',' && depth == 0 then acc.reverse :: splitCommas depth [] cs
    else
      let depth := if ['(', '[', '\x7b'].contains c then depth + 1
        else if [')', ']', '\x7d'].contains c then depth - 1 else depth
      splitCommas depth (c :: acc) cs

/-- The names without the parentheses around them. -/
def unwrapped (cs : List Char) : List Char :=
  match cs with
  | '(' :: rest => if rest.getLast? == some ')' then rest.dropLast else cs
  | _ => cs

/-- The pattern a name declares. -/
def aliasPattern? (alias_ : List Char) : Option Pattern :=
  match readScript ("let " ++ String.ofList alias_ ++ " = 0;") with
  | .ok (.declare _ (.declare p _ :: _) :: _) => some p
  | _ => none

/-- Up to three names, a separating word and a source. -/
def loop (value : String) : Except Fault (List Pattern × Expr) := do
  let malformed := Fault.malformedLoop value
  let some parts := splitLoop? [] (Text.trimStartChars value.toList) | throw malformed
  let names := (splitCommas 0 [] (unwrapped (Text.trimChars parts.names))).map Text.trimChars
  if 3 < names.length || names.any List.isEmpty then throw malformed
  let some aliases := names.mapM aliasPattern? | throw malformed
  return (aliases, ← expression (String.ofList parts.source) "v-for")

end Nodecraft.Template
