import Nodecraft.Text.Blank
import Nodecraft.Text.Letters
import Nodecraft.Text.Search

/-!
The blocks of a node definition: its markup and its logic. A definition without blocks is markup
as a whole.
-/

set_option autoImplicit false

namespace Nodecraft.Definition

structure Blocks where
  markup : String
  logic : String
  deriving DecidableEq, Repr, Inhabited

/-- Why a definition has no markup. -/
inductive MissingMarkup
  | nothing
  | emptyBlock
  | logicOnly
  | unclosedLogic
  deriving DecidableEq, Repr, Inhabited

def MissingMarkup.message : MissingMarkup → String
  | .nothing => "the definition is empty"
  | .emptyBlock => "the <template> block is empty"
  | .logicOnly => "a <script> block was found without a <template> block"
  | .unclosedLogic => "an unterminated <script> block was found without a <template> block"

/-- Whether a character is a small letter of a block's name, in either case. The long s is an s. -/
def isLetter (letter c : Char) : Bool :=
  c == letter || c.toLower == letter || (letter == 's' && c == 'ſ')

/-- The text behind a name in any case. -/
def dropName? : List Char → List Char → Option (List Char)
  | [], cs => some cs
  | _ :: _, [] => none
  | l :: name, c :: cs => if isLetter l c then dropName? name cs else none

/-- The text behind an opening tag. -/
def afterOpening? (name cs : List Char) : Option (List Char) :=
  match cs with
  | '<' :: rest =>
    match dropName? name rest with
    | none => none
    | some rest =>
      if rest.head?.any Text.isWordChar then none
      else match rest.dropWhile (· != '>') with
        | _ :: content => some content
        | [] => none
  | _ => none

/-- Whether a text begins with a closing tag. -/
def isClosing (name cs : List Char) : Bool :=
  match cs with
  | '<' :: '/' :: rest =>
    match dropName? name rest with
    | some rest => (rest.dropWhile Text.isBlank).head? == some '>'
    | none => false
  | _ => false

/-- What stands before the first closing tag. -/
def untilClosing? (name : List Char) : List Char → Option (List Char)
  | [] => none
  | c :: cs =>
    if isClosing name (c :: cs) then some []
    else (untilClosing? name cs).map (c :: ·)

/-- The content of the first block of a name. Of several opening tags the first one counts. -/
def block? (name : List Char) : List Char → Option (List Char)
  | [] => none
  | c :: cs =>
    match afterOpening? name (c :: cs) with
    | some content => untilClosing? name content
    | none => block? name cs

/-- Whether an opening tag is begun anywhere. -/
def opens (name : List Char) : List Char → Bool
  | [] => false
  | c :: cs => (c == '<' && (dropName? name cs).isSome) || opens name cs

def blockText? (name raw : String) : Option String :=
  (block? name.toList raw.toList).map fun content => String.ofList (Text.trimChars content)

def Blocks.ofText (raw : String) : Except MissingMarkup Blocks :=
  match blockText? "template" raw, blockText? "script" raw with
  | some markup, logic =>
    if markup.isEmpty then .error .emptyBlock else .ok ⟨markup, logic.getD ""⟩
  | none, some _ => .error .logicOnly
  | none, none =>
    if opens "script".toList raw.toList then .error .unclosedLogic
    else
      let markup := Text.trim raw
      if markup.isEmpty then .error .nothing else .ok ⟨markup, ""⟩

end Nodecraft.Definition
