import Nodecraft.Sandbox.Conversion
import Nodecraft.Text.Blank

/-!
Values of class and style attributes: texts, objects, and arrays of either.
-/

set_option autoImplicit false

namespace Nodecraft.Template

open Sandbox

/-- Texts that are not empty, between separators. -/
def joined (separator : String) (texts : List String) : String :=
  separator.intercalate (texts.filter fun s => !s.isEmpty)

mutual

/-- The text of a value whose arrays nest at most so deep; none if they nest deeper. -/
def nestedText? (h : Heap) (separator : String) (leaf : Value → String) :
    Nat → Value → Option String
  | 0, .array _ => none
  | room + 1, .array a =>
    (nestedTexts? h separator leaf room (h.array a).toList).map (joined separator)
  | _, v => some (leaf v)

def nestedTexts? (h : Heap) (separator : String) (leaf : Value → String) :
    Nat → List Value → Option (List String)
  | _, [] => some []
  | room, v :: rest => do
    let text ← nestedText? h separator leaf room v
    return text :: (← nestedTexts? h separator leaf room rest)

end

/-- Arrays that nest deeper than there are arrays contain themselves. -/
def arrayText? (h : Heap) (separator : String) (leaf : Value → String) (v : Value) :
    Option String :=
  nestedText? h separator leaf h.arrays.size v

/-- An object shows the keys of what holds. -/
def classLeaf (h : Heap) : Value → String
  | .string s => Text.trim s
  | .object o => " ".intercalate (((h.object o).fields.filter fun f => f.2.isTruthy).map Prod.fst)
  | _ => ""

def classText? (h : Heap) (v : Value) : Option String := arrayText? h " " (classLeaf h) v

/-- A property name as style sheets spell it; custom ones stay. -/
def styleName (name : String) : String :=
  if ['-', '-'].isPrefixOf name.toList then name
  else String.ofList (name.toList.flatMap fun c => if c.isUpper then ['-', c.toLower] else [c])

/-- Declarations without the semicolons at their end. -/
def trimmedStyle (s : String) : String :=
  let cs := Text.trimChars s.toList
  String.ofList (Text.trimChars (cs.reverse.dropWhile (· == ';')).reverse)

def isStated : Value → Bool
  | .string s => !s.isEmpty
  | v => !v.isNullish

def styleLeaf (h : Heap) : Value → String
  | .string s => trimmedStyle s
  | .object o => "; ".intercalate (((h.object o).fields.filter fun f => isStated f.2).map
      fun (k, v) => styleName k ++ ": " ++ h.text v)
  | _ => ""

def styleText? (h : Heap) (v : Value) : Option String := arrayText? h "; " (styleLeaf h) v

end Nodecraft.Template
