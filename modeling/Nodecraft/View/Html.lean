import Nodecraft.Json.Writer
import Nodecraft.View.Node

/-!
Views written as HTML.
-/

set_option autoImplicit false

namespace Nodecraft.View

def escapeChar (c : Char) : String :=
  if c == '&' then "&amp;" else if c == '<' then "&lt;" else if c == '>' then "&gt;"
  else c.toString

def escapeQuotedChar (c : Char) : String := if c == '"' then "&quot;" else escapeChar c

def escaped (s : String) : String := String.join (s.toList.map escapeChar)

def escapedQuoted (s : String) : String := String.join (s.toList.map escapeQuotedChar)

/-- An attribute with an empty value is written as its name alone. -/
def attributeHtml (entry : String × String) : String :=
  " " ++ entry.1 ++ if entry.2.isEmpty then "" else "=\"" ++ escapedQuoted entry.2 ++ "\""

/-- A property's text: texts stand for themselves, everything else is a document. -/
def propText : Json → String
  | .string s => s
  | j => j.compress

def openingHtml (name : String) (attributes : List (String × String)) : String :=
  "<" ++ name ++ String.join (attributes.map attributeHtml) ++ ">"

def closingHtml (name : String) : String := "</" ++ name ++ ">"

mutual

def Node.html : Node → String
  | .text value => escaped value
  | .element tag attributes _ children =>
    openingHtml tag attributes ++
      if isVoid tag then "" else listHtml children ++ closingHtml tag
  | .component name props _ children =>
    openingHtml name (props.map fun (k, v) => (k, propText v)) ++ listHtml children ++
      closingHtml name

def listHtml : List Node → String
  | [] => ""
  | n :: rest => n.html ++ listHtml rest

end

end Nodecraft.View
