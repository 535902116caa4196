import Nodecraft.Json.Basic
import Nodecraft.Text.LetterCase

/-!
Views: what a component looks like at one moment. Attributes, properties and events are ordered by
name, each name once.
-/

set_option autoImplicit false

namespace Nodecraft.View

inductive Node
  | element (tag : String) (attributes : List (String × String)) (events : List (String × Nat))
      (children : List Node)
  | text (value : String)
  /-- A component that stands in the view, registered or not. -/
  | component (name : String) (props : List (String × Json)) (events : List (String × Nat))
      (children : List Node)
  deriving Inhabited

/-- Elements that have neither content nor a closing tag. -/
def voidElements : List String :=
  ["area", "base", "br", "col", "embed", "hr", "img", "input", "link", "meta", "source", "track",
    "wbr"]

def isVoid (tag : String) : Bool := voidElements.contains (Text.asciiLower tag)

namespace Node

def children : Node → List Node
  | element _ _ _ children => children
  | text _ => []
  | component _ _ _ children => children

def attribute? (name : String) : Node → Option String
  | element _ attributes _ _ => attributes.lookup name
  | _ => none

mutual

/-- The texts of a node and of everything in it, joined. -/
def textContent : Node → String
  | text value => value
  | element _ _ _ children => textContents children
  | component _ _ _ children => textContents children

def textContents : List Node → String
  | [] => ""
  | n :: rest => textContent n ++ textContents rest

end

end Node

end Nodecraft.View
