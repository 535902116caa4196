/-!
Tokens of HTML.
-/

set_option autoImplicit false

namespace Nodecraft.Markup

structure Tag where
  name : String
  /-- In the order they are written, each name once. -/
  attributes : List (String × String)
  selfClosing : Bool
  deriving DecidableEq, Repr, Inhabited

structure Doctype where
  name : String
  publicId : Option String
  systemId : Option String
  /-- Whether it is too broken to be taken seriously. -/
  broken : Bool
  deriving DecidableEq, Repr, Inhabited

inductive Token
  | doctype (d : Doctype)
  | opening (tag : Tag)
  | closing (name : String)
  | comment
  | char (c : Char)
  | eof
  deriving DecidableEq, Repr, Inhabited

/-- How script text hides the tag that would end it. -/
inductive Escape
  | none
  /-- Within a comment, behind so many dashes. -/
  | single (dashes : Nat)
  /-- Within a script element in a comment. -/
  | double (dashes : Nat)
  deriving DecidableEq, Repr, Inhabited

/-- What the text at hand consists of. -/
inductive TextMode
  | markup
  /-- Text with references, up to the closing tag of an element. -/
  | references (name : String)
  /-- Text up to the closing tag of an element. -/
  | raw (name : String)
  | script (escape : Escape)
  /-- Nothing but text. -/
  | plain
  deriving DecidableEq, Repr, Inhabited

end Nodecraft.Markup
