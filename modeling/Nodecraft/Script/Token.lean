import Nodecraft.Text.Identifier

/-!
Tokens of scripts: names and words, punctuators, literals, and the stretches of template text
between substitutions.
-/

set_option autoImplicit false

namespace Nodecraft.Script

inductive Token
  /-- An identifier or a word of the language. An escaped one is never a word. -/
  | name (text : String) (escaped : Bool)
  | privateName (text : String)
  | punct (text : String)
  | number (x : Float)
  | bigInt
  | string (value : String)
  /-- Template text up to a substitution or, if `last`, up to the closing quote. The text is
  absent when an escape in it means nothing. -/
  | template (text : Option String) (last : Bool)
  | endOfText
  deriving Inhabited

namespace Token

/-- Words that are never names. -/
def reservedWords : List String :=
  ["break", "case", "catch", "class", "const", "continue", "debugger", "default", "delete", "do",
    "else", "enum", "export", "extends", "false", "finally", "for", "function", "if", "import",
    "in", "instanceof", "new", "null", "return", "super", "switch", "this", "throw", "true", "try",
    "typeof", "var", "void", "while", "with"]

def isReserved (text : String) : Bool := reservedWords.contains text

/-- Whether the token is the given word of the language. -/
def isWord (t : Token) (word : String) : Bool :=
  match t with
  | .name text escaped => text == word && !escaped
  | _ => false

def isPunct (t : Token) (p : String) : Bool :=
  match t with
  | .punct text => text == p
  | _ => false

/-- A name or any word. -/
def isName : Token → Bool
  | .name _ _ => true
  | _ => false

end Token

/-- A token with the text at its start and behind it. -/
structure Lexeme where
  token : Token
  /-- Whether a line ends between the token before and this one. -/
  newLine : Bool
  start : List Char
  rest : List Char
  deriving Inhabited

end Nodecraft.Script
