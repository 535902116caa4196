import Nodecraft.Template.Fault
import Nodecraft.Template.Interpolation
import Nodecraft.Text.Blank
import Nodecraft.Text.Letters
import Nodecraft.View.Node

/-!
Tags in markup, before it is read as HTML. Reading HTML mends markup that is not well formed, so
tags are checked here to be well formed and to nest.
-/

set_option autoImplicit false

namespace Nodecraft.Template

structure Tag where
  closing : Bool
  name : List Char
  /-- The attributes as they are written, with the space before them. -/
  attributes : List Char
  /-- The space before the end of the tag. -/
  gap : List Char
  selfClosing : Bool
  deriving DecidableEq, Repr, Inhabited

/-- A part of markup: a well-formed tag, or any other character. -/
inductive Piece
  | tag (tag : Tag)
  | char (c : Char)
  deriving DecidableEq, Repr, Inhabited

namespace Tag

def isNameChar (c : Char) : Bool := Text.isWordChar c || c == '.' || c == ':' || c == '-'

def isAttributeChar (c : Char) : Bool :=
  !(Text.isBlank c || c == '"' || c == '\'' || c == '<' || c == '>' || c == '/' || c == '=')

def isBareChar (c : Char) : Bool :=
  !(Text.isBlank c || c == '"' || c == '\'' || c == '=' || c == '<' || c == '>' || c == '\x60')

/-- The characters of a kind at the head of a text, and what follows them. -/
def run (p : Char → Bool) (cs : List Char) : List Char × List Char :=
  (cs.takeWhile p, cs.dropWhile p)

/-- A quoted or unquoted value at the head of a text. -/
def value? (cs : List Char) : Option (List Char × List Char) :=
  match cs with
  | [] => none
  | q :: rest =>
    if q == '"' || q == '\'' then
      match run (· != q) rest with
      | (inner, _ :: rest) => some (q :: inner ++ [q], rest)
      | (_, []) => none
    else
      let (bare, rest) := run isBareChar (q :: rest)
      if bare.isEmpty then none else some (bare, rest)

/-- An equals sign and a value, with the space around the sign. -/
def assignment? (cs : List Char) : Option (List Char × List Char) :=
  let (before, rest) := run Text.isBlank cs
  match rest with
  | '=' :: rest =>
    let (after, rest) := run Text.isBlank rest
    (value? rest).map fun (value, rest) => (before ++ '=' :: after ++ value, rest)
  | _ => none

/-- One attribute with the space before it. -/
def attribute? (cs : List Char) : Option (List Char × List Char) :=
  let (gap, rest) := run Text.isBlank cs
  let (name, rest) := run isAttributeChar rest
  if gap.isEmpty || name.isEmpty then none
  else match assignment? rest with
    | some (assigned, rest) => some (gap ++ name ++ assigned, rest)
    | none => some (gap ++ name, rest)

def attributesOf : Nat → List Char → List Char × List Char
  | 0, cs => ([], cs)
  | fuel + 1, cs =>
    match attribute? cs with
    | none => ([], cs)
    | some (a, rest) =>
      let (more, rest) := attributesOf fuel rest
      (a ++ more, rest)

/-- A well-formed tag at the head of a text, and what follows it. -/
def read? (cs : List Char) : Option (Tag × List Char) := do
  let rest ← Text.dropKnown? ['<'] cs
  let (closing, rest) := match rest with
    | '/' :: rest => (true, rest)
    | rest => (false, rest)
  guard (rest.head?.any Char.isAlpha)
  let (name, rest) := run isNameChar rest
  let (attributes, rest) := attributesOf rest.length rest
  let (gap, rest) := run Text.isBlank rest
  match rest with
  | '>' :: rest => some (⟨closing, name, attributes, gap, false⟩, rest)
  | '/' :: '>' :: rest => some (⟨closing, name, attributes, gap, true⟩, rest)
  | _ => none

def text (t : Tag) : List Char :=
  ['<'] ++ (if t.closing then ['/'] else []) ++ t.name ++ t.attributes ++ t.gap ++
    (if t.selfClosing then ['/'] else []) ++ ['>']

def shownName (t : Tag) : String := String.ofList t.name

/-- The name that opening and closing tags agree on. -/
def key (t : Tag) : String := Text.asciiLower t.shownName

def isVoid (t : Tag) : Bool := View.isVoid t.shownName

/-- A tag that closes itself, as an opening and a closing one. Void elements are left alone. -/
def closed (t : Tag) : List Tag :=
  if !t.closing && t.selfClosing && !t.isVoid then
    [⟨false, t.name, t.attributes, [], false⟩, ⟨true, t.name, [], [], false⟩]
  else [t]

end Tag

/-- The attribute that keeps a name's spelling, which reading HTML lowers. -/
def spellingAttribute : String := "data-node-orig-name"

/-- A name with capitals is noted in an attribute. -/
def Tag.marked (t : Tag) : Tag :=
  if !t.closing && t.name.any Char.isUpper then
    { t with
      attributes := " ".toList ++ spellingAttribute.toList ++ "=\"".toList ++ t.name ++
        "\"".toList ++ t.attributes
      gap := [] }
  else t

def piecesWithin : Nat → List Char → List Piece
  | 0, _ => []
  | _, [] => []
  | fuel + 1, c :: cs =>
    match Tag.read? (c :: cs) with
    | some (t, rest) => .tag t :: piecesWithin fuel rest
    | none => .char c :: piecesWithin fuel cs

/-- The well-formed tags of a text and what is between them. -/
def pieces (cs : List Char) : List Piece := piecesWithin cs.length cs

def Piece.text : Piece → List Char
  | .tag t => t.text
  | .char c => [c]

/-! ### Nesting -/

/-- The open elements behind a tag, by their names, the innermost first. -/
def afterTag (opened : List String) (t : Tag) : Except Fault (List String) :=
  if t.isVoid then .ok opened
  else if t.closing then
    match opened with
    | [] => .error (.unopened t.shownName)
    | name :: rest => if name == t.key then .ok rest else .error (.crossed t.shownName name)
  else if t.selfClosing then .ok opened
  else if maxOpenElements ≤ opened.length then .error .tooDeep
  else .ok (t.key :: opened)

def afterPieces (opened : List String) : List Piece → Except Fault (List String)
  | [] => .ok opened
  | .tag t :: rest => do afterPieces (← afterTag opened t) rest
  | .char _ :: rest => afterPieces opened rest

/-- Whether a character begins a tag that is not well formed. -/
def beginsTag (ps : List Piece) : Bool :=
  match ps with
  | .char '<' :: .char '/' :: .char c :: _ => c.isAlpha
  | .char '<' :: .char c :: _ => c.isAlpha
  | _ => false

/-- The text from the first tag on that is not well formed. -/
def malformed? : List Piece → Option (List Char)
  | [] => none
  | p :: rest =>
    if beginsTag (p :: rest) then some ((p :: rest).flatMap Piece.text) else malformed? rest

/-- Whether all tags are well formed and nest. -/
def checkTags (ps : List Piece) : Except Fault Unit := do
  let opened ← afterPieces [] ps
  match malformed? ps with
  | some cs => .error (.malformedTag (excerpt cs))
  | none =>
    match opened with
    | [] => .ok ()
    | name :: _ => .error (.unclosed name)

/-- The markup with tags closed and names noted. -/
def Piece.prepared : Piece → List Char
  | .tag t => t.closed.flatMap fun t => t.marked.text
  | .char c => [c]

end Nodecraft.Template
