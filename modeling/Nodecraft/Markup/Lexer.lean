import Nodecraft.Markup.Reference
import Nodecraft.Markup.Token
import Nodecraft.Text.LetterCase
import Nodecraft.Text.Search

/-!
The lexical grammar of HTML. Each step takes at least one character.
-/

set_option autoImplicit false

namespace Nodecraft.Markup.Lexer

def isSpace (c : Char) : Bool := c == ' ' || c == '\n' || c == '\t' || c == '\x0C' || c == '\r'

def skipSpace (cs : List Char) : List Char := cs.dropWhile isSpace

/-- Characters a name or value ends with its tag's part at. -/
def endsName (c : Char) : Bool := isSpace c || c == '/' || c == '>'

/-- Null characters are replaced. -/
def visible (c : Char) : Char := if c == '\x00' then replacement else c

def lowered (cs : List Char) : String := String.ofList (cs.map fun c => (visible c).toLower)

/-! ### Tags -/

/-- A quoted value and what follows its closing quote. -/
def quotedValue? (quote : Char) : Nat → List Char → List Char → Option (List Char × List Char)
  | 0, _, _ => none
  | _, _, [] => none
  | fuel + 1, acc, c :: cs =>
    if c == quote then some (acc.reverse, cs)
    else if c == '&' then
      match reference? true cs with
      | some (value, rest) => quotedValue? quote fuel (value.reverse ++ acc) rest
      | none => quotedValue? quote fuel ('&' :: acc) cs
    else quotedValue? quote fuel (visible c :: acc) cs

/-- An unquoted value and what follows it. -/
def bareValue : Nat → List Char → List Char → List Char × List Char
  | 0, acc, cs => (acc.reverse, cs)
  | _, acc, [] => (acc.reverse, [])
  | fuel + 1, acc, c :: cs =>
    if isSpace c || c == '>' then (acc.reverse, c :: cs)
    else if c == '&' then
      match reference? true cs with
      | some (value, rest) => bareValue fuel (value.reverse ++ acc) rest
      | none => bareValue fuel ('&' :: acc) cs
    else bareValue fuel (visible c :: acc) cs

/-- The value behind an equals sign. -/
def attributeValue? (cs : List Char) : Option (List Char × List Char) :=
  match skipSpace cs with
  | '"' :: rest => quotedValue? '"' (rest.length + 1) [] rest
  | '\'' :: rest => quotedValue? '\'' (rest.length + 1) [] rest
  | '>' :: rest => some ([], '>' :: rest)
  | rest => some (bareValue rest.length [] rest)

/-- An attribute's name, which may begin with an equals sign. -/
def attributeName (cs : List Char) : List Char × List Char :=
  match cs with
  | c :: rest =>
    let stops := fun d => endsName d || d == '='
    (c :: rest.takeWhile fun d => !stops d, rest.dropWhile fun d => !stops d)
  | [] => ([], [])

/-- One attribute and what follows it. -/
def attribute? (cs : List Char) : Option ((String × String) × List Char) :=
  let (name, rest) := attributeName cs
  match skipSpace rest with
  | '=' :: rest =>
    (attributeValue? rest).map fun (value, rest) => ((lowered name, String.ofList value), rest)
  | _ => some ((lowered name, ""), rest)

/-- Of attributes of one name the first one counts. -/
def addAttribute (attributes : List (String × String)) (a : String × String) :
    List (String × String) :=
  if attributes.any fun b => b.1 == a.1 then attributes else attributes ++ [a]

/-- The attributes of a tag up to its end, whether it closes itself, and what follows it. -/
def attributes? : Nat → List (String × String) → List Char →
    Option (List (String × String) × Bool × List Char)
  | 0, _, _ => none
  | fuel + 1, acc, cs =>
    match skipSpace cs with
    | [] => none
    | '>' :: rest => some (acc, false, rest)
    | '/' :: '>' :: rest => some (acc, true, rest)
    | '/' :: rest => attributes? fuel acc rest
    | cs =>
      match attribute? cs with
      | some (a, rest) => attributes? fuel (addAttribute acc a) rest
      | none => none

/-- The tag behind its opening bracket, or behind the slash of a closing one. -/
def tag? (cs : List Char) : Option (Tag × List Char) :=
  let name := cs.takeWhile fun c => !endsName c
  let rest := cs.dropWhile fun c => !endsName c
  (attributes? (rest.length + 1) [] rest).map fun (attributes, selfClosing, rest) =>
    (⟨lowered name, attributes, selfClosing⟩, rest)

/-! ### Declarations and comments -/

/-- The text behind the first occurrence of any of the given ends. -/
def behindAny (ends : List (List Char)) : List Char → List Char
  | [] => []
  | c :: cs =>
    match ends.findSome? fun e => Text.dropKnown? e (c :: cs) with
    | some rest => rest
    | none => behindAny ends cs

/-- The text behind a comment, from behind its opening dashes. -/
def behindComment (cs : List Char) : List Char :=
  match cs with
  | '>' :: rest => rest
  | '-' :: '>' :: rest => rest
  | cs => behindAny ["-->".toList, "--!>".toList] cs

def behindBracket (cs : List Char) : List Char := behindAny [['>']] cs

/-- The text behind a known beginning in any case. -/
def dropWord? : List Char → List Char → Option (List Char)
  | [], cs => some cs
  | _ :: _, [] => none
  | w :: word, c :: cs => if c.toLower == w then dropWord? word cs else none

/-- A quoted identifier; what is left of one that does not end, and whether it is broken. -/
def identifier (cs : List Char) : Option String × Bool × List Char :=
  match skipSpace cs with
  | [] => (none, true, [])
  | q :: rest =>
    if q == '"' || q == '\'' then
      let stops := fun c => c == q || c == '>'
      let value := String.ofList ((rest.takeWhile fun c => !stops c).map visible)
      match rest.dropWhile fun c => !stops c with
      | c :: rest => if c == '>' then (some value, true, c :: rest) else (some value, false, rest)
      | [] => (some value, true, [])
    else (none, true, q :: rest)

/-- A second identifier, if there is one. -/
def secondIdentifier (cs : List Char) : Option String × Bool × List Char :=
  match skipSpace cs with
  | '>' :: rest => (none, false, '>' :: rest)
  | rest => identifier rest

def doctypeIds (name : String) (cs : List Char) : Doctype × List Char :=
  match dropWord? "public".toList cs, dropWord? "system".toList cs with
  | some rest, _ =>
    let (publicId, broken, rest) := identifier rest
    if broken then (⟨name, publicId, none, true⟩, rest)
    else
      let (systemId, broken, rest) := secondIdentifier rest
      (⟨name, publicId, systemId, broken⟩, rest)
  | none, some rest =>
    let (systemId, broken, rest) := identifier rest
    (⟨name, none, systemId, broken⟩, rest)
  | none, none => (⟨name, none, none, true⟩, cs)

/-- A document type declaration, from behind its keyword. -/
def doctype (cs : List Char) : Token × List Char :=
  match skipSpace cs with
  | [] => (.doctype ⟨"", none, none, true⟩, [])
  | '>' :: rest => (.doctype ⟨"", none, none, true⟩, rest)
  | cs =>
    let stops := fun c => isSpace c || c == '>'
    let name := lowered (cs.takeWhile fun c => !stops c)
    match skipSpace (cs.dropWhile fun c => !stops c) with
    | [] => (.doctype ⟨name, none, none, true⟩, [])
    | '>' :: rest => (.doctype ⟨name, none, none, false⟩, rest)
    | rest =>
      let (d, rest) := doctypeIds name rest
      (.doctype d, behindBracket rest)

/-- What follows an exclamation mark. Character data stands only in foreign content. -/
def declaration (foreign : Bool) (cs : List Char) : List Token × List Char :=
  match cs with
  | '-' :: '-' :: rest => ([.comment], behindComment rest)
  | cs =>
    match dropWord? "doctype".toList cs with
    | some rest =>
      let (token, rest) := doctype rest
      ([token], rest)
    | none =>
      match if foreign then Text.dropKnown? "[CDATA[".toList cs else none with
      | some rest =>
        match Text.cut? "]]>".toList rest with
        | some (text, rest) => (text.map Token.char, rest)
        | none => (rest.map Token.char, [])
      | none => ([.comment], behindBracket cs)

/-! ### Steps -/

structure Step where
  tokens : List Token
  mode : TextMode
  rest : List Char

/-- A tag that does not end is left out with all that follows. -/
def tagStep (mode : TextMode) (cs : List Char) (token : Tag → Token) : Step :=
  match tag? cs with
  | some (tag, rest) => ⟨[token tag], mode, rest⟩
  | none => ⟨[], mode, []⟩

/-- What follows an opening bracket. -/
def bracketStep (foreign : Bool) (cs : List Char) : Step :=
  match cs with
  | '!' :: rest =>
    let (tokens, rest) := declaration foreign rest
    ⟨tokens, .markup, rest⟩
  | '/' :: '>' :: rest => ⟨[], .markup, rest⟩
  | '/' :: c :: rest =>
    if c.isAlpha then tagStep .markup (c :: rest) fun tag => .closing tag.name
    else ⟨[.comment], .markup, behindBracket (c :: rest)⟩
  | '?' :: rest => ⟨[.comment], .markup, behindBracket rest⟩
  | c :: rest =>
    if c.isAlpha then tagStep .markup (c :: rest) Token.opening
    else ⟨[.char '<'], .markup, c :: rest⟩
  | [] => ⟨[.char '<'], .markup, []⟩

def referenceStep (mode : TextMode) (cs : List Char) : Step :=
  match reference? false cs with
  | some (value, rest) => ⟨value.map Token.char, mode, rest⟩
  | none => ⟨[.char '&'], mode, cs⟩

/-- The text from the name of an element's closing tag on. -/
def ownClosing? (name : String) (cs : List Char) : Option (List Char) :=
  match cs with
  | '<' :: '/' :: rest =>
    match dropWord? name.toList rest with
    | some (c :: _) => if endsName c then some rest else none
    | _ => none
  | _ => none

/-- Text of an element that ends only at its closing tag. -/
def textStep (name : String) (references : Bool) (mode : TextMode) (c : Char) (cs : List Char) :
    Step :=
  match ownClosing? name (c :: cs) with
  | some rest => tagStep .markup rest fun tag => .closing tag.name
  | none =>
    if references && c == '&' then referenceStep mode cs else ⟨[.char (visible c)], mode, cs⟩

/-- The text behind the word `script` and the character that ends the word. -/
def behindScript? (cs : List Char) : Option (List Char × List Char) :=
  match dropWord? "script".toList cs with
  | some (c :: rest) => if endsName c then some (cs.take 7, rest) else none
  | _ => none

def scriptChars (cs : List Char) : List Token := cs.map fun c => .char (visible c)

def oneMoreDash (n : Nat) : Nat := min 2 (n + 1)

/-- How a character of script text changes its escape. -/
def Escape.after (e : Escape) (c : Char) : Escape :=
  match e with
  | .none => .none
  | .single n => if c == '-' then .single (oneMoreDash n)
      else if c == '>' && n == 2 then .none else .single 0
  | .double n => if c == '-' then .double (oneMoreDash n)
      else if c == '>' && n == 2 then .none else .double 0

/-- Script text. A comment in it hides script elements, but not the closing tag of its own. -/
def scriptStep (e : Escape) (c : Char) (cs : List Char) : Step :=
  let plain : Step := ⟨[.char (visible c)], .script (Escape.after e c), cs⟩
  match e with
  | .none =>
    match ownClosing? "script" (c :: cs), Text.dropKnown? "<!--".toList (c :: cs) with
    | some rest, _ => tagStep .markup rest fun tag => .closing tag.name
    | none, some rest => ⟨scriptChars "<!--".toList, .script (.single 2), rest⟩
    | none, none => plain
  | .single _ =>
    match ownClosing? "script" (c :: cs) with
    | some rest => tagStep .markup rest fun tag => .closing tag.name
    | none =>
      match if c == '<' then behindScript? cs else none with
      | some (word, rest) => ⟨scriptChars ('<' :: word), .script (.double 0), rest⟩
      | none => plain
  | .double _ =>
    match if c == '<' && cs.head? == some '/' then behindScript? cs.tail else none with
    | some (word, rest) => ⟨scriptChars ('<' :: '/' :: word), .script (.single 0), rest⟩
    | none => plain

/-- The tokens at the head of a text that is not empty. -/
def step (mode : TextMode) (foreign : Bool) (c : Char) (cs : List Char) : Step :=
  match mode with
  | .markup =>
    if c == '<' then bracketStep foreign cs
    else if c == '&' then referenceStep .markup cs
    else ⟨[.char c], .markup, cs⟩
  | .references name => textStep name true mode c cs
  | .raw name => textStep name false mode c cs
  | .script e => scriptStep e c cs
  | .plain => ⟨[.char (visible c)], .plain, cs⟩

/-- The text with one kind of line ending and without a byte order mark. -/
def normalized (cs : List Char) : List Char :=
  lines (if cs.head? == some '\uFEFF' then cs.tail else cs)
where
  lines : List Char → List Char
    | '\r' :: '\n' :: rest => '\n' :: lines rest
    | '\r' :: rest => '\n' :: lines rest
    | c :: rest => c :: lines rest
    | [] => []

end Nodecraft.Markup.Lexer
