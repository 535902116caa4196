import Nodecraft.Markup.Build.Select
import Nodecraft.Markup.Lexer

/-!
Building a document: each token is processed as its mode, or the foreign element it is in, asks
for.
-/

set_option autoImplicit false

namespace Nodecraft.Markup.Build

def inMode (mode : Mode) (t : Token) : Building Outcome :=
  match mode with
  | .initial => initial t
  | .beforeHtml => beforeHtml t
  | .beforeHead => beforeHead t
  | .inHead => inHead t
  | .afterHead => afterHead t
  | .inBody => inBody t
  | .text => inText t
  | .inTable => inTable t
  | .inTableText => inTableText t
  | .inCaption => inCaption t
  | .inColumnGroup => inColumnGroup t
  | .inTableBody => inTableBody t
  | .inRow => inRow t
  | .inCell => inCell t
  | .inSelect => inSelect t
  | .inSelectInTable => inSelectInTable t
  | .inTemplate => inTemplate t
  | .afterBody => afterBody t
  | .inFrameset => inFrameset t
  | .afterFrameset => afterFrameset t
  | .afterAfterBody => afterAfterBody t
  | .afterAfterFrameset => afterAfterFrameset t

/-! ### Foreign content -/

/-- HTML elements that never stand in foreign content. -/
def breakingNames : List String :=
  ["b", "big", "blockquote", "body", "br", "center", "code", "dd", "div", "dl", "dt", "em",
    "embed", "h1", "h2", "h3", "h4", "h5", "h6", "head", "hr", "i", "img", "li", "listing",
    "menu", "meta", "nobr", "ol", "p", "pre", "ruby", "s", "small", "span", "strong", "strike",
    "sub", "sup", "table", "tt", "u", "ul", "var"]

def breaksOut (tag : Tag) : Bool :=
  breakingNames.contains tag.name ||
    (tag.name == "font" &&
      tag.attributes.any fun a => ["color", "face", "size"].contains a.1)

/-- Leaves foreign content up to where HTML may stand. -/
def breakOut : Building Outcome := do
  pop
  popTo fun e => e.isHtml || e.holdsMathText || e.holdsHtml
  return .reconsider

def openingInForeign (tag : Tag) : Building Outcome := do
  if breaksOut tag then breakOut
  else
    let space := (← get).currentElement.space
    let tag :=
      if space == .svg then { tag with name := respelled svgElementNames tag.name } else tag
    putForeign space tag
    done

/-- Closes the foreign element of a name in any case; from an HTML element on, the mode decides. -/
def closeForeign (name : String) (mode : Mode) : Bool → List NodeId → Building Outcome
  | _, [] => done
  | _, [_] => done
  | isFirst, n :: outer => do
    let e ← elementOf n
    if !isFirst && e.isHtml then inMode mode (.closing name)
    else if e.name.map Char.toLower == name then
      modify fun s => { s with opened := outer }
      done
    else closeForeign name mode false outer

def inForeign (t : Token) : Building Outcome := do
  match t with
  | .char c =>
    if c == '\x00' then putChar replacement
    else
      if !isSpace c then forbidFrameset
      putChar c
    done
  | .comment =>
    putComment
    done
  | .opening tag => openingInForeign tag
  | .closing name =>
    if name == "br" || name == "p" then breakOut
    else
      let s ← get
      closeForeign name s.mode true s.opened
  | _ => done

/-- Whether a token is foreign content where it stands. -/
def isForeign (s : State) (t : Token) : Bool :=
  let e := s.currentElement
  if s.opened.isEmpty || e.isHtml then false
  else match t with
    | .eof => false
    | .char _ => !(e.holdsMathText || e.holdsHtml || e.isHtmlAnnotation)
    | .opening tag =>
      !((e.holdsMathText && !(["mglyph", "malignmark"].contains tag.name)) || e.holdsHtml ||
        (e.isAnnotation && tag.name == "svg") || e.isHtmlAnnotation)
    | _ => true

/-! ### Running -/

/-- Processes a token until nothing is left to do with it, and tells what the text behind it is.
Elements end and modes change as it is processed again, so that the fuel suffices. -/
def process (t : Token) : Nat → Building (Option TextMode)
  | 0 => return none
  | fuel + 1 => do
    let s ← get
    match ← if isForeign s t then inForeign t else inMode s.mode t with
    | .done => return none
    | .again mode =>
      setMode mode
      process t fuel
    | .reconsider => process t fuel
    | .reads mode => return some mode

/-- A line feed right behind certain tags is left out, and so are late document types. -/
def receive (t : Token) : Building (Option TextMode) := do
  let s ← get
  modify fun s => { s with skipsLineFeed := false }
  match t with
  | .char c =>
    if s.skipsLineFeed && c == '\n' then return none else process t (4 * s.opened.length + 32)
  | .doctype _ => if s.mode == .initial then process t 1 else return none
  | t => process t (4 * s.opened.length + 32)

/-- Processes tokens and gives the kind of text that follows them. -/
def receiveAll (mode : TextMode) : List Token → Building TextMode
  | [] => return mode
  | t :: rest => do
    let changed ← receive t
    receiveAll (changed.getD mode) rest

/-- Builds from a text; the fuel bounds its characters. -/
def readText : Nat → TextMode → List Char → Building Unit
  | 0, _, _ => discard (receive .eof)
  | _, _, [] => discard (receive .eof)
  | fuel + 1, mode, c :: cs => do
    let foreign := !(← get).currentElement.isHtml
    let step := Lexer.step mode foreign c cs
    readText fuel (← receiveAll step.mode step.tokens) step.rest

/-- The document a text describes. -/
def ofText (cs : List Char) : Arena :=
  let cs := Lexer.normalized cs
  ((readText (cs.length + 1) .markup cs).run .start).2.arena

end Nodecraft.Markup.Build
