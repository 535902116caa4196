import Nodecraft.Markup.Arena
import Nodecraft.Markup.Token

/-!
The state in which a document is built from tokens, and where new nodes go.
-/

set_option autoImplicit false

namespace Nodecraft.Markup.Build

/-- What part of a document is being built. -/
inductive Mode
  | initial
  | beforeHtml
  | beforeHead
  | inHead
  | afterHead
  | inBody
  | text
  | inTable
  | inTableText
  | inCaption
  | inColumnGroup
  | inTableBody
  | inRow
  | inCell
  | inSelect
  | inSelectInTable
  | inTemplate
  | afterBody
  | inFrameset
  | afterFrameset
  | afterAfterBody
  | afterAfterFrameset
  deriving DecidableEq, Repr, Inhabited

/-- A formatting element that later content is to be in, or a boundary between such elements. -/
inductive Entry
  | marker
  | element (node : NodeId) (tag : Tag)
  deriving Inhabited

structure State where
  arena : Arena
  mode : Mode
  /-- The mode that text is read for. -/
  returnMode : Mode
  templateModes : List Mode
  /-- The open elements, the innermost first. -/
  opened : List NodeId
  /-- The latest first. -/
  formatting : List Entry
  head : Option NodeId
  form : Option NodeId
  framesetAllowed : Bool
  /-- Whether content that has no place in a table goes before it. -/
  fostering : Bool
  /-- Whether a line feed that comes next is left out. -/
  skipsLineFeed : Bool
  /-- Whether the document declares no type, or an old one, and so gets the lenient rules. -/
  lenient : Bool
  /-- Text in a table, not yet placed. -/
  tableText : List Char
  deriving Inhabited

def State.start : State :=
  ⟨.start, .initial, .initial, [], [], [], none, none, true, false, false, false, []⟩

abbrev Building (α : Type) := StateM State α

/-- What is left to do with a token. -/
inductive Outcome
  | done
  /-- The token is to be processed again, in this mode. -/
  | again (mode : Mode)
  /-- The token is to be processed again, now that other elements are open. -/
  | reconsider
  /-- What follows is text of this kind. -/
  | reads (mode : TextMode)

def done : Building Outcome := return .done

def setMode (mode : Mode) : Building Unit := modify fun s => { s with mode := mode }

def forbidFrameset : Building Unit := modify fun s => { s with framesetAllowed := false }

def modifyArena (f : Arena → Arena) : Building Unit := modify fun s => { s with arena := f s.arena }

def elementOf (n : NodeId) : Building Element := return (← get).arena.element n

def newElement (e : Element) : Building NodeId :=
  modifyGet fun s => let (n, a) := s.arena.newElement e; (n, { s with arena := a })

def newHtml (tag : Tag) : Building NodeId := newElement ⟨.html, tag.name, tag.attributes⟩

/-! ### Open elements -/

def State.current (s : State) : NodeId := s.opened.headD Arena.root

def State.currentElement (s : State) : Element := s.arena.element s.current

def currentIs (p : Element → Bool) : Building Bool := return p (← get).currentElement

def currentNamed (name : String) : Building Bool := currentIs (Element.named name)

def push (n : NodeId) : Building Unit := modify fun s => { s with opened := n :: s.opened }

def pop : Building Unit := modify fun s => { s with opened := s.opened.tail }

def close (n : NodeId) : Building Unit := modify fun s => { s with opened := s.opened.erase n }

/-- Whether an element of a name is open. -/
def isOpen (name : String) : Building Bool := do
  let s ← get
  return s.opened.any fun n => (s.arena.element n).named name

/-- Pops elements until the innermost one is of a kind. -/
def popTo (p : Element → Bool) : Building Unit :=
  modify fun s => { s with opened := s.opened.dropWhile fun n => !p (s.arena.element n) }

/-- Pops elements up to and including the first one of a kind. -/
def popThrough (p : Element → Bool) : Building Unit := do
  popTo p
  pop

def popNamed (name : String) : Building Unit := popThrough (Element.named name)

/-- Pops elements that end by themselves. -/
def popImplied (p : Element → Bool) : Building Unit :=
  modify fun s => { s with opened := s.opened.dropWhile fun n => p (s.arena.element n) }

def popImpliedExcept (name : String) : Building Unit :=
  popImplied fun e => e.endsByItself && !e.named name

/-- Whether a wanted element is open, with none in between at which the scope ends. -/
def inScopeOf (a : Arena) (ends : Element → Bool) (wanted : NodeId → Bool) : List NodeId → Bool
  | [] => false
  | n :: rest => wanted n || (!ends (a.element n) && inScopeOf a ends wanted rest)

def inScope (ends wanted : Element → Bool) : Building Bool := do
  let s ← get
  return inScopeOf s.arena ends (fun n => wanted (s.arena.element n)) s.opened

def namedInScope (ends : Element → Bool) (name : String) : Building Bool :=
  inScope ends (Element.named name)

/-! ### Placing nodes -/

/-- A place for new content. -/
inductive Place
  | lastOf (parent : NodeId)
  | before (parent sibling : NodeId)

/-- Where content goes that has no place in the innermost table. -/
def fosterPlace (a : Arena) : List NodeId → Place
  | [] => .lastOf Arena.root
  | [outermost] => .lastOf outermost
  | n :: outer :: rest =>
    let e := a.element n
    if e.named "template" then .lastOf (a.inside n)
    else if e.named "table" then
      match (a.cell n).parent with
      | some parent => .before parent n
      | none => .lastOf outer
    else fosterPlace a (outer :: rest)

/-- The place for new content of an element. -/
def State.placeIn (s : State) (target : NodeId) : Place :=
  if s.fostering && (s.arena.element target).isTablePart then fosterPlace s.arena s.opened
  else .lastOf (s.arena.inside target)

def State.place (s : State) : Place := s.placeIn s.current

def putAt (place : Place) (n : NodeId) : Building Unit :=
  match place with
  | .lastOf parent => modifyArena fun a => a.append parent n
  | .before parent sibling => modifyArena fun a => a.insertBefore parent sibling n

def put (n : NodeId) : Building Unit := do putAt (← get).place n

def putChar (c : Char) : Building Unit := do
  match (← get).place with
  | .lastOf parent => modifyArena fun a => a.appendChar parent c
  | .before parent sibling => modifyArena fun a => a.insertCharBefore parent sibling c

def newComment : Building NodeId :=
  modifyGet fun s => let (n, a) := s.arena.new .comment; (n, { s with arena := a })

def putComment : Building Unit := do put (← newComment)

/-- A comment beside the root element. -/
def putOuterComment : Building Unit := do
  let n ← newComment
  modifyArena fun a => a.append Arena.root n

/-- A comment at the end of the root element. -/
def putLastComment : Building Unit := do
  let n ← newComment
  let outermost := (← get).opened.getLast?.getD Arena.root
  modifyArena fun a => a.append outermost n

/-- Puts a new element in place and opens it. -/
def openElement (e : Element) : Building NodeId := do
  let n ← newElement e
  put n
  push n
  return n

def openTag (tag : Tag) : Building Unit := discard (openElement ⟨.html, tag.name, tag.attributes⟩)

def openNamed (name : String) : Building Unit := discard (openElement ⟨.html, name, []⟩)

/-- Puts a new element in place that stays empty. -/
def putTag (tag : Tag) : Building NodeId := do
  let n ← newHtml tag
  put n
  return n

/-- Opens an element that holds nothing but text. -/
def openText (tag : Tag) (mode : TextMode) : Building Outcome := do
  openTag tag
  modify fun s => { s with returnMode := s.mode, mode := .text }
  return .reads mode

end Nodecraft.Markup.Build
