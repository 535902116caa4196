import Nodecraft.Markup.Element

/-!
Documents that are being built: nodes in numbered cells, so that they can be moved.
-/

set_option autoImplicit false

namespace Nodecraft.Markup

structure NodeId where
  index : Nat
  deriving DecidableEq, Repr, Inhabited

inductive Content
  | document
  /-- The content of a template stands apart from its children. -/
  | element (e : Element) (template : Option NodeId)
  | text (s : String)
  | comment
  deriving Inhabited

structure Cell where
  content : Content
  parent : Option NodeId
  children : List NodeId
  deriving Inhabited

structure Arena where
  cells : Array Cell
  deriving Inhabited

namespace Arena

/-- The root of the document. -/
def root : NodeId := ⟨0⟩

def start : Arena := ⟨#[⟨.document, none, []⟩]⟩

def cell (a : Arena) (n : NodeId) : Cell := a.cells.getD n.index ⟨.comment, none, []⟩

def modify (a : Arena) (n : NodeId) (f : Cell → Cell) : Arena := ⟨a.cells.modify n.index f⟩

def new (a : Arena) (content : Content) : NodeId × Arena :=
  (⟨a.cells.size⟩, ⟨a.cells.push ⟨content, none, []⟩⟩)

def element (a : Arena) (n : NodeId) : Element :=
  match (a.cell n).content with
  | .element e _ => e
  | _ => default

def newElement (a : Arena) (e : Element) : NodeId × Arena :=
  if e.named "template" then
    let (content, a) := a.new .document
    a.new (.element e (some content))
  else a.new (.element e none)

/-- Where new content of an element goes. -/
def inside (a : Arena) (n : NodeId) : NodeId :=
  match (a.cell n).content with
  | .element _ (some content) => content
  | _ => n

def append (a : Arena) (parent child : NodeId) : Arena :=
  (a.modify parent fun c => { c with children := c.children ++ [child] }).modify child
    fun c => { c with parent := some parent }

/-- Takes a node out of its parent. -/
def detach (a : Arena) (n : NodeId) : Arena :=
  match (a.cell n).parent with
  | none => a
  | some parent =>
    (a.modify parent fun c => { c with children := c.children.erase n }).modify n
      fun c => { c with parent := none }

def isText (a : Arena) (n : NodeId) : Bool :=
  match (a.cell n).content with
  | .text _ => true
  | _ => false

def extendText (a : Arena) (n : NodeId) (c : Char) : Arena :=
  a.modify n fun cell =>
    match cell.content with
    | .text s => { cell with content := .text (s.push c) }
    | _ => cell

/-- Text joins text that it is put behind. -/
def appendChar (a : Arena) (parent : NodeId) (c : Char) : Arena :=
  match (a.cell parent).children.getLast? with
  | some last =>
    if a.isText last then a.extendText last c else fresh
  | none => fresh
where
  fresh : Arena :=
    let (n, a) := a.new (.text c.toString)
    a.append parent n

/-- A list with an item put before another one. -/
def putBefore (sibling child : NodeId) : List NodeId → List NodeId
  | [] => [child]
  | n :: rest => if n == sibling then child :: n :: rest else n :: putBefore sibling child rest

def insertBefore (a : Arena) (parent sibling child : NodeId) : Arena :=
  (a.modify parent fun c => { c with children := putBefore sibling child c.children }).modify child
    fun c => { c with parent := some parent }

/-- The node right before another one. -/
def before? (sibling : NodeId) : List NodeId → Option NodeId
  | n :: m :: rest => if m == sibling then some n else before? sibling (m :: rest)
  | _ => none

def insertCharBefore (a : Arena) (parent sibling : NodeId) (c : Char) : Arena :=
  match before? sibling (a.cell parent).children with
  | some previous => if a.isText previous then a.extendText previous c else fresh
  | none => fresh
where
  fresh : Arena :=
    let (n, a) := a.new (.text c.toString)
    a.insertBefore parent sibling n

/-- Moves all children of a node behind those of another one. -/
def moveChildren (a : Arena) (source target : NodeId) : Arena :=
  let children := (a.cell source).children
  let a := a.modify source fun c => { c with children := [] }
  children.foldl (fun a n => a.append target n) a

/-- Adds attributes that an element does not have yet. -/
def addAttributes (a : Arena) (n : NodeId) (attributes : List (String × String)) : Arena :=
  a.modify n fun cell =>
    match cell.content with
    | .element e template =>
      let new := attributes.filter fun b => (e.attribute? b.1).isNone
      { cell with content := .element { e with attributes := e.attributes ++ new } template }
    | _ => cell

end Arena

end Nodecraft.Markup
