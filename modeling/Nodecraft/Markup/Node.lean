import Nodecraft.Markup.Build.Document

/-!
Documents as trees.
-/

set_option autoImplicit false

namespace Nodecraft.Markup

inductive Node
  /-- The content of a template counts as its children. -/
  | element (name : String) (attributes : List (String × String)) (children : List Node)
  | text (s : String)
  | comment
  deriving Inhabited

/-- The tree below a node, as deep as the fuel allows. -/
def Arena.treeWithin (a : Arena) : Nat → NodeId → Node
  | 0, _ => .comment
  | fuel + 1, n =>
    let cell := a.cell n
    match cell.content with
    | .text s => .text s
    | .element e _ =>
      .element e.name e.attributes ((a.cell (a.inside n)).children.map (a.treeWithin fuel))
    | _ => .comment

/-- No node is below itself, so that a tree is no deeper than the arena is large. -/
def Arena.tree (a : Arena) (n : NodeId) : Node := a.treeWithin a.cells.size n

mutual

/-- What a node contributes to the content of the page: elements that frame the page stand for
their content. -/
def Node.bodyContent : Node → List Node
  | .element name attributes children =>
    if ["html", "head", "body"].contains name then bodyContents children
    else [.element name attributes children]
  | .text s => [.text s]
  | .comment => []

def bodyContents : List Node → List Node
  | [] => []
  | n :: rest => n.bodyContent ++ bodyContents rest

end

/-- The content of the page a text describes. -/
def contentOf (text : List Char) : List Node :=
  let a := Build.ofText text
  bodyContents ((a.cell Arena.root).children.map a.tree)

end Nodecraft.Markup
