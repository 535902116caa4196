import Nodecraft.Markup.Node
import Nodecraft.Template.Directive

/-!
Templates from markup.
-/

set_option autoImplicit false

namespace Nodecraft.Template

open Script

/-- Runs of white space become one space. -/
def condense (cs : List Char) : String := String.ofList (from_ false cs)
where
  from_ : Bool → List Char → List Char
    | _, [] => []
    | behindBlank, c :: cs =>
      if Text.isBlank c then if behindBlank then from_ true cs else ' ' :: from_ true cs
      else c :: from_ false cs

def textPart (sources : List String) : Segment → Except Fault TextPart
  | .text cs => .ok (.fixed (condense cs))
  | .placeholder digits =>
    match source? sources digits with
    | some source => (expression source "\x7b\x7b \x7d\x7d").map .shown
    | none => .error .unknownPlaceholder

def Segment.isText : Segment → Bool
  | .text _ => true
  | .placeholder _ => false

/-- White space across lines shows nothing. -/
def text? (sources : List String) (s : String) : Except Fault (Option Tree) :=
  if s.toList.all Text.isBlank && s.toList.contains '\n' then .ok none
  else
    let parts := segments s
    if parts.all Segment.isText then .ok (some (.text (condense s.toList)))
    else (parts.mapM (textPart sources)).map fun parts => some (.interpolated parts)

def isBlankTree : Tree → Bool
  | .text s => s.toList.all Text.isBlank
  | _ => false

/-- Whether another branch may follow the last one. -/
def isOpenEnded (branches : List Branch) : Bool :=
  match branches.getLast? with
  | some (.branch test _) => test.isSome
  | none => false

/-- Adds a branch to the condition right before it; trees stand in reverse. -/
def addBranch (directive : String) (b : Branch) (before : List Tree) : Except Fault (List Tree) :=
  match before.dropWhile isBlankTree with
  | .conditional branches :: rest =>
    if isOpenEnded branches then .ok (.conditional (branches ++ [b]) :: rest)
    else .error (.strayBranch directive)
  | _ => .error (.strayBranch directive)

/-- Places a tree behind others, which stand in reverse. -/
def place (placement : Placement) (t : Tree) (before : List Tree) : Except Fault (List Tree) :=
  match placement with
  | .always => .ok (t :: before)
  | .whenTest test => .ok (.conditional [.branch (some test) t] :: before)
  | .elseWhen test => addBranch "v-else-if" (.branch (some test) t) before
  | .otherwise => addBranch "v-else" (.branch none t) before

/-- Trees in order, without white space at the ends. -/
def trimmed (reversed : List Tree) : List Tree :=
  (reversed.dropWhile isBlankTree).reverse.dropWhile isBlankTree

/-- The tree of an element with its children. -/
def Parts.tree (p : Parts) (children : List Tree) : Tree :=
  let t := if p.tag == "template" then .fragment children
    else .element p.tag p.attributes p.events p.visible children
  match p.loop with
  | some (aliases, source) => .loop aliases source t
  | none => t

mutual

/-- Adds a node to the trees before it, which stand in reverse. -/
def addNode (sources : List String) (before : List Tree) : Markup.Node → Reading (List Tree)
  | .comment => return before
  | .text s => do
    match ← text? sources s with
    | some t => return t :: before
    | none => return before
  | .element name attributes children => do
    let p ← addAttributes sources (.start name) attributes
    match p.text with
    | some e => place p.placement (p.tree [.interpolated [.shown e]]) before
    | none =>
      let inner ← addNodes sources [] children
      place p.placement (p.tree (trimmed inner)) before

def addNodes (sources : List String) (before : List Tree) :
    List Markup.Node → Reading (List Tree)
  | [] => return before
  | n :: rest => do addNodes sources (← addNode sources before n) rest

end

/-- The template some markup describes. -/
def ofMarkup (markup : String) : Except Fault Template := do
  let (cs, sources) ← interpolations (withoutComments markup.toList)
  let ps := pieces cs
  checkTags ps
  let content := Markup.contentOf (ps.flatMap Piece.prepared)
  let (roots, handlers) ← (addNodes sources [] content).run #[]
  return ⟨trimmed roots, handlers⟩

end Nodecraft.Template
