import Nodecraft.Template.Expression
import Nodecraft.Template.Interpolation
import Nodecraft.Template.Tag

/-!
What the attributes of an element make of it.
-/

set_option autoImplicit false

namespace Nodecraft.Template

open Script

/-- Handlers are numbered in the order in which they are read. -/
abbrev Reading (α : Type) := StateT (Array Handler) (Except Fault) α

/-- How an element stands among its neighbours. -/
inductive Placement
  | always
  | whenTest (test : Expr)
  | elseWhen (test : Expr)
  | otherwise

/-- An element as far as its attributes have been read. -/
structure Parts where
  tag : String
  attributes : List Attribute
  events : List (String × Nat)
  visible : Option Expr
  placement : Placement
  loop : Option (List Pattern × Expr)
  text : Option Expr

def Parts.start (tag : String) : Parts := ⟨tag, [], [], none, .always, none, none⟩

def Parts.withAttribute (p : Parts) (a : Attribute) : Parts :=
  { p with attributes := p.attributes ++ [a] }

def Parts.withEvent (p : Parts) (name : String) (id : Nat) : Parts :=
  { p with events := p.events ++ [(name, id)] }

/-- Whether a tag names a component by beginning with a capital. -/
def isComponentTag (tag : String) : Bool := tag.toList.head?.any Text.isCapital

def addHandler (source directive : String) : Reading Nat := do
  let h ← handler source directive
  modifyGet fun hs => (hs.size, hs.push h)

def readExpr (source directive : String) : Reading Expr := expression source directive

/-- A name without its modifiers. -/
def plainName (cs : List Char) : String := String.ofList (cs.takeWhile (· != '.'))

/-- A name behind one of two beginnings. -/
def behindEither? (short long : String) (name : String) : Option (List Char) :=
  (Text.dropKnown? short.toList name.toList).or (Text.dropKnown? long.toList name.toList)

/-- The statement that stores the value of an input event. -/
def modelAssignment (target : String) : String :=
  Text.trim target ++ " = ($event && $event.target) ? $event.target.value : $event"

/-- A value that the element shows and that its input event stores. -/
def addModel (p : Parts) (value : String) : Reading Parts := do
  let e ← readExpr value "v-model"
  let isComponent := isComponentTag p.tag
  let id ← addHandler (modelAssignment value) "v-model"
  let shown := p.withAttribute (.bound (if isComponent then "modelValue" else "value") e)
  return shown.withEvent (if isComponent then "update:modelValue" else "input") id

/-- Attributes that are neither directives nor ignored. -/
def addOther (p : Parts) (name value : String) : Reading Parts := do
  match behindEither? ":" "v-bind:" name, behindEither? "@" "v-on:" name with
  | some arg, _ => return p.withAttribute (.bound (plainName arg) (← readExpr value name))
  | none, some arg => return p.withEvent (plainName arg) (← addHandler value name)
  | none, none =>
    if "v-".toList.isPrefixOf name.toList then return p
    else return p.withAttribute (.fixed name value)

def addDirective (p : Parts) (name value : String) : Reading Parts := do
  match name with
  | "v-if" => return { p with placement := .whenTest (← readExpr value name) }
  | "v-else-if" => return { p with placement := .elseWhen (← readExpr value name) }
  | "v-else" => return { p with placement := .otherwise }
  | "v-for" => return { p with loop := some (← loop value) }
  | "v-show" => return { p with visible := some (← readExpr value name) }
  | "v-text" => return { p with text := some (← readExpr value name) }
  | "v-model" => addModel p value
  | "v-bind" => return p.withAttribute (.spread (← readExpr value name))
  | "key" | ":key" | "v-bind:key" | "ref" => return p
  | _ =>
    if name == spellingAttribute then return { p with tag := value }
    else addOther p name value

/-- Reads attributes in order. Interpolations have no meaning in them. -/
def addAttributes (sources : List String) : Parts → List (String × String) → Reading Parts
  | p, [] => return p
  | p, (name, value) :: rest => do
    addAttributes sources (← addDirective p name (restored sources value)) rest

end Nodecraft.Template
