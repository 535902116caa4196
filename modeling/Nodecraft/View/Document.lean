import Nodecraft.Json.Record
import Nodecraft.View.Node

/-!
Views as documents.
-/

set_option autoImplicit false

namespace Nodecraft.View

mutual

def Node.toJson : Node → Json
  | .element tag attributes events children =>
    .object [("kind", .string "element"), ("tag", .string tag),
      ("attrs", .object (attributes.map fun (k, v) => (k, .string v))),
      ("events", .object (events.map fun (k, id) => (k, .ofNat id))),
      ("children", .array (listToJson children))]
  | .text value => .object [("kind", .string "text"), ("value", .string value)]
  | .component name props events children =>
    .object [("kind", .string "component"), ("name", .string name), ("props", .object props),
      ("events", .object (events.map fun (k, id) => (k, .ofNat id))),
      ("children", .array (listToJson children))]

def listToJson : List Node → List Json
  | [] => []
  | n :: rest => n.toJson :: listToJson rest

end

inductive Kind
  | element
  | text
  | component

/-- Nodes within a view may also give their kind by its number. -/
def Kind.ofJson? (within : Bool) : Json → Option Kind
  | .string "element" => some .element
  | .string "text" => some .text
  | .string "component" => some .component
  | .number (.whole 0) => if within then some .element else none
  | .number (.whole 1) => if within then some .text else none
  | .number (.whole 2) => if within then some .component else none
  | _ => none

def entries? {α : Type} (read : Json → Option α) (j : Json) : Option (List (String × α)) := do
  (← j.asObject?).mapM fun (k, v) => (read v).map fun a => (k, a)

/-- The kind of a node's document and what is left of it. -/
def splitKind? (within : Bool) : Json → Option (Kind × Json)
  | .object fields => do
    let kind ← Kind.ofJson? within (← fields.lookup "kind")
    return (kind, .object (fields.filter fun f => f.1 != "kind"))
  | .array (kind :: rest) => do return (← Kind.ofJson? within kind, .array rest)
  | _ => none

mutual

/-- The view a document describes; the fuel bounds how deep it is nested. -/
def Node.readWithin (within : Bool) : Nat → Json → Option Node
  | 0, _ => none
  | fuel + 1, j => do
    let (kind, rest) ← splitKind? within j
    match kind with
    | .text =>
      match ← rest.record? [["value"]] with
      | [some value] => return .text (← value.asString?)
      | _ => none
    | .element =>
      match ← rest.record? [["tag"], ["attrs"], ["events"], ["children"]] with
      | [some tag, some attributes, some events, some children] =>
        return .element (← tag.asString?) (← entries? Json.asString? attributes)
          (← entries? Json.asNat? events) (← listWithin fuel (← children.asArray?))
      | _ => none
    | .component =>
      match ← rest.record? [["name"], ["props"], ["events"], ["children"]] with
      | [some name, some props, some events, some children] =>
        return .component (← name.asString?) (← props.asObject?) (← entries? Json.asNat? events)
          (← listWithin fuel (← children.asArray?))
      | _ => none

def listWithin : Nat → List Json → Option (List Node)
  | _, [] => some []
  | 0, _ :: _ => none
  | fuel + 1, j :: rest => do
    return (← Node.readWithin true fuel j) :: (← listWithin fuel rest)

end

mutual

/-- A bound on the steps it takes to go through a document. -/
def extent : Json → Nat
  | .array items => 1 + itemsExtent items
  | .object fields => 1 + fieldsExtent fields
  | _ => 1

def itemsExtent : List Json → Nat
  | [] => 0
  | j :: rest => 1 + extent j + itemsExtent rest

def fieldsExtent : List (String × Json) → Nat
  | [] => 0
  | (_, j) :: rest => 1 + extent j + fieldsExtent rest

end

def Node.ofJson? (j : Json) : Option Node := Node.readWithin false (extent j + 1) j

end Nodecraft.View
