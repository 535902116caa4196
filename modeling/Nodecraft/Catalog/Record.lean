import Nodecraft.Json.Record

/-!
Node types that users have written, as documents store them.
-/

set_option autoImplicit false

namespace Nodecraft.Catalog

/-- How the tags of custom node types begin. -/
def customMark : String := "custom-"

def typeTag (id : String) : String := customMark ++ id

def isCustomTag (tag : String) : Bool := customMark.toList.isPrefixOf tag.toList

/-- The editor in which custom nodes are opened. -/
def editor : String := "CustomNodeInfo"

def standardColor : String := "#7e8c9e"

structure Record where
  id : String
  name : String
  definition : String
  color : Option String
  deriving DecidableEq, Repr, Inhabited

namespace Record

def fieldNames : List (List String) :=
  [["id"], ["name"], ["logicText", "code"], ["accentColor", "logoColor"]]

def ofJson? (j : Json) : Option Record := do
  match ← j.record? fieldNames with
  | [some id, some name, some definition, color] =>
    let color ← Json.optional (Json.nullable Json.asString?) none color
    return ⟨← id.asString?, ← name.asString?, ← definition.asString?, color⟩
  | _ => none

/-- A missing color is left out. -/
def toJson (r : Record) : Json :=
  .object ([("id", .string r.id), ("name", .string r.name), ("logicText", .string r.definition)] ++
    (r.color.map fun c => ("accentColor", Json.string c)).toList)

def tag (r : Record) : String := typeTag r.id

/-- The node type as a canvas lists it. -/
def entry (r : Record) : Json :=
  .object [("type", .string r.tag), ("editor", .string editor), ("label", .string r.name),
    ("code", .string r.definition), ("color", (r.color.map Json.string).getD .null)]

/-- The color nodes of this type are drawn in; an empty one counts as missing. -/
def shownColor (r : Record) : String :=
  match r.color with
  | some c => if c.isEmpty then standardColor else c
  | none => standardColor

/-- The data of a fresh node of this type. -/
def initialData (r : Record) (nodeId : String) : Json :=
  .object [("id", .string nodeId), ("type", .string r.tag), ("label", .string r.name),
    ("code", .string r.definition), ("color", .string r.shownColor)]

end Record

end Nodecraft.Catalog
