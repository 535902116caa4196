import Nodecraft.Json.Basic

/-!
Records with known fields, read from documents.
-/

set_option autoImplicit false

namespace Nodecraft.Json

/-- The fields of a record: of an object in which no field occurs twice, under any of its names;
or of an array that holds them in order and perhaps ends early. Other keys mean nothing. -/
def record? (names : List (List String)) : Json → Option (List (Option Json))
  | .object fields => names.mapM fun aliases =>
    match fields.filter fun f => aliases.contains f.1 with
    | [] => some none
    | [f] => some (some f.2)
    | _ => none
  | .array items =>
    if names.length < items.length then none
    else some ((List.range names.length).map fun i => items[i]?)
  | _ => none

/-- A field that may be missing; one that is there must be readable. -/
def optional {α : Type} (read : Json → Option α) (default : α) : Option Json → Option α
  | none => some default
  | some j => read j

/-- A reader that takes null for nothing. -/
def nullable {α : Type} (read : Json → Option α) (j : Json) : Option (Option α) :=
  if j.isNull then some none else (read j).map some

end Nodecraft.Json
