import Nodecraft.Json.Reader
import Nodecraft.Json.Record
import Nodecraft.Sandbox.Action

/-!
Settings of a compiler.
-/

set_option autoImplicit false

namespace Nodecraft.Compiler

structure Settings where
  /-- How deep calls may nest. -/
  maxCallDepth : Nat
  /-- Steps of one run; unbounded if missing. -/
  maxSteps : Option Nat
  /-- Whether templates are kept for markup that comes again. -/
  keepsTemplates : Bool
  /-- How many templates are kept. -/
  cacheCapacity : Nat
  /-- What room the native stack has for entries. It is the host's, and not set in a file. -/
  hasRoom : (entries calls : Nat) → Bool
  deriving Inhabited

namespace Settings

def standard : Settings :=
  ⟨Sandbox.Limits.standard.maxCallDepth, Sandbox.Limits.standard.maxSteps, true, 64,
    Sandbox.Limits.standard.hasRoom⟩

def limits (s : Settings) : Sandbox.Limits := ⟨s.maxCallDepth, s.maxSteps, s.hasRoom⟩

def fieldNames : List (List String) :=
  [["maxCallDepth"], ["maxSteps"], ["cacheRenderRoutines"], ["renderCacheCapacity"]]

/-- Missing fields have their standard values. -/
def ofJson? (j : Json) : Option Settings := do
  match ← j.record? fieldNames with
  | [depth, steps, keeps, capacity] =>
    let depth ← Json.optional Json.asNat? standard.maxCallDepth depth
    let steps ← Json.optional (Json.nullable Json.asNat?) standard.maxSteps steps
    let keeps ← Json.optional Json.asBool? standard.keepsTemplates keeps
    let capacity ← Json.optional Json.asNat? standard.cacheCapacity capacity
    return ⟨depth, steps, keeps, capacity, standard.hasRoom⟩
  | _ => none

def ofText? (text : String) : Option Settings :=
  (Json.readWanted? fieldNames.flatten text).bind ofJson?

def toJson (s : Settings) : Json :=
  .object [("maxCallDepth", .ofNat s.maxCallDepth),
    ("maxSteps", (s.maxSteps.map Json.ofNat).getD .null),
    ("cacheRenderRoutines", .bool s.keepsTemplates),
    ("renderCacheCapacity", .ofNat s.cacheCapacity)]

end Settings

end Nodecraft.Compiler
