import Nodecraft.Component.Evaluation
import Nodecraft.Template.Render

/-!
Components: what a definition compiles to for one node.
-/

set_option autoImplicit false

namespace Nodecraft

open Sandbox

structure Component where
  template : Template
  options : Component.Options
  data : NodeData
  store : NodeStore
  limits : Limits
  deriving Inhabited

namespace Component

open Sandbox.Action

/-- Keys of a state that are not the user's. -/
def reservedKeys : List String := [dataKey, lookupKey, sidesKey]

def isReserved (key : String) : Bool := reservedKeys.contains key

/-- The components that views may contain. -/
def registered : Template.Registered := ["Handle"]

def name (c : Component) : Option String := c.options.name

def hook (c : Component) (hook : LifecycleHook) : Option Value := c.options.hook hook

/-- The reserved keys with fresh values. -/
def reservedEntries (c : Component) : Action (Fields Value) := do
  let data ← allocate fun h => h.ofData c.data
  let lookup ← newNative (.nodeData c.store)
  let sides ← allocate Heap.newSides
  return [(dataKey, data), (lookupKey, lookup), (sidesKey, sides)]

/-- What code runs on before there is a state. -/
def reservedObject (c : Component) : Action Value := do newPlain (← c.reservedEntries)

/-- The fields a value contributes to a state. Only plain objects have any. -/
def contributed (h : Heap) : Value → Fields Value
  | .object o =>
    let object := h.object o
    if object.kind.isPlain then object.fields else []
  | _ => []

/-- The fields of the user's data. -/
def userData (c : Component) : Action (Fields Value) := do
  match c.options.data with
  | some (.function f) =>
    let self ← c.reservedObject
    let data ← call (.function f) self [self]
    return contributed (← heap) data
  | _ => return []

/-- A fresh state: the user's fields, and the reserved ones, which take precedence. -/
def newState (c : Component) : Action ObjectId := do
  let user ← c.userData
  let reserved ← c.reservedEntries
  newObject .state (reserved.foldl (fun fields (k, v) => fields.insert k v) user)

end Component

end Nodecraft
