import Nodecraft.Component.Options
import Nodecraft.Logic.Body
import Nodecraft.Sandbox.Evaluation.Call
import Nodecraft.Sandbox.Whitelist

/-!
Evaluating logic to component options. The root scope holds the whitelist, the node's data and
the look-up of other nodes, and nothing else.
-/

set_option autoImplicit false

namespace Nodecraft.Component

open Sandbox Sandbox.Action

/-- The name of a node's own data. -/
def dataKey : String := "data"

/-- The name of the look-up of other nodes' data. -/
def lookupKey : String := "getNodeData"

/-- The name of the sides of a node. -/
def sidesKey : String := "Position"

/-- A run of its own on a heap. -/
def freshRun {α : Type} (limits : Limits) (data : NodeData) (action : Action α) :
    EStateM Failure Heap α := fun h =>
  let (props, h) := h.ofData data
  match action ⟨h, Run.start limits props⟩ with
  | .ok a w => .ok a w.heap
  | .error e w => .error e w.heap

def rootScope (whitelist : Whitelist) (data : NodeData) (store : NodeStore) : Action ScopeId := do
  let own ← allocate fun h => h.ofData data
  let lookup ← newNative (.nodeData store)
  let bindings := ((whitelist.bindings.insert dataKey own).insert lookupKey lookup).map
    fun (name, v) => (name, (⟨v, false⟩ : Binding))
  newScope ⟨bindings, none, none, none, true⟩

/-- The options some logic returns, after the callbacks it has deferred. -/
def evaluate (whitelist : Whitelist) (limits : Limits) (body : Logic.Body) (data : NodeData)
    (store : NodeStore) : EStateM Failure Heap Options :=
  if body.program.isEmpty then return .empty
  else freshRun limits data do
    let scope ← rootScope whitelist data store
    let returned ← runProgram scope body.program
    flushTicks call
    return Options.ofValue (← heap) returned

end Nodecraft.Component
