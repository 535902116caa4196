import Nodecraft.Sandbox.Capability
import Nodecraft.Sandbox.Method.Array
import Nodecraft.Sandbox.Method.Number
import Nodecraft.Sandbox.Method.Text

/-!
The evaluators that rules of evaluation call for parts of a construct. Each rule is written over
such a machine, and the recursion is tied in one place.
-/

set_option autoImplicit false

namespace Nodecraft.Sandbox

open Script

/-- How a statement ends. -/
inductive Completion
  | normal
  | return (value : Value)
  | break
  | continue
  deriving Inhabited

structure Machine where
  /-- How often loops may go round. -/
  rounds : Nat
  /-- Counts a step. -/
  step : Action Unit
  /-- Makes sure that there is room for another entry. -/
  room : Action Unit
  /-- Runs a finalizer after a guarded action. -/
  finalize : Action Completion → Action Completion → Action Completion
  /-- Removes a property. -/
  erase : Value → String → Action Unit
  /-- Evaluates an expression, as an entry of its own. -/
  eval : ScopeId → Expr → Action Value
  /-- Evaluates a link of an optional chain; none if the chain ends early. -/
  link : ScopeId → Expr → Action (Option Value)
  /-- Executes a statement, as an entry of its own. -/
  exec : ScopeId → Stmt → Action Completion
  /-- Binds the names of a pattern to parts of a value. -/
  bind : DeclKind → ScopeId → Pattern → Value → Action Unit
  /-- Calls a function, one call deeper. -/
  invoke : FunctionId → Value → List Value → Action Value

namespace Machine

/-- Runs an action as an entry of its own, if there is room for it. -/
def nested {α : Type} (m : Machine) (action : Action α) : Action α := do
  m.room
  Action.entering action

/-- Calls a value, as an entry of its own. -/
def call (m : Machine) : Caller := fun f self args =>
  match f with
  | .function id => m.nested (m.invoke id self args)
  | other => Action.typeError (other.typeName ++ " is not a function")

end Machine

namespace Action

def functionMethod (call : Caller) (m : FunctionMethod) (self : Value) (args : List Value) :
    Action Value := do
  match m with
  | .call => call self (argument args 0) (args.drop 1)
  | .apply =>
    match argument args 1 with
    | .array a => call self (argument args 0) ((← heap).array a).toList
    | .undefined => call self (argument args 0) []
    | .null => call self (argument args 0) []
    | _ => typeError "CreateListFromArrayLike called on non-object"
  | .bind =>
    match self with
    | .function f => newFunction (.bound f (argument args 0))
    | other => typeError ("Bind must be called on a function, got " ++ other.typeName)

def native (call : Caller) (n : Native) (self : Value) (args : List Value) : Action Value :=
  match n with
  | .text m => textMethod call m self args
  | .number m => numberMethod m self args
  | .array m => arrayMethod call m self args
  | .hasOwnProperty => do
    let h ← heap
    return .bool (h.hasOwn self (h.key (args.headD .undefined)))
  | .function m => functionMethod call m self args
  | .capability c => capability call c args
  | .stop switch => do
    match switch with
    | some id => modifyHeap fun h => h.switchOff id
    | none => pure ()
    return .undefined
  | .nodeData store => nodeData store (args.headD .undefined)
  | .emit => return .undefined
  | .path root segments => readPath call root segments

end Action

end Nodecraft.Sandbox
