import Nodecraft.Sandbox.Failure

/-!
Actions of scripts: they read and extend the heap, count steps and nested calls, and collect the
callbacks, hooks and watchers that scripts register. A failed action leaves its effects behind.
-/

set_option autoImplicit false

namespace Nodecraft.Sandbox

/-- Bounds on one run; without a step bound, steps are not limited. -/
structure Limits where
  maxCallDepth : Nat
  maxSteps : Option Nat
  /-- Whether the native stack has room for one more entry within so many entries and calls. -/
  hasRoom : (entries calls : Nat) → Bool
  deriving Inhabited

/-- The usual bounds, on a stack that always has room. -/
def Limits.standard : Limits := ⟨256, some 1000000, fun _ _ => true⟩

inductive WatchSource
  | getter (f : Value)
  /-- A ref or computed cell. -/
  | cell (v : Value)
  | value (v : Value)
  /-- Runs again whenever watchers run. -/
  | effect (f : Value)
  deriving Inhabited

/-- A watched source with its value and content at the last report. -/
structure Watcher where
  source : WatchSource
  callback : Value
  last : Value
  snapshot : Json
  switch : SwitchId
  deriving Inhabited

structure HookRegistry where
  hooks : Array (LifecycleHook × Value)
  watchers : Array Watcher
  deriving Inhabited

def HookRegistry.empty : HookRegistry := ⟨#[], #[]⟩

def HookRegistry.callbacks (r : HookRegistry) (hook : LifecycleHook) : List Value :=
  (r.hooks.toList.filter fun h => h.1 == hook).map Prod.snd

/-- One interpreter: its limits, its counters, and what scripts have left with it. -/
structure Run where
  limits : Limits
  /-- Open calls. -/
  depth : Nat
  /-- Steps since the outermost entry. -/
  steps : Nat
  /-- Open entries; none between runs. -/
  nesting : Nat
  ticks : Array Value
  /-- Where hooks and watchers are registered, while a component is set up. -/
  hooks : Option HookRegistry
  props : Value
  deriving Inhabited

/-- Whether another entry may begin. The outermost one always may. -/
def Run.hasRoom (r : Run) : Bool := r.nesting == 0 || r.limits.hasRoom r.nesting r.depth

def Run.start (limits : Limits) (props : Value) : Run := ⟨limits, 0, 0, 0, #[], none, props⟩

structure World where
  heap : Heap
  run : Run
  deriving Inhabited

abbrev Action (α : Type) := EStateM Failure World α

namespace Action

variable {α : Type}

def raise (e : ScriptError) : Action α := throw (.raised e)

def typeError (message : String) : Action α := raise (.type message)

def heap : Action Heap := return (← get).heap

def run : Action Run := return (← get).run

def modifyHeap (f : Heap → Heap) : Action Unit := modify fun w => { w with heap := f w.heap }

def modifyRun (f : Run → Run) : Action Unit := modify fun w => { w with run := f w.run }

/-- What a heap operation allocates. -/
def allocate (f : Heap → α × Heap) : Action α :=
  modifyGet fun w => let (a, h) := f w.heap; (a, { w with heap := h })

def newArray (items : Array Value) : Action Value :=
  return .array (← allocate fun h => h.newArray items)

def newObject (kind : ObjectKind) (fields : Fields Value) : Action ObjectId :=
  allocate fun h => h.newObject ⟨kind, fields, false⟩

def newPlain (fields : Fields Value) : Action Value := return .object (← newObject .plain fields)

def newFunction (f : Function) : Action Value :=
  return .function (← allocate fun h => h.newFunction f)

def newNative (n : Native) : Action Value := newFunction (.native n)

def newScope (scope : Scope) : Action ScopeId := allocate fun h => h.newScope scope

/-- A block's scope. -/
def childScope (parent : ScopeId) : Action ScopeId :=
  newScope ⟨[], some parent, none, none, false⟩

def ofDocument (j : Json) : Action Value := allocate fun h => h.ofDocument j

def text (v : Value) : Action String := return (← heap).text v

def number (v : Value) : Action Float := return (← heap).number v

/-- One step, unless the budget is used up. -/
def step : Action Unit := do
  modifyRun fun r => { r with steps := r.steps + 1 }
  let r ← run
  match r.limits.maxSteps with
  | some limit => if limit < r.steps then raise (.stepBudget limit)
  | none => pure ()

/-- Refuses another entry, unless the native stack has room for it. -/
def room : Action Unit := do
  if (← run).hasRoom then pure () else raise .stackExhausted

/-- Runs an action as an entry of its own. The outermost entry starts the step count afresh, and
every entry is left again however the action ends. -/
def entering (action : Action α) : Action α := fun w =>
  let steps := if w.run.nesting = 0 then 0 else w.run.steps
  match action { w with run := { w.run with steps := steps, nesting := w.run.nesting + 1 } } with
  | .ok a w => .ok a { w with run := { w.run with nesting := w.run.nesting - 1 } }
  | .error e w => .error e { w with run := { w.run with nesting := w.run.nesting - 1 } }

/-- Runs an action one call deeper, unless that is too deep. -/
def calling (action : Action α) : Action α := fun w =>
  if w.run.limits.maxCallDepth ≤ w.run.depth then
    .error (.raised (.callDepth w.run.limits.maxCallDepth)) w
  else
    match action { w with run := { w.run with depth := w.run.depth + 1 } } with
    | .ok a w => .ok a { w with run := { w.run with depth := w.run.depth - 1 } }
    | .error e w => .error e { w with run := { w.run with depth := w.run.depth - 1 } }

/-- Runs a handler after an error that the script may catch. -/
def catching (action : Action α) (handler : ScriptError → Action α) : Action α := fun w =>
  match action w with
  | .error (.raised e) w => if e.isCatchable then handler e w else .error (.raised e) w
  | result => result

/-- The outcome of an action as a value. -/
def outcome (action : Action α) : Action (Except Failure α) := fun w =>
  match action w with
  | .ok a w => .ok (.ok a) w
  | .error e w => .ok (.error e) w

/-- A thrown value with the text it is reported by. -/
def throwValue (value : Value) : Action α := do
  let h ← heap
  let message := match value with
    | .object o =>
      match h.own? o "name", h.own? o "message" with
      | some name, some message => h.text name ++ ": " ++ h.text message
      | none, some message => h.text message
      | _, none => h.text value
    | v => h.text v
  raise (.thrown message value)

/-- The value a `catch` clause receives. -/
def caught (e : ScriptError) : Action Value :=
  match e with
  | .thrown _ value => return value
  | .unbound name => record "ReferenceError" (name ++ " is not defined")
  | .type message => record "TypeError" message
  | .callDepth _ => record "RangeError" e.message
  | .stepBudget _ => record "Error" e.message
  | .stackExhausted => record "RangeError" e.message
where
  record (name message : String) : Action Value :=
    newPlain [("name", .string name), ("message", .string message)]

end Action

end Nodecraft.Sandbox
