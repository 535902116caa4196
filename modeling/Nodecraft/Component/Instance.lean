import Nodecraft.Component.Basic
import Nodecraft.View.Html

/-!
Mounted components: their life from setup to the end, the watchers that observe their state, and
the events of their views. What a mounted component evaluates and calls, it does on a machine.
-/

set_option autoImplicit false

namespace Nodecraft

open Sandbox

structure Instance where
  component : Component
  world : World
  state : ObjectId
  hooks : HookRegistry
  /-- The handlers of the latest view. -/
  handlers : Array Template.BoundHandler
  mounted : Bool
  deriving Inhabited

namespace Instance

/-- Operations on an instance keep their effects when they fail. -/
abbrev Op (α : Type) := EStateM Failure Instance α

def lift {α : Type} (action : Action α) : Op α := fun i =>
  match action i.world with
  | .ok a w => .ok a { i with world := w }
  | .error e w => .error e { i with world := w }

instance {α : Type} : Coe (Action α) (Op α) := ⟨lift⟩

def stateValue (i : Instance) : Value := .object i.state

def ownState : Op Value := return (← get).stateValue

def callOn (m : Machine) (f self : Value) (args : List Value) : Op Value := lift (m.call f self args)

def call (f self : Value) (args : List Value) : Op Value := callOn machine f self args

def heap : Op Heap := return (← get).world.heap

/-- A key of the state, with cells read through. -/
def getOn (m : Machine) (key : String) : Op Value := do
  lift (Action.getProperty m.call (← ownState) key)

def get (key : String) : Op Value := getOn machine key

def hasOwn (key : String) : Op Bool := do
  let i ← EStateM.get
  return (i.world.heap.object i.state).fields.has key

/-- Puts a value into the state itself, over whatever was under its key. -/
def define (key : String) (v : Value) : Op Unit := do
  let i ← EStateM.get
  lift (Action.modifyHeap fun h => h.insertField i.state key v)

/-! ### Setup -/

/-- Runs an action while hooks and watchers can be registered. -/
def registering {α : Type} (action : Action α) : Action (α × HookRegistry) := do
  Action.modifyRun fun r => { r with hooks := some .empty }
  let a ← action
  let hooks := (← Action.run).hooks.getD .empty
  Action.modifyRun fun r => { r with hooks := none }
  return (a, hooks)

/-- What setup is called with besides the properties. -/
def setupContext (props : Value) : Action Value := do
  let emit ← Action.newNative .emit
  Action.newPlain [("attrs", props), ("emit", emit)]

def callSetup (setup : Value) : Action Value := do
  let props := (← Action.run).props
  let context ← setupContext props
  Action.call setup .undefined [props, context]

/-- Takes over what setup returned; reserved keys stay as they are. -/
def mergeSetup : Fields Value → Op Unit
  | [] => return
  | (key, v) :: rest => do
    if !Component.isReserved key then define key v
    mergeSetup rest

def runSetup : Op Unit := do
  match (← EStateM.get).component.options.setup with
  | none => return
  | some setup =>
    let (returned, hooks) ← lift (registering (callSetup setup))
    modify fun i => { i with hooks := hooks }
    mergeSetup (Component.contributed (← heap) returned)

/-! ### Methods and computed values -/

/-- A function that is always called on the state; none if it is no function. -/
def bind? (v : Value) : Op (Option Value) := do
  match v with
  | .function f => return some (← lift (Action.newFunction (.bound f (← ownState))))
  | _ => return none

/-- Fields that are already there are not replaced. -/
def defineNew (key : String) (value? : Op (Option Value)) : Op Unit := do
  if !(← hasOwn key) then
    match ← value? with
    | some v => define key v
    | none => return

def bindMethods : Fields Value → Op Unit
  | [] => return
  | (name, method) :: rest => do
    defineNew name (bind? method)
    bindMethods rest

def bindOwn? (o : ObjectId) (key : String) : Op (Option Value) := do
  match (← heap).own? o key with
  | some v => bind? v
  | none => return none

/-- A computed cell for a getter, or for an object with a getter and perhaps a setter. -/
def computedCell? (definition : Value) : Op (Option Value) := do
  let (getter, setter) ← match definition with
    | .object o => pure (← bindOwn? o "get", ← bindOwn? o "set")
    | v => pure (← bind? v, none)
  match getter with
  | none => return none
  | some getter =>
    return some (.object (← lift (Action.newObject (.computed getter setter) [])))

def bindComputed : Fields Value → Op Unit
  | [] => return
  | (name, definition) :: rest => do
    defineNew name (computedCell? definition)
    bindComputed rest

/-! ### Hooks -/

def callAllOn (m : Machine) : List Value → Op Unit
  | [] => return
  | f :: rest => do
    discard (callOn m f .undefined [])
    callAllOn m rest

/-- The hook among the options comes before those that setup registered. -/
def callHookOn (m : Machine) (hook : LifecycleHook) : Op Unit := do
  match (← EStateM.get).component.hook hook with
  | some f => discard (callOn m f (← ownState) [])
  | none => pure ()
  callAllOn m ((← EStateM.get).hooks.callbacks hook)

def callHook (hook : LifecycleHook) : Op Unit := callHookOn machine hook

/-! ### Watchers -/

/-- The handler of a watch option and whether it is called at once. -/
def watchParts (h : Heap) : Value → Value × Bool
  | .object o =>
    ((h.own? o "handler").getD .undefined, (h.own? o "immediate").any Value.isTruthy)
  | v => (v, false)

def watchCallbackOn (m : Machine) (handler : Value) : Op Value := do
  match handler with
  | .string method => getOn m method
  | v => return (← bind? v).getD .undefined

/-- Watches a path of keys of the state. -/
def addOptionWatcherOn (m : Machine) (path : String) (definition : Value) : Op Unit := do
  let (handler, immediate) := watchParts (← heap) definition
  let callback ← watchCallbackOn m handler
  if callback.isFunction then
    let getter ← lift (Action.newNative (.path (← ownState) (Text.splitOn "." path)))
    let current ← callOn m getter .undefined []
    let watcher ← lift (Action.newWatcher (.getter getter) callback current)
    modify fun i => { i with hooks := { i.hooks with watchers := i.hooks.watchers.push watcher } }
    if immediate then discard (callOn m callback (← ownState) [current, .undefined])

def addOptionWatchersOn (m : Machine) : Fields Value → Op Unit
  | [] => return
  | (path, definition) :: rest => do
    addOptionWatcherOn m path definition
    addOptionWatchersOn m rest

def addOptionWatchers : Fields Value → Op Unit := addOptionWatchersOn machine

/-- Remembers what a watcher has reported. -/
def report (index : Nat) (w : Watcher) (current : Value) (snapshot : Json) : Op Unit :=
  modify fun i => { i with hooks := { i.hooks with
    watchers := i.hooks.watchers.setIfInBounds index
      { w with last := current, snapshot := snapshot } } }

/-- Calls a watcher back if its source has changed; effects are called every time. -/
def runWatcherOn (m : Machine) (index : Nat) : Op Unit := do
  let i ← EStateM.get
  match i.hooks.watchers[index]? with
  | none => return
  | some w =>
    if i.world.heap.switch w.switch then
      match w.source with
      | .effect f => discard (callOn m f .undefined [])
      | source =>
        let current ← lift (Action.readSource m.call source)
        let snapshot := (← heap).document current
        if w.hasChanged current snapshot then
          report index w current snapshot
          discard (callOn m w.callback (← ownState) [current, w.last])

def runWatchersFromOn (m : Machine) (index : Nat) : Nat → Op Unit
  | 0 => return
  | count + 1 => do
    runWatcherOn m index
    runWatchersFromOn m (index + 1) count

def runWatchersOn (m : Machine) : Op Unit := do
  runWatchersFromOn m 0 (← EStateM.get).hooks.watchers.size

/-- Runs watchers once, in the order of their registration, and then what was deferred. -/
def settleOn (m : Machine) : Op Unit := do
  runWatchersOn m
  lift (Action.flushTicks m.call)

def settle : Op Unit := settleOn machine

/-! ### Mounting -/

/-- Code that runs before there is a state, and the state. -/
def create (c : Component) : Action ObjectId := do
  match c.hook .beforeCreate with
  | some f => discard (Action.call f (← c.reservedObject) [])
  | none => pure ()
  c.newState

/-- The life of an instance up to the moment at which it is mounted. -/
def start : Op Unit := do
  runSetup
  let options := (← EStateM.get).component.options
  bindMethods options.methods
  bindComputed options.computed
  callHook .created
  addOptionWatchers options.watch
  callHook .beforeMount
  callHook .mounted
  settle

/-- A mounted instance, on a run of its own. -/
def mount (c : Component) : EStateM Failure Heap Instance := fun h =>
  let (props, h) := h.ofData c.data
  match create c ⟨h, Run.start c.limits props⟩ with
  | .error e w => .error e w.heap
  | .ok state w =>
    match start ⟨c, w, state, .empty, #[], true⟩ with
    | .error e i => .error e i.world.heap
    | .ok _ i => .ok i i.world.heap

/-! ### Operations -/

/-- A view of the state. Its handlers take the place of those of the view before. -/
def renderOn (m : Machine) : Op (List View.Node) := do
  let i ← EStateM.get
  let output ← lift (i.component.template.runOn m Component.registered i.stateValue)
  modify fun i => { i with handlers := output.handlers }
  return output.nodes

def render : Op (List View.Node) := renderOn machine

def renderHtml : Op String := return View.listHtml (← render)

def stateFieldsOn (m : Machine) : List String → Op (List (String × Json))
  | [] => return []
  | key :: rest => do
    let v ← getOn m key
    match v with
    | .undefined => stateFieldsOn m rest
    | .function _ => stateFieldsOn m rest
    | v =>
      let entry := (key, (← heap).document v)
      return entry :: (← stateFieldsOn m rest)

/-- The state as a document, with computed values. -/
def stateJsonOn (m : Machine) : Op Json := do
  let i ← EStateM.get
  return .object (Json.sortFields (← stateFieldsOn m (i.world.heap.object i.state).fields.keys))

def stateJson : Op Json := stateJsonOn machine

/-- Runs the handler of an event of the latest view. -/
def handleOn (m : Machine) (id : Nat) (event : Json) : Op Unit := do
  let i ← EStateM.get
  match i.handlers[id]? with
  | none => lift (Action.typeError ("no event handler with id " ++ toString id))
  | some bound =>
    let event ← lift (Action.ofDocument event)
    lift (i.component.template.invokeOn m bound event)

/-- Handles an event of the latest view. -/
def triggerOn (m : Machine) (id : Nat) (event : Json) : Op Unit := do
  handleOn m id event
  settleOn m

def trigger (id : Nat) (event : Json) : Op Unit := triggerOn machine id event

/-- Calls a function of the state. -/
def runMethodOn (m : Machine) (name : String) (args : List Json) : Op Value := do
  let method ← getOn m name
  if method.isFunction then
    let args ← args.mapM fun j => lift (Action.ofDocument j)
    callOn m method (← ownState) args
  else lift (Action.typeError (name ++ " is not a method"))

def callMethodOn (m : Machine) (name : String) (args : List Json) : Op Value := do
  let result ← runMethodOn m name args
  settleOn m
  return result

def callMethod (name : String) (args : List Json) : Op Value := callMethodOn machine name args

/-- Ends an instance. Its state loses its functions. -/
def unmountOn (m : Machine) : Op Unit := do
  if (← EStateM.get).mounted then
    callHookOn m .beforeUnmount
    callHookOn m .unmounted
    let i ← EStateM.get
    lift (Action.modifyHeap fun h => h.modifyObject i.state fun object =>
      { object with fields := object.fields.filter fun f => !f.2.isFunction })
    modify fun i => { i with mounted := false, hooks := .empty, handlers := #[] }

def unmount : Op Unit := unmountOn machine

end Instance

end Nodecraft
