import Nodecraft.Sandbox.Property

/-!
The functions scripts are handed: cells, watchers, lifecycle hooks and deferred callbacks. Hooks
and watchers are registered only while a component is being set up.
-/

set_option autoImplicit false

namespace Nodecraft.Sandbox

/-- Whether a watched source reads as something else than at the last report. -/
def Watcher.hasChanged (w : Watcher) (current : Value) (snapshot : Json) : Bool :=
  !(current.strictEquals w.last && snapshot == w.snapshot)

namespace Action

/-! ### Cells -/

def newRef (v : Value) : Action Value := return .object (← newObject .ref [("value", v)])

/-- A ref is its own ref. -/
def ref (v : Value) : Action Value := do
  if (← heap).isCell v then return v else newRef v

def computed (v : Value) : Action Value := do
  match v with
  | .function f => return .object (← newObject (.computed (.function f) none) [])
  | .object o =>
    let h ← heap
    match h.own? o "get" with
    | some (.function f) =>
      let setter := (h.own? o "set").filter Value.isFunction
      return .object (← newObject (.computed (.function f) setter) [])
    | _ => typeError "computed() options need a \x60get\x60 function"
  | _ => typeError "computed() expects a getter function or \x7b get, set \x7d"

def unref (call : Caller) (v : Value) : Action Value := do
  if (← heap).isCell v then getProperty call v "value" else return v

/-! ### Watchers -/

def readSource (call : Caller) : WatchSource → Action Value
  | .getter f => call f .undefined []
  | .cell v => getProperty call v "value"
  | .value v => return v
  | .effect _ => return .undefined

def newWatcher (source : WatchSource) (callback last : Value) : Action Watcher := do
  let switch ← allocate Heap.newSwitch
  return ⟨source, callback, last, (← heap).document last, switch⟩

def isRegistering : Action Bool := return (← run).hooks.isSome

def addWatcher (w : Watcher) : Action Unit :=
  modifyRun fun r => { r with hooks := r.hooks.map fun reg =>
    { reg with watchers := reg.watchers.push w } }

def addHook (hook : LifecycleHook) (callback : Value) : Action Unit :=
  modifyRun fun r => { r with hooks := r.hooks.map fun reg =>
    { reg with hooks := reg.hooks.push (hook, callback) } }

def watchSource (v : Value) : Action WatchSource := do
  match v with
  | .function f => return .getter (.function f)
  | v => return if (← heap).isCell v then .cell v else .value v

def isImmediate (h : Heap) (options : Value) : Bool :=
  match options with
  | .object o => (h.own? o "immediate").any Value.isTruthy
  | _ => false

def watch (call : Caller) (source callback options : Value) : Action Value := do
  if !callback.isFunction then typeError "watch() callback must be a function"
  else
    let source ← watchSource source
    if !(← isRegistering) then newNative (.stop none)
    else
      let current ← readSource call source
      let watcher ← newWatcher source callback current
      let stop ← newNative (.stop (some watcher.switch))
      addWatcher watcher
      if isImmediate (← heap) options then discard (call callback .undefined [current, .undefined])
      return stop

def watchEffect (call : Caller) (effect : Value) : Action Value := do
  if !effect.isFunction then typeError "watchEffect() expects a function"
  else if !(← isRegistering) then newNative (.stop none)
  else
    discard (call effect .undefined [])
    let watcher ← newWatcher (.effect effect) effect .undefined
    let stop ← newNative (.stop (some watcher.switch))
    addWatcher watcher
    return stop

/-! ### Hooks and ticks -/

def register (hook : LifecycleHook) (callback : Value) : Action Value := do
  if !callback.isFunction then
    typeError (hook.registrar.getD "lifecycle hook" ++ " expects a function")
  else
    addHook hook callback
    return .undefined

def nextTick (callback : Value) : Action Value := do
  if callback.isFunction then modifyRun fun r => { r with ticks := r.ticks.push callback }
  return .undefined

/-- Rounds after which callbacks that keep queueing themselves are given up. -/
def maxTickRounds : Nat := 100

def callAll (call : Caller) : List Value → Action Unit
  | [] => return
  | f :: rest => do
    discard (call f .undefined [])
    callAll call rest

def takeTicks : Action (List Value) := do
  let queued := (← run).ticks.toList
  modifyRun fun r => { r with ticks := #[] }
  return queued

/-- Calls queued callbacks, round by round, until none is left. -/
def flushRounds (call : Caller) : Nat → Action Unit
  | 0 => do
    if !(← takeTicks).isEmpty then
      typeError "nextTick callbacks kept re-queueing themselves"
  | rounds + 1 => do
    match ← takeTicks with
    | [] => return
    | queued =>
      callAll call queued
      flushRounds call rounds

def flushTicks (call : Caller) : Action Unit := flushRounds call maxTickRounds

/-! ### All functions that no script defines -/

/-- Data of a node, as a fresh value. -/
def nodeData (store : NodeStore) (id : Value) : Action Value := do
  if id.isNullish then typeError "getNodeData() expects a node id"
  else
    match store.lookup (← text id) with
    | some data => allocate fun h => h.ofData data
    | none => return .undefined

/-- Reads a path of keys, stopping at a missing value. -/
def readPath (call : Caller) : Value → List String → Action Value
  | v, [] => return v
  | v, key :: rest => do
    if v.isNullish then return .undefined
    else readPath call (← getProperty call v key) rest

def capability (call : Caller) (c : Capability) (args : List Value) : Action Value :=
  let first := args.headD .undefined
  match c with
  | .ref => ref first
  | .reactive => return first
  | .computed => computed first
  | .watch => watch call first (args.getD 1 .undefined) (args.getD 2 .undefined)
  | .watchEffect => watchEffect call first
  | .defineComponent => return first
  | .nextTick => nextTick first
  | .defineProps => return (← run).props
  | .unref => unref call first
  | .isRef => return .bool ((← heap).isCell first)
  | .register hook => register hook first

end Action

end Nodecraft.Sandbox
