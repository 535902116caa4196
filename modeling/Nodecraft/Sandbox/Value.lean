import Nodecraft.Json.Basic
import Nodecraft.Sandbox.Fields
import Nodecraft.Script.Syntax

/-!
Values of scripts. Arrays, objects, functions and scopes live in a heap of cells that only grows;
a value names its cell, so that two values are the same thing when they name the same cell.
-/

set_option autoImplicit false

namespace Nodecraft.Sandbox

structure ArrayId where
  index : Nat
  deriving DecidableEq, Repr, Inhabited

structure ObjectId where
  index : Nat
  deriving DecidableEq, Repr, Inhabited

structure FunctionId where
  index : Nat
  deriving DecidableEq, Repr, Inhabited

structure ScopeId where
  index : Nat
  deriving DecidableEq, Repr, Inhabited

/-- A cell that tells whether a watcher is still running. -/
structure SwitchId where
  index : Nat
  deriving DecidableEq, Repr, Inhabited

inductive Value
  | undefined
  | null
  | bool (b : Bool)
  | number (x : Float)
  | string (s : String)
  | array (id : ArrayId)
  | object (id : ObjectId)
  | function (id : FunctionId)
  deriving Inhabited

inductive ObjectKind
  | plain
  /-- A cell with its payload under `value`. -/
  | ref
  /-- A cell whose `value` is computed at each reading. -/
  | computed (getter : Value) (setter : Option Value)
  /-- Component state. Cells stored in it are read and written through. -/
  | state
  deriving Inhabited

structure Object where
  kind : ObjectKind
  fields : Fields Value
  frozen : Bool
  deriving Inhabited

/-- Moments of a component's life at which it runs callbacks. -/
inductive LifecycleHook
  | beforeCreate
  | created
  | beforeMount
  | mounted
  | beforeUnmount
  | unmounted
  deriving DecidableEq, Repr, Inhabited

/-- Data of a node, as the document holds it. -/
abbrev NodeData := List (String × Json)

/-- The nodes whose data a script may look up. -/
abbrev NodeStore := List (String × NodeData)

inductive TextMethod
  | toUpperCase
  | toLowerCase
  | trim
  | trimStart
  | trimEnd
  | toString
  | valueOf
  | includes
  | startsWith
  | endsWith
  | indexOf
  | charAt
  | slice
  | split
  | replace
  | replaceAll
  | padStart
  | padEnd
  | repeat
  deriving DecidableEq, Repr

inductive NumberMethod
  | toFixed
  | toString
  | valueOf
  deriving DecidableEq, Repr

inductive ArrayMethod
  | push
  | pop
  | shift
  | unshift
  | splice
  | slice
  | concat
  | reverse
  | join
  | includes
  | indexOf
  | forEach
  | map
  | filter
  | find
  | findIndex
  | some
  | every
  | reduce
  | sort
  deriving DecidableEq, Repr

inductive FunctionMethod
  | call
  | apply
  | bind
  deriving DecidableEq, Repr

/-- Functions that a script is handed. -/
inductive Capability
  | ref
  | reactive
  | computed
  | watch
  | watchEffect
  | defineComponent
  | nextTick
  | defineProps
  | unref
  | isRef
  | register (hook : LifecycleHook)
  deriving DecidableEq, Repr

/-- Functions that no script defines. -/
inductive Native
  | text (method : TextMethod)
  | number (method : NumberMethod)
  | array (method : ArrayMethod)
  | hasOwnProperty
  | function (method : FunctionMethod)
  | capability (capability : Capability)
  /-- Ends a watcher, if there is one to end. -/
  | stop (switch : Option SwitchId)
  | nodeData (store : NodeStore)
  | emit
  /-- Reads a path of keys from a value, stopping at a missing one. -/
  | path (root : Value) (segments : List String)

inductive Function
  | closure (code : Script.FunctionDef) (scope : ScopeId)
  | native (native : Native)
  /-- A function that is called on `self` whatever it is called on. -/
  | bound (target : FunctionId) (self : Value)

instance : Inhabited Function := ⟨.native .emit⟩

structure Binding where
  value : Value
  mutable : Bool
  deriving Inhabited

structure Scope where
  bindings : Fields Binding
  parent : Option ScopeId
  /-- Names without a binding are looked up among this value's own keys. -/
  fallback : Option Value
  self : Option Value
  /-- Whether `var` declarations end up here. -/
  isFunction : Bool
  deriving Inhabited

structure Heap where
  arrays : Array (Array Value)
  objects : Array Object
  functions : Array Function
  scopes : Array Scope
  switches : Array Bool
  deriving Inhabited

namespace Value

def isNullish : Value → Bool
  | .undefined => true
  | .null => true
  | _ => false

def isFunction : Value → Bool
  | .function _ => true
  | _ => false

def isTruthy : Value → Bool
  | .undefined => false
  | .null => false
  | .bool b => b
  | .number x => !(x == 0.0) && !x.isNaN
  | .string s => !s.isEmpty
  | .array _ => true
  | .object _ => true
  | .function _ => true

def typeName : Value → String
  | .undefined => "undefined"
  | .null => "object"
  | .bool _ => "boolean"
  | .number _ => "number"
  | .string _ => "string"
  | .array _ => "object"
  | .object _ => "object"
  | .function _ => "function"

/-- Numbers by value, everything with a cell by the cell. -/
def strictEquals : Value → Value → Bool
  | .undefined, .undefined => true
  | .null, .null => true
  | .bool a, .bool b => a == b
  | .number a, .number b => a == b
  | .string a, .string b => a == b
  | .array a, .array b => a == b
  | .object a, .object b => a == b
  | .function a, .function b => a == b
  | _, _ => false

end Value

namespace ObjectKind

/-- Refs and computed cells. -/
def isCell : ObjectKind → Bool
  | .ref => true
  | .computed _ _ => true
  | _ => false

def isPlain : ObjectKind → Bool
  | .plain => true
  | _ => false

def isComputed : ObjectKind → Bool
  | .computed _ _ => true
  | _ => false

end ObjectKind

namespace Heap

def empty : Heap := ⟨#[], #[], #[], #[], #[]⟩

def array (h : Heap) (a : ArrayId) : Array Value := h.arrays.getD a.index #[]

def object (h : Heap) (o : ObjectId) : Object := h.objects.getD o.index ⟨.plain, [], false⟩

def function (h : Heap) (f : FunctionId) : Function :=
  h.functions.getD f.index (.native .emit)

def scope (h : Heap) (s : ScopeId) : Scope := h.scopes.getD s.index ⟨[], none, none, none, true⟩

def switch (h : Heap) (s : SwitchId) : Bool := h.switches.getD s.index false

def newArray (h : Heap) (items : Array Value) : ArrayId × Heap :=
  (⟨h.arrays.size⟩, { h with arrays := h.arrays.push items })

def newObject (h : Heap) (object : Object) : ObjectId × Heap :=
  (⟨h.objects.size⟩, { h with objects := h.objects.push object })

def newFunction (h : Heap) (function : Function) : FunctionId × Heap :=
  (⟨h.functions.size⟩, { h with functions := h.functions.push function })

def newScope (h : Heap) (scope : Scope) : ScopeId × Heap :=
  (⟨h.scopes.size⟩, { h with scopes := h.scopes.push scope })

def newSwitch (h : Heap) : SwitchId × Heap :=
  (⟨h.switches.size⟩, { h with switches := h.switches.push true })

def modifyArray (h : Heap) (a : ArrayId) (f : Array Value → Array Value) : Heap :=
  { h with arrays := h.arrays.modify a.index f }

def modifyObject (h : Heap) (o : ObjectId) (f : Object → Object) : Heap :=
  { h with objects := h.objects.modify o.index f }

def modifyScope (h : Heap) (s : ScopeId) (f : Scope → Scope) : Heap :=
  { h with scopes := h.scopes.modify s.index f }

def switchOff (h : Heap) (s : SwitchId) : Heap :=
  { h with switches := h.switches.modify s.index fun _ => false }

/-- The value under an object's own key. -/
def own? (h : Heap) (o : ObjectId) (key : String) : Option Value := (h.object o).fields.get? key

/-- Writes a field whatever kind the object is of, frozen or not. -/
def insertField (h : Heap) (o : ObjectId) (key : String) (value : Value) : Heap :=
  h.modifyObject o fun object => { object with fields := object.fields.insert key value }

def eraseField (h : Heap) (o : ObjectId) (key : String) : Heap :=
  h.modifyObject o fun object => { object with fields := object.fields.erase key }

def freeze (h : Heap) (o : ObjectId) : Heap :=
  h.modifyObject o fun object => { object with frozen := true }

def isCell (h : Heap) : Value → Bool
  | .object o => (h.object o).kind.isCell
  | _ => false

end Heap

end Nodecraft.Sandbox
