import Nodecraft.Sandbox.Conversion

/-!
Component options, as logic returns them. Entries that are not usable where they stand are left
out, and keys without a meaning of their own are kept aside.
-/

set_option autoImplicit false

namespace Nodecraft.Component

open Sandbox

structure Options where
  name : Option String
  /-- A function, or an object that contributes nothing. -/
  data : Option Value
  setup : Option Value
  methods : Fields Value
  /-- Getters, or objects with a getter under `get`. -/
  computed : Fields Value
  /-- Handlers, names of methods, or objects with a handler under `handler`. -/
  watch : Fields Value
  hooks : List (LifecycleHook × Value)
  extra : Fields Value
  deriving Inhabited

namespace Options

def empty : Options := ⟨none, none, none, [], [], [], [], []⟩

def isEmpty (o : Options) : Bool :=
  o.name.isNone && o.data.isNone && o.setup.isNone && o.methods.isEmpty && o.computed.isEmpty &&
    o.watch.isEmpty && o.hooks.isEmpty && o.extra.isEmpty

def hook (o : Options) (hook : LifecycleHook) : Option Value := o.hooks.lookup hook

/-- Whether a value is an object with a function under a key. -/
def hasFunction (h : Heap) (key : String) : Value → Bool
  | .object o => (h.own? o key).any Value.isFunction
  | _ => false

def isComputed (h : Heap) (v : Value) : Bool := v.isFunction || hasFunction h "get" v

def isWatch (h : Heap) : Value → Bool
  | .string _ => true
  | v => v.isFunction || hasFunction h "handler" v

/-- The usable entries of an object. -/
def entries (h : Heap) (accept : Value → Bool) : Value → Fields Value
  | .object o => (h.object o).fields.filter fun f => accept f.2
  | _ => []

def isFactory : Value → Bool
  | .function _ => true
  | .object _ => true
  | _ => false

/-- The options with one more entry. -/
def addEntry (h : Heap) (o : Options) (key : String) (v : Value) : Options :=
  match LifecycleHook.all.find? fun hook => hook.optionKey == key with
  | some hook => if v.isFunction then { o with hooks := o.hooks ++ [(hook, v)] } else o
  | none =>
    if key == "name" then
      match v with
      | .string s => { o with name := some s }
      | _ => o
    else if key == "data" then if isFactory v then { o with data := some v } else o
    else if key == "setup" then if v.isFunction then { o with setup := some v } else o
    else if key == "methods" then { o with methods := entries h Value.isFunction v }
    else if key == "computed" then { o with computed := entries h (isComputed h) v }
    else if key == "watch" then { o with watch := entries h (isWatch h) v }
    else { o with extra := o.extra ++ [(key, v)] }

/-- Anything but a plain object stands for no options. -/
def ofValue (h : Heap) : Value → Options
  | .object o =>
    let object := h.object o
    if object.kind.isPlain then
      object.fields.foldl (fun options (k, v) => addEntry h options k v) empty
    else empty
  | _ => empty

end Options

end Nodecraft.Component
