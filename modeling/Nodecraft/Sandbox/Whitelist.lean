import Nodecraft.Sandbox.Action

/-!
The names a script may use that it does not declare. A frozen whitelist takes no more of them.
-/

set_option autoImplicit false

namespace Nodecraft.Sandbox

structure Whitelist where
  bindings : Fields Value
  frozen : Bool
  deriving Inhabited

namespace Whitelist

def empty : Whitelist := ⟨[], false⟩

def freeze (w : Whitelist) : Whitelist := { w with frozen := true }

def has (w : Whitelist) (name : String) : Bool := w.bindings.has name

def get? (w : Whitelist) (name : String) : Option Value := w.bindings.get? name

def names (w : Whitelist) : List String := w.bindings.keys

/-- A whitelist that was to be extended after it was frozen. -/
structure Frozen where
  name : String

def Frozen.message (f : Frozen) : String :=
  "Cannot add capability \"" ++ f.name ++ "\" after the whitelist is frozen."

def add (w : Whitelist) (name : String) (value : Value) : Except Frozen Whitelist :=
  if w.frozen then .error ⟨name⟩ else .ok { w with bindings := w.bindings.insert name value }

end Whitelist

/-- The sides of a node, in a frozen object. -/
def Heap.newSides (h : Heap) : Value × Heap :=
  let (o, h) := h.newObject ⟨.plain, [("Left", .string "left"), ("Top", .string "top"),
    ("Right", .string "right"), ("Bottom", .string "bottom")], true⟩
  (.object o, h)

/-- Capabilities that scripts reach by name. -/
def namedCapabilities : List Capability :=
  [.ref, .reactive, .computed, .watch, .watchEffect, .defineComponent, .nextTick, .defineProps,
    .register .beforeMount, .register .mounted, .register .beforeUnmount, .register .unmounted]

/-- Capabilities that only the namespace object holds. -/
def furtherCapabilities : List Capability := [.unref, .isRef]

def Heap.newCapability (h : Heap) (c : Capability) : (String × Value) × Heap :=
  let (f, h) := h.newFunction (.native (.capability c))
  ((c.name, .function f), h)

def Heap.newCapabilities (h : Heap) : List Capability → Fields Value × Heap
  | [] => ([], h)
  | c :: rest =>
    let (entry, h) := h.newCapability c
    let (entries, h) := h.newCapabilities rest
    (entry :: entries, h)

/-- The whitelist node logic is written against. -/
def Whitelist.standard (h : Heap) : Whitelist × Heap :=
  let (named, h) := h.newCapabilities namedCapabilities
  let (further, h) := h.newCapabilities furtherCapabilities
  let (ns, h) := h.newObject ⟨.plain, named ++ further, true⟩
  let (sides, h) := h.newSides
  (⟨named ++ [("Vue", .object ns), ("Position", sides)], true⟩, h)

end Nodecraft.Sandbox
