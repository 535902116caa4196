import Nodecraft.Catalog.Record
import Nodecraft.Compiler.Basic
import Nodecraft.Sandbox.Fields

/-!
The components of node types, by their tags. A definition that does not compile leaves the
component that was there before.
-/

set_option autoImplicit false

namespace Nodecraft.Catalog

open Sandbox

structure Registry where
  compiler : Compiler
  components : Fields Component
  deriving Inhabited

namespace Registry

def new (compiler : Compiler) : Registry := ⟨compiler, []⟩

abbrev Op (α : Type) := EStateM CompileError Registry α

/-- Compiles a node type and registers it under a tag. -/
def compile (tag : String) (record : Record) (data : NodeData) (store : NodeStore) :
    Op Component := fun r =>
  match Compiler.compile record.definition data store r.compiler with
  | .ok component c => .ok component ⟨c, r.components.insert tag component⟩
  | .error e c => .error e { r with compiler := c }

def get? (r : Registry) (tag : String) : Option Component := r.components.get? tag

def remove (r : Registry) (tag : String) : Registry :=
  { r with components := r.components.erase tag }

def tags (r : Registry) : List String := r.components.keys

def size (r : Registry) : Nat := r.components.length

end Registry

end Nodecraft.Catalog
