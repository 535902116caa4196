import Nodecraft.Sandbox.Action

/-!
Scopes: where names are declared and how they are found.
-/

set_option autoImplicit false

namespace Nodecraft.Sandbox

/-- What a name stands for. -/
inductive Resolution
  | binding (scope : ScopeId) (binding : Binding)
  /-- A key of the value a scope falls back to. -/
  | field (target : Value)

def Heap.hasOwn (h : Heap) (target : Value) (key : String) : Bool :=
  match target with
  | .object o => (h.object o).fields.has key
  | _ => false

/-- The innermost meaning of a name, at most `fuel` scopes out. -/
def Heap.resolveWithin (h : Heap) (name : String) : Nat → ScopeId → Option Resolution
  | 0, _ => none
  | fuel + 1, s =>
    let scope := h.scope s
    match scope.bindings.get? name with
    | some b => some (.binding s b)
    | none =>
      match scope.fallback with
      | some target =>
        if h.hasOwn target name then some (.field target)
        else scope.parent.bind (h.resolveWithin name fuel)
      | none => scope.parent.bind (h.resolveWithin name fuel)

/-- A scope's parent is older than the scope, so the chain is shorter than the heap. -/
def Heap.resolve (h : Heap) (name : String) (s : ScopeId) : Option Resolution :=
  h.resolveWithin name (s.index + 1) s

def Heap.selfWithin (h : Heap) : Nat → ScopeId → Value
  | 0, _ => .undefined
  | fuel + 1, s =>
    let scope := h.scope s
    match scope.self with
    | some v => v
    | none =>
      match scope.parent with
      | some parent => h.selfWithin fuel parent
      | none => .undefined

/-- The value of `this`. -/
def Heap.self (h : Heap) (s : ScopeId) : Value := h.selfWithin (s.index + 1) s

def Heap.functionScopeWithin (h : Heap) : Nat → ScopeId → ScopeId
  | 0, s => s
  | fuel + 1, s =>
    let scope := h.scope s
    if scope.isFunction then s
    else match scope.parent with
      | some parent => h.functionScopeWithin fuel parent
      | none => s

/-- The scope `var` declarations belong to. -/
def Heap.functionScope (h : Heap) (s : ScopeId) : ScopeId := h.functionScopeWithin (s.index + 1) s

def Heap.declare (h : Heap) (s : ScopeId) (name : String) (value : Value) (mutable : Bool) :
    Heap :=
  h.modifyScope s fun scope =>
    { scope with bindings := scope.bindings.insert name ⟨value, mutable⟩ }

namespace Action

def declare (s : ScopeId) (name : String) (value : Value) (mutable : Bool) : Action Unit :=
  modifyHeap fun h => h.declare s name value mutable

/-- Declares a name as its kind of declaration does. -/
def declareAs (kind : Script.DeclKind) (s : ScopeId) (name : String) (value : Value) :
    Action Unit :=
  match kind with
  | .var => modifyHeap fun h => h.declare (h.functionScope s) name value true
  | .letKind => declare s name value true
  | .constKind => declare s name value false

end Action

end Nodecraft.Sandbox
