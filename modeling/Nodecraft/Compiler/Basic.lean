import Nodecraft.CompileError
import Nodecraft.Compiler.Cache
import Nodecraft.Compiler.Settings
import Nodecraft.Component.Basic

/-!
Compiling definitions to components: markup comes first, so that no logic runs for markup that is
not accepted.
-/

set_option autoImplicit false

namespace Nodecraft

open Sandbox

namespace Component

/-- A component from a template and logic. -/
def ofLogic (whitelist : Whitelist) (limits : Limits) (template : Template) (logic : String)
    (data : NodeData) (store : NodeStore) : EStateM CompileError Heap Component := do
  match Logic.Body.ofText logic with
  | .error why => throw (.unsupportedLogic why)
  | .ok body => fun h =>
    match evaluate whitelist limits body data store h with
    | .ok options h => .ok ⟨template, options, data, store, limits⟩ h
    | .error failure h => .error (.logicEvaluation failure) h

/-- A component from markup and logic. -/
def ofParts (whitelist : Whitelist) (limits : Limits) (markup logic : String) (data : NodeData)
    (store : NodeStore) : EStateM CompileError Heap Component := do
  match Template.ofMarkup markup with
  | .error fault => throw (.template fault)
  | .ok template => ofLogic whitelist limits template logic data store

end Component

structure Compiler where
  settings : Compiler.Settings
  whitelist : Whitelist
  cache : Compiler.Cache
  /-- Where the values of all its components live. -/
  heap : Heap
  deriving Inhabited

namespace Compiler

/-- A compiler whose whitelist takes no more names. -/
def new (settings : Settings) (whitelist : Whitelist) (heap : Heap) : Compiler :=
  ⟨settings, whitelist.freeze, .empty settings.cacheCapacity, heap⟩

/-- Failing operations keep their effects. -/
abbrev Op (α : Type) := EStateM CompileError Compiler α

/-- The template of some markup. -/
def template (markup : String) : Op Template := fun c =>
  let (result, cache) := if c.settings.keepsTemplates then c.cache.compile markup
    else (Template.ofMarkup markup, c.cache)
  match result with
  | .ok t => .ok t { c with cache := cache }
  | .error fault => .error (.template fault) { c with cache := cache }

def onHeap {α : Type} (action : EStateM CompileError Heap α) : Op α := fun c =>
  match action c.heap with
  | .ok a h => .ok a { c with heap := h }
  | .error e h => .error e { c with heap := h }

def compile (definition : String) (data : NodeData) (store : NodeStore) : Op Component := do
  match Definition.Blocks.ofText definition with
  | .error why => throw (.missingMarkup why)
  | .ok blocks =>
    let t ← template blocks.markup
    let c ← get
    onHeap (Component.ofLogic c.whitelist c.settings.limits t blocks.logic data store)

def clear (c : Compiler) : Compiler := { c with cache := c.cache.clear }

end Compiler

end Nodecraft
