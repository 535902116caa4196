import Nodecraft.Script.Syntax

/-!
Templates: what of a view is fixed and what is computed from a component's state.
-/

set_option autoImplicit false

namespace Nodecraft

namespace Template

open Script

inductive TextPart
  | fixed (s : String)
  | shown (e : Expr)

inductive Attribute
  | fixed (name value : String)
  | bound (name : String) (e : Expr)
  /-- All entries of an object. -/
  | spread (e : Expr)

mutual

inductive Tree
  | text (s : String)
  | interpolated (parts : List TextPart)
  /-- Events go by name, each with the number of its handler. -/
  | element (tag : String) (attributes : List Attribute) (events : List (String × Nat))
      (visible : Option Expr) (children : List Tree)
  | fragment (children : List Tree)
  /-- The first branch whose test holds. -/
  | conditional (branches : List Branch)
  /-- The body once for each item of a source; names for the item, its key or index, its index. -/
  | loop (aliases : List Pattern) (source : Expr) (body : Tree)

/-- A branch without a test is always taken. -/
inductive Branch
  | branch (test : Option Expr) (tree : Tree)

end

instance : Inhabited Tree := ⟨.fragment []⟩

inductive Handler
  /-- The value is called with the event. -/
  | callable (e : Expr)
  /-- The statements run with the event in scope. -/
  | inline (body : Block)

instance : Inhabited Handler := ⟨.inline []⟩

end Template

structure Template where
  roots : List Template.Tree
  handlers : Array Template.Handler
  deriving Inhabited

end Nodecraft
