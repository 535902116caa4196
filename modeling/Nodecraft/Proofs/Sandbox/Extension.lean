import Nodecraft.Proofs.Pairing.Cells
import Nodecraft.Sandbox.Conversion
import Nodecraft.Sandbox.Scope

/-!
# Heaps with more on them

Most of what scripts do to a heap leaves its functions and objects as they are: they change arrays,
declare names, add cells of any other kind than functions, and stop watchers. The heap that results
extends the heap before (`Heap.Extends`). A document that is put on a heap extends it
(`Heap.Extends.ofDocument`). Of the scopes only the values of names change and the names that are
declared become more (`Heap.KeepsScopes`).
-/

set_option autoImplicit false

namespace Nodecraft.Sandbox

/-- A scope after names have been declared in it. -/
structure Scope.Declares (scope scope₁ : Scope) : Prop where
  parent : scope₁.parent = scope.parent
  fallback : scope₁.fallback = scope.fallback
  self : scope₁.self = scope.self
  isFunction : scope₁.isFunction = scope.isFunction
  declared {name : String} {b : Binding} : scope.bindings.get? name = some b →
    ∃ b₁, scope₁.bindings.get? name = some b₁

namespace Scope.Declares

variable {scope scope₁ scope₂ : Scope}

theorem refl (scope : Scope) : scope.Declares scope := ⟨rfl, rfl, rfl, rfl, fun hb ↦ ⟨_, hb⟩⟩

theorem trans (hd : scope.Declares scope₁) (hd' : scope₁.Declares scope₂) :
    scope.Declares scope₂ where
  parent := hd'.parent.trans hd.parent
  fallback := hd'.fallback.trans hd.fallback
  self := hd'.self.trans hd.self
  isFunction := hd'.isFunction.trans hd.isFunction
  declared hb := by
    obtain ⟨b₁, hb₁⟩ := hd.declared hb
    exact hd'.declared hb₁

/-- A declaration adds a name to a scope or gives it another value. -/
theorem insert (scope : Scope) (name : String) (b : Binding) :
    scope.Declares { scope with bindings := scope.bindings.insert name b } where
  parent := rfl
  fallback := rfl
  self := rfl
  isFunction := rfl
  declared {other b'} hb := by
    by_cases hname : other = name
    · exact ⟨b, by rw [hname, Fields.get?_insert_self]⟩
    · exact ⟨b', by rwa [Fields.get?_insert_of_ne _ _ hname]⟩

end Scope.Declares

/-- Scopes stay where they are, and what is declared in them stays declared. -/
structure Heap.KeepsScopes (h h₁ : Heap) : Prop where
  scopes_le : h.scopes.size ≤ h₁.scopes.size
  scope {s : ScopeId} : s.index < h.scopes.size → (h.scope s).Declares (h₁.scope s)

namespace Heap.KeepsScopes

variable {h h₁ h₂ : Heap}

theorem of_eq (hscopes : h₁.scopes = h.scopes) : h.KeepsScopes h₁ where
  scopes_le := Nat.le_of_eq (congrArg Array.size hscopes.symm)
  scope {s} _ := by
    rw [Heap.scope, Heap.scope, hscopes]
    exact .refl _

theorem refl (h : Heap) : h.KeepsScopes h := of_eq rfl

theorem trans (hk : h.KeepsScopes h₁) (hk' : h₁.KeepsScopes h₂) : h.KeepsScopes h₂ where
  scopes_le := Nat.le_trans hk.scopes_le hk'.scopes_le
  scope hs := (hk.scope hs).trans (hk'.scope (Nat.lt_of_lt_of_le hs hk.scopes_le))

/-- A new scope is behind all others. -/
theorem newScope (h : Heap) (scope : Scope) : h.KeepsScopes (h.newScope scope).2 where
  scopes_le := by simp [Heap.newScope]
  scope {s} hs := by
    have hold : (h.newScope scope).2.scope s = h.scope s :=
      (Cells.getD_push _ _ _ _).trans (if_neg (Nat.ne_of_lt hs))
    rw [hold]
    exact .refl _

/-- A declaration keeps the scopes and what they lie in. -/
theorem declare (h : Heap) (s : ScopeId) (name : String) (value : Value) (mutable : Bool) :
    h.KeepsScopes (h.declare s name value mutable) where
  scopes_le := by simp [Heap.declare, Heap.modifyScope]
  scope {s₁} _ := by
    have hmodify : (h.declare s name value mutable).scope s₁ =
        if s.index = s₁.index ∧ s₁.index < h.scopes.size then
          { h.scope s₁ with bindings := (h.scope s₁).bindings.insert name ⟨value, mutable⟩ }
        else h.scope s₁ := Cells.getD_modify _ _ _ _ _
    rw [hmodify]
    split
    · exact .insert _ _ _
    · exact .refl _

end Heap.KeepsScopes

/-- A heap after changes that keep its functions and objects and start no watcher again. -/
structure Heap.Extends (h h₁ : Heap) : Prop extends h.KeepsScopes h₁ where
  functions : h₁.functions = h.functions
  objects_le : h.objects.size ≤ h₁.objects.size
  object {o : ObjectId} : o.index < h.objects.size → h₁.object o = h.object o
  /-- New cells can be written. -/
  opened {o : ObjectId} : h.objects.size ≤ o.index → (h₁.object o).kind.isCell = true →
    (h₁.object o).frozen = false
  switches_le : h.switches.size ≤ h₁.switches.size
  off {s : SwitchId} : s.index < h.switches.size → h.switch s = false → h₁.switch s = false

namespace Heap

/-- There is nothing beyond the end of the heap. -/
theorem object_of_le {h : Heap} {o : ObjectId} (ho : h.objects.size ≤ o.index) :
    h.object o = ⟨.plain, [], false⟩ := by
  unfold object
  rw [Array.getD_eq_getD_getElem?, Array.getElem?_eq_none ho]
  rfl

/-- What is a cell is in the store. -/
theorem lt_of_isCell {h : Heap} {o : ObjectId} (ho : (h.object o).kind.isCell = true) :
    o.index < h.objects.size := by
  refine Nat.lt_of_not_le fun hle ↦ ?_
  rw [object_of_le hle] at ho
  cases ho

namespace Extends

variable {h h₁ h₂ : Heap}

/-- Functions, objects and switches stay the same. -/
theorem of_eq (hscopes : h.KeepsScopes h₁) (hfunctions : h₁.functions = h.functions)
    (hobjects : h₁.objects = h.objects) (hswitches : h₁.switches = h.switches) : h.Extends h₁ where
  toKeepsScopes := hscopes
  functions := hfunctions
  objects_le := Nat.le_of_eq (congrArg Array.size hobjects.symm)
  object {o} _ := by rw [Heap.object, hobjects, Heap.object]
  opened {o} ho _ := by rw [object_of_le (hobjects ▸ ho)]
  switches_le := Nat.le_of_eq (congrArg Array.size hswitches.symm)
  off {s} _ hoff := by rwa [Heap.switch, hswitches, ← Heap.switch]

theorem refl (h : Heap) : h.Extends h := of_eq (.refl h) rfl rfl rfl

theorem trans (he : h.Extends h₁) (he' : h₁.Extends h₂) : h.Extends h₂ where
  toKeepsScopes := he.toKeepsScopes.trans he'.toKeepsScopes
  functions := he'.functions.trans he.functions
  objects_le := Nat.le_trans he.objects_le he'.objects_le
  object ho := (he'.object (Nat.lt_of_lt_of_le ho he.objects_le)).trans (he.object ho)
  opened {o} ho hcell := by
    rcases Nat.lt_or_ge o.index h₁.objects.size with hlt | hge
    · rw [he'.object hlt] at hcell ⊢
      exact he.opened ho hcell
    · exact he'.opened hge hcell
  switches_le := Nat.le_trans he.switches_le he'.switches_le
  off hs hoff := he'.off (Nat.lt_of_lt_of_le hs he.switches_le) (he.off hs hoff)

theorem newArray (h : Heap) (items : Array Value) : h.Extends (h.newArray items).2 :=
  of_eq (.of_eq rfl) rfl rfl rfl

/-- Items of arrays may be changed. -/
theorem modifyArray (h : Heap) (a : ArrayId) (f : Array Value → Array Value) :
    h.Extends (h.modifyArray a f) :=
  of_eq (.of_eq rfl) rfl rfl rfl

theorem newScope (h : Heap) (scope : Scope) : h.Extends (h.newScope scope).2 :=
  of_eq (.newScope h scope) rfl rfl rfl

theorem declare (h : Heap) (s : ScopeId) (name : String) (value : Value) (mutable : Bool) :
    h.Extends (h.declare s name value mutable) :=
  of_eq (.declare h s name value mutable) rfl rfl rfl

/-- A new object may be of any kind, but no new cell is frozen. -/
theorem newObject (h : Heap) {object : Object}
    (hopened : object.kind.isCell = true → object.frozen = false) : h.Extends (h.newObject object).2 where
  toKeepsScopes := .of_eq rfl
  functions := rfl
  objects_le := by simp [Heap.newObject]
  object ho := (Cells.getD_push _ _ _ _).trans (if_neg (Nat.ne_of_lt ho))
  opened {o} ho hcell := by
    have hpush : (h.newObject object).2.object o =
      if o.index = h.objects.size then object else h.object o := Cells.getD_push _ _ _ _
    rw [hpush] at hcell ⊢
    split at hcell
    · rw [if_pos ‹_›]
      exact hopened hcell
    · rw [object_of_le ho] at hcell
      cases hcell
  switches_le := Nat.le_refl _
  off _ hoff := hoff

theorem newSwitch (h : Heap) : h.Extends h.newSwitch.2 where
  toKeepsScopes := .of_eq rfl
  functions := rfl
  objects_le := Nat.le_refl _
  object _ := rfl
  opened {o} ho _ := by
    rw [show h.newSwitch.2.object o = h.object o from rfl, object_of_le ho]
  switches_le := by simp [Heap.newSwitch]
  off hs hoff := ((Cells.getD_push _ _ _ _).trans (if_neg (Nat.ne_of_lt hs))).trans hoff

theorem switchOff (h : Heap) (s : SwitchId) : h.Extends (h.switchOff s) where
  toKeepsScopes := .of_eq rfl
  functions := rfl
  objects_le := Nat.le_refl _
  object _ := rfl
  opened {o} ho _ := by
    rw [show (h.switchOff s).object o = h.object o from rfl, object_of_le ho]
  switches_le := by simp [Heap.switchOff]
  off {s₁} _ hoff := by
    have hmodify : (h.switchOff s).switch s₁ =
        if s.index = s₁.index ∧ s₁.index < h.switches.size then false else h.switch s₁ :=
      Cells.getD_modify _ _ _ _ _
    rw [hmodify, hoff, ite_self]

/-! ### Documents -/

mutual

/-- A fresh value with a document's content is made of new cells. -/
theorem ofDocument (h : Heap) : ∀ j : Json, h.Extends (h.ofDocument j).2
  | .null => by rw [Heap.ofDocument]; exact refl h
  | .bool _ => by rw [Heap.ofDocument]; exact refl h
  | .number _ => by rw [Heap.ofDocument]; exact refl h
  | .string _ => by rw [Heap.ofDocument]; exact refl h
  | .array items => by
    rw [Heap.ofDocument]
    exact (ofItems h items).trans (newArray _ _)
  | .object fields => by
    rw [Heap.ofDocument]
    exact (ofFields h fields).trans (newObject _ fun _ ↦ rfl)

/-- A copy of a document adds to the store only. -/
theorem ofItems (h : Heap) : ∀ items : List Json, h.Extends (h.ofItems items).2
  | [] => by rw [Heap.ofItems]; exact refl h
  | j :: rest => by
    rw [Heap.ofItems]
    exact (ofDocument h j).trans (ofItems _ rest)

theorem ofFields (h : Heap) : ∀ fields : List (String × Json), h.Extends (h.ofFields fields).2
  | [] => by rw [Heap.ofFields]; exact refl h
  | (_, j) :: rest => by
    rw [Heap.ofFields]
    exact (ofDocument h j).trans (ofFields _ rest)

end

end Extends

end Heap

end Nodecraft.Sandbox
