import Nodecraft.Proofs.Pairing.Basic
import Nodecraft.Proofs.Pairing.Cells
import Nodecraft.Sandbox.Scope

/-!
# Heaps that are alike

Heaps are alike along a pairing when paired cells have contents that are alike (`Heap.Alike`). What
scripts do to heaps keeps them alike: paired cells are changed together, and cells that are made
together are paired from then on.

`Grows` says what becomes of the first heap meanwhile. Cells without a counterpart are left as they
are, new pairs are pairs of new cells, and objects keep their kind and stay frozen if they are, with
the fields they had.

Chains of scopes and of bound functions are followed only as far as their first index allows.
Heaps that are alike agree on this in one of two ways (`Pairing.Measured`): paired cells have the
same index, or every step of a chain leads to an older cell.
-/

set_option autoImplicit false

namespace Nodecraft.Sandbox

open Script

/-! ### The length of chains -/

/-- Paired cells are the same cells, of arrays that have grown equally. -/
def Cells.Straight {α : Type} (R : Nat → Nat → Prop) (xs xs' : Array α) : Prop :=
  xs.size = xs'.size ∧ ∀ a a', R a a' → a = a'

theorem Cells.Straight.push {α : Type} {R : Nat → Nat → Prop} {xs xs' : Array α}
    (h : Cells.Straight R xs xs') (x x' : α) :
    Cells.Straight (extend R xs.size xs'.size) (xs.push x) (xs'.push x') := by
  refine ⟨by simp [h.1], ?_⟩
  rintro a a' (ha | ⟨rfl, rfl⟩)
  · exact h.2 a a' ha
  · exact h.1

theorem Cells.Straight.modify {α : Type} {R : Nat → Nat → Prop} {xs xs' : Array α}
    (h : Cells.Straight R xs xs') (i i' : Nat) (f f' : α → α) :
    Cells.Straight R (xs.modify i f) (xs'.modify i' f') :=
  ⟨by simpa using h.1, h.2⟩

structure Pairing.Straight (p : Pairing) (h h' : Heap) : Prop where
  arrays : Cells.Straight p.array h.arrays h'.arrays
  objects : Cells.Straight p.object h.objects h'.objects
  functions : Cells.Straight p.function h.functions h'.functions
  scopes : Cells.Straight p.scope h.scopes h'.scopes
  switches : Cells.Straight p.switch h.switches h'.switches

/-- Among the given cells, parents of scopes and targets of bound functions are older. -/
structure Heap.Layered (h : Heap) (scopes functions : Nat → Prop) : Prop where
  scope {s : Nat} : scopes s → s < h.scopes.size
  parent {s : Nat} {t : ScopeId} : scopes s → (h.scope ⟨s⟩).parent = some t → t.index < s
  function {f : Nat} : functions f → f < h.functions.size
  target {f : Nat} {t : FunctionId} {self : Value} : functions f →
    h.function ⟨f⟩ = .bound t self → t.index < f

structure Pairing.Layered (p : Pairing) (h h' : Heap) : Prop where
  left : h.Layered (fun s ↦ ∃ s', p.scope s s') (fun f ↦ ∃ f', p.function f f')
  right : h'.Layered (fun s' ↦ ∃ s, p.scope s s') (fun f' ↦ ∃ f, p.function f f')

/-- Chains end alike on both sides. -/
def Pairing.Measured (p : Pairing) (h h' : Heap) : Prop :=
  if p.aligned then p.Straight h h' else p.Layered h h'

theorem Pairing.Measured.straight {p : Pairing} {h h' : Heap} (hm : p.Measured h h')
    (hp : p.aligned = true) : p.Straight h h' := by
  rwa [Measured, if_pos hp] at hm

theorem Pairing.Measured.cases {p : Pairing} {h h' : Heap} (hm : p.Measured h h') :
    p.Straight h h' ∨ p.Layered h h' := by
  unfold Measured at hm
  split at hm
  · exact .inl hm
  · exact .inr hm

/-- A measure of the chains is carried over with its two forms, each on its own. -/
theorem Pairing.Measured.imp {p q : Pairing} {h h' h₁ h₁' : Heap} (hm : p.Measured h h')
    (hpq : q.aligned = p.aligned) (hs : p.Straight h h' → q.Straight h₁ h₁')
    (hl : p.Layered h h' → q.Layered h₁ h₁') : q.Measured h₁ h₁' := by
  unfold Measured at hm ⊢
  rw [hpq]
  split
  · exact hs (by rwa [if_pos ‹_›] at hm)
  · exact hl (by rwa [if_neg ‹_›] at hm)

theorem Heap.Layered.congr {h h₁ : Heap} {S F : Nat → Prop} (hl : h.Layered S F)
    (hscopes : h₁.scopes = h.scopes) (hfunctions : h₁.functions = h.functions) :
    h₁.Layered S F := by
  obtain ⟨arrays, objects, functions, scopes, switches⟩ := h₁
  dsimp only at hscopes hfunctions
  subst hscopes hfunctions
  exact ⟨hl.scope, hl.parent, hl.function, hl.target⟩

theorem Heap.Layered.anti {h : Heap} {S S' F F' : Nat → Prop} (hl : h.Layered S F)
    (hS : ∀ s, S' s → S s) (hF : ∀ f, F' f → F f) : h.Layered S' F' :=
  ⟨fun hs ↦ hl.scope (hS _ hs), fun hs ↦ hl.parent (hS _ hs), fun hf ↦ hl.function (hF _ hf),
    fun hf ↦ hl.target (hF _ hf)⟩

theorem Heap.Layered.newFunction {h : Heap} {S F : Nat → Prop} (hl : h.Layered S F)
    (fn : Function) (hfn : ∀ t self, fn = .bound t self → F t.index) :
    (h.newFunction fn).2.Layered S fun f ↦ F f ∨ f = h.functions.size where
  scope := hl.scope
  parent := hl.parent
  function {f} hf := by
    have : f < h.functions.size ∨ f = h.functions.size := hf.imp_left hl.function
    simp only [Heap.newFunction, Array.size_push]
    omega
  target {f t self} hf ht := by
    simp only [Heap.function, Heap.newFunction, Cells.getD_push] at ht
    split at ht
    · have := hl.function (hfn t self ht)
      omega
    · exact hl.target (hf.resolve_right ‹_›) ht

theorem Heap.Layered.newScope {h : Heap} {S F : Nat → Prop} (hl : h.Layered S F)
    (scope : Scope) (hscope : ∀ t, scope.parent = some t → S t.index) :
    (h.newScope scope).2.Layered (fun s ↦ S s ∨ s = h.scopes.size) F where
  scope {s} hs := by
    have : s < h.scopes.size ∨ s = h.scopes.size := hs.imp_left hl.scope
    simp only [Heap.newScope, Array.size_push]
    omega
  parent {s t} hs ht := by
    simp only [Heap.scope, Heap.newScope, Cells.getD_push] at ht
    split at ht
    · have := hl.scope (hscope t ht)
      omega
    · exact hl.parent (hs.resolve_right ‹_›) ht
  function := hl.function
  target := hl.target

theorem Heap.Layered.modifyScope {h : Heap} {S F : Nat → Prop} (hl : h.Layered S F) (s : ScopeId)
    {f : Scope → Scope} (hf : ∀ scope, (f scope).parent = scope.parent) :
    (h.modifyScope s f).Layered S F where
  scope hs := by simpa [Heap.modifyScope] using hl.scope hs
  parent hs ht := by
    simp only [Heap.scope, Heap.modifyScope, Cells.getD_modify] at ht
    split at ht
    · exact hl.parent hs ((hf _).symm.trans ht)
    · exact hl.parent hs ht
  function := hl.function
  target := hl.target

/-- Chains are not affected by what happens to other cells. -/
theorem Pairing.Measured.congr {p q : Pairing} {h h' h₁ h₁' : Heap} (hm : p.Measured h h')
    (hscopes : h₁.scopes = h.scopes) (hfunctions : h₁.functions = h.functions)
    (hscopes' : h₁'.scopes = h'.scopes) (hfunctions' : h₁'.functions = h'.functions)
    (hpq : q.aligned = p.aligned) (hs : q.scope = p.scope) (hf : q.function = p.function)
    (hstraight : p.Straight h h' → q.Straight h₁ h₁') : q.Measured h₁ h₁' := by
  refine hm.imp hpq hstraight fun hl ↦ ⟨?_, ?_⟩
  · rw [hs, hf]
    exact hl.left.congr hscopes hfunctions
  · rw [hs, hf]
    exact hl.right.congr hscopes' hfunctions'

/-! ### Heaps that are alike -/

structure Heap.Alike (p : Pairing) (h h' : Heap) : Prop where
  arrays : Cells.Alike #[] p.array (fun _ ↦ ArrayAlike Value.Alike p) h.arrays h'.arrays
  objects : Cells.Alike ⟨.plain, [], false⟩ p.object (fun _ ↦ Object.Alike p) h.objects h'.objects
  functions : Cells.Alike (.native .emit) p.function (fun _ ↦ Function.Alike p) h.functions
    h'.functions
  scopes : Cells.Alike ⟨[], none, none, none, true⟩ p.scope (fun s ↦ Scope.Alike p (p.allows s))
    h.scopes h'.scopes
  switches : Cells.Alike false p.switch (fun _ ↦ Eq) h.switches h'.switches
  /-- A scope that is yet to be made has a counterpart only where everything is allowed. -/
  total {s s' : Nat} : p.scope s s' → h.scopes.size ≤ s → ∀ t m, p.allows t m
  measured : p.Measured h h'

/-- What a script may do to an object. -/
structure Object.Later (o o₁ : Object) : Prop where
  kind : o₁.kind = o.kind
  frozen : o₁.frozen = o.frozen
  fields : o.frozen = true → o₁.fields = o.fields

/-- What becomes of a heap and of a pairing of its cells. -/
structure Grows (p : Pairing) (h : Heap) (q : Pairing) (h₁ : Heap) : Prop where
  aligned : q.aligned = p.aligned
  arrays : Cells.Kept #[] p.array q.array h.arrays h₁.arrays
  objects : Cells.Kept ⟨.plain, [], false⟩ p.object q.object h.objects h₁.objects
  functions : Cells.Kept (.native .emit) p.function q.function h.functions h₁.functions
  scopes : Cells.Kept ⟨[], none, none, none, true⟩ p.scope q.scope h.scopes h₁.scopes
  switches : Cells.Kept false p.switch q.switch h.switches h₁.switches
  object {o : ObjectId} : o.index < h.objects.size → (h.object o).Later (h₁.object o)
  function {f : FunctionId} : f.index < h.functions.size → h₁.function f = h.function f
  allows {s s' : Nat} : p.scope s s' → ∀ m, q.allows s m ↔ p.allows s m
  /-- In a new scope the same is allowed as in some other. -/
  origin {s s' : Nat} : q.scope s s' → ∃ t t', p.scope t t' ∧ ∀ m, q.allows s m ↔ p.allows t m

theorem Object.Later.refl (o : Object) : o.Later o := ⟨rfl, rfl, fun _ ↦ rfl⟩

theorem Object.Later.trans {o o₁ o₂ : Object} (h : o.Later o₁) (h' : o₁.Later o₂) :
    o.Later o₂ where
  kind := h'.kind.trans h.kind
  frozen := h'.frozen.trans h.frozen
  fields hf := (h'.fields (h.frozen.trans hf)).trans (h.fields hf)

namespace Grows

variable {p q r : Pairing} {h h₁ h₂ : Heap}

theorem le (hg : Grows p h q h₁) : p ≤ q where
  aligned := hg.aligned
  array := hg.arrays.mono
  object := hg.objects.mono
  function := hg.functions.mono
  scope := hg.scopes.mono
  switch := hg.switches.mono
  allows := hg.allows

theorem refl (p : Pairing) (h : Heap) : Grows p h p h where
  aligned := rfl
  arrays := .refl
  objects := .refl
  functions := .refl
  scopes := .refl
  switches := .refl
  object _ := .refl _
  function _ := rfl
  allows _ _ := Iff.rfl
  origin hs := ⟨_, _, hs, fun _ ↦ Iff.rfl⟩

theorem trans (hg : Grows p h q h₁) (hg' : Grows q h₁ r h₂) : Grows p h r h₂ where
  aligned := hg'.aligned.trans hg.aligned
  arrays := hg.arrays.trans hg'.arrays
  objects := hg.objects.trans hg'.objects
  functions := hg.functions.trans hg'.functions
  scopes := hg.scopes.trans hg'.scopes
  switches := hg.switches.trans hg'.switches
  object ho := (hg.object ho).trans (hg'.object (Nat.lt_of_lt_of_le ho hg.objects.size_le))
  function hf := (hg'.function (Nat.lt_of_lt_of_le hf hg.functions.size_le)).trans (hg.function hf)
  allows hs m := (hg'.allows (hg.scopes.mono hs) m).trans (hg.allows hs m)
  origin hs := by
    obtain ⟨t, t', ht, hst⟩ := hg'.origin hs
    obtain ⟨u, u', hu, htu⟩ := hg.origin ht
    exact ⟨u, u', hu, fun m ↦ (hst m).trans (htu m)⟩

end Grows

/-- Two heaps have become two others that are alike along a larger pairing. -/
structure Heap.Moves (p : Pairing) (h : Heap) (q : Pairing) (h₁ h₁' : Heap) : Prop where
  grows : Grows p h q h₁
  alike : Heap.Alike q h₁ h₁'

/-- Growth in two steps is growth in one. -/
theorem Heap.Moves.trans {p q r : Pairing} {h h₁ h₁' h₂ h₂' : Heap}
    (hm : Heap.Moves p h q h₁ h₁') (hm' : Heap.Moves q h₁ r h₂ h₂') : Heap.Moves p h r h₂ h₂' :=
  ⟨hm.grows.trans hm'.grows, hm'.alike⟩

/-! ### Replacing one kind of cells -/

namespace Heap.Alike

variable {p : Pairing} {h h' : Heap} (hh : Heap.Alike p h h')

include hh

theorem refl : Heap.Moves p h p h h' := ⟨.refl p h, hh⟩

theorem setArrays {R : Nat → Nat → Prop} {xs xs' : Array (Array Value)}
    (hcells : Cells.Alike #[] R (fun _ ↦ ArrayAlike Value.Alike { p with array := R }) xs xs')
    (hkept : Cells.Kept #[] p.array R h.arrays xs)
    (hstraight : Cells.Straight p.array h.arrays h'.arrays → Cells.Straight R xs xs') :
    Heap.Moves p h { p with array := R } { h with arrays := xs } { h' with arrays := xs' } := by
  have hgrows : Grows p h { p with array := R } { h with arrays := xs } :=
    { Grows.refl p h with arrays := hkept }
  have hle := hgrows.le
  exact ⟨hgrows, {
    arrays := hcells
    objects := hh.objects.mono fun _ ↦ Stable.mono hle
    functions := hh.functions.mono fun _ ↦ Stable.mono hle
    scopes := hh.scopes.mono fun _ hs ↦ hs.mono hle fun _ ↦ Iff.rfl
    switches := hh.switches
    total := hh.total
    measured := hh.measured.congr rfl rfl rfl rfl rfl rfl rfl fun hs ↦
      { hs with arrays := hstraight hs.arrays } }⟩

theorem setObjects {R : Nat → Nat → Prop} {xs xs' : Array Object}
    (hcells : Cells.Alike ⟨.plain, [], false⟩ R (fun _ ↦ Object.Alike { p with object := R }) xs xs')
    (hkept : Cells.Kept ⟨.plain, [], false⟩ p.object R h.objects xs)
    (hlater : ∀ i, i < h.objects.size →
      (h.object ⟨i⟩).Later (xs.getD i ⟨.plain, [], false⟩))
    (hstraight : Cells.Straight p.object h.objects h'.objects → Cells.Straight R xs xs') :
    Heap.Moves p h { p with object := R } { h with objects := xs } { h' with objects := xs' } := by
  have hgrows : Grows p h { p with object := R } { h with objects := xs } :=
    { Grows.refl p h with
      objects := hkept
      object := fun ho ↦ hlater _ ho }
  have hle := hgrows.le
  exact ⟨hgrows, {
    arrays := hh.arrays.mono fun _ ↦ Stable.mono hle
    objects := hcells
    functions := hh.functions.mono fun _ ↦ Stable.mono hle
    scopes := hh.scopes.mono fun _ hs ↦ hs.mono hle fun _ ↦ Iff.rfl
    switches := hh.switches
    total := hh.total
    measured := hh.measured.congr rfl rfl rfl rfl rfl rfl rfl fun hs ↦
      { hs with objects := hstraight hs.objects } }⟩

theorem setSwitches {R : Nat → Nat → Prop} {xs xs' : Array Bool}
    (hcells : Cells.Alike false R (fun _ ↦ Eq) xs xs')
    (hkept : Cells.Kept false p.switch R h.switches xs)
    (hstraight : Cells.Straight p.switch h.switches h'.switches → Cells.Straight R xs xs') :
    Heap.Moves p h { p with switch := R } { h with switches := xs }
      { h' with switches := xs' } := by
  have hgrows : Grows p h { p with switch := R } { h with switches := xs } :=
    { Grows.refl p h with switches := hkept }
  have hle := hgrows.le
  exact ⟨hgrows, {
    arrays := hh.arrays.mono fun _ ↦ Stable.mono hle
    objects := hh.objects.mono fun _ ↦ Stable.mono hle
    functions := hh.functions.mono fun _ ↦ Stable.mono hle
    scopes := hh.scopes.mono fun _ hs ↦ hs.mono hle fun _ ↦ Iff.rfl
    switches := hcells
    total := hh.total
    measured := hh.measured.congr rfl rfl rfl rfl rfl rfl rfl fun hs ↦
      { hs with switches := hstraight hs.switches } }⟩

/-! ### Changing paired cells -/

theorem modifyArray {a a' : ArrayId} (ha : p.array a.index a'.index) {f f' : Array Value → Array Value}
    (hf : ∀ xs xs', ArrayAlike Value.Alike p xs xs' → ArrayAlike Value.Alike p (f xs) (f' xs')) :
    Heap.Moves p h p (h.modifyArray a f) (h'.modifyArray a' f') :=
  hh.setArrays (hh.arrays.modify ha (hf _ _)) (.modify ha f) fun hs ↦ hs.modify _ _ f f'

/-- Objects may get other fields unless they are frozen. -/
theorem modifyFields {o o' : ObjectId} (ho : p.object o.index o'.index)
    (hfrozen : (h.object o).frozen = false) {f f' : Fields Value → Fields Value}
    (hf : ∀ fs fs', FieldsAlike Value.Alike p fs fs' → FieldsAlike Value.Alike p (f fs) (f' fs')) :
    Heap.Moves p h p (h.modifyObject o fun object ↦ { object with fields := f object.fields })
      (h'.modifyObject o' fun object ↦ { object with fields := f' object.fields }) := by
  refine hh.setObjects (hh.objects.modify ho fun ha ↦ ⟨ha.kind, hf _ _ ha.fields, ha.frozen⟩)
    (.modify ho _) (fun i _ ↦ ?_) fun hs ↦ hs.modify _ _ _ _
  rw [Cells.getD_modify]
  by_cases hi : o.index = i ∧ i < h.objects.size
  · rw [if_pos hi]
    obtain ⟨rfl, -⟩ := hi
    exact ⟨rfl, rfl, fun hfr ↦ absurd (hfrozen.symm.trans hfr) nofun⟩
  · rw [if_neg hi]
    exact .refl _

/-- Paired values stored in paired objects that are not frozen leave the heaps paired. -/
theorem insertField {o o' : ObjectId} (ho : p.object o.index o'.index)
    (hfrozen : (h.object o).frozen = false) (key : String) {v v' : Value}
    (hv : Value.Alike p v v') :
    Heap.Moves p h p (h.insertField o key v) (h'.insertField o' key v') :=
  hh.modifyFields ho hfrozen fun _ _ hf ↦ hf.insert key hv

theorem eraseField {o o' : ObjectId} (ho : p.object o.index o'.index)
    (hfrozen : (h.object o).frozen = false) (key : String) :
    Heap.Moves p h p (h.eraseField o key) (h'.eraseField o' key) :=
  hh.modifyFields ho hfrozen fun _ _ hf ↦ hf.erase key

theorem switchOff {s s' : SwitchId} (hs : p.switch s.index s'.index) :
    Heap.Moves p h p (h.switchOff s) (h'.switchOff s') :=
  hh.setSwitches (hh.switches.modify hs fun _ ↦ rfl) (.modify hs _) fun hs ↦ hs.modify _ _ _ _

/-- Paired scopes may change in step, as long as neither changes its parent. -/
theorem modifyScope {s s' : ScopeId} (hs : p.scope s.index s'.index) {f f' : Scope → Scope}
    (hf : ∀ scope, (f scope).parent = scope.parent)
    (hf' : ∀ scope, (f' scope).parent = scope.parent)
    (halike : ∀ scope scope', Scope.Alike p (p.allows s.index) scope scope' →
      Scope.Alike p (p.allows s.index) (f scope) (f' scope')) :
    Heap.Moves p h p (h.modifyScope s f) (h'.modifyScope s' f') where
  grows := { Grows.refl p h with scopes := .modify hs f }
  alike := { hh with
    scopes := hh.scopes.modify hs (halike _ _)
    total := fun hp hsize ↦ hh.total hp (by simpa [Heap.modifyScope] using hsize)
    measured := hh.measured.imp rfl (fun hst ↦ { hst with scopes := hst.scopes.modify _ _ f f' })
      fun hl ↦ ⟨hl.left.modifyScope s hf, hl.right.modifyScope s' hf'⟩ }

/-- Names may be declared in paired scopes as far as that is allowed. -/
theorem declare {s s' : ScopeId} {name : String} (hs : p.scope s.index s'.index)
    (hname : p.allows s.index (.declare name)) {v v' : Value} (hv : Value.Alike p v v')
    (mutable : Bool) :
    Heap.Moves p h p (h.declare s name v mutable) (h'.declare s' name v' mutable) := by
  refine hh.modifyScope hs (fun _ ↦ rfl) (fun _ ↦ rfl) fun scope scope' ha ↦ { ha with
    binding := fun {n} hn ↦ ?_
    unbound := fun {n} hn ↦ ?_ }
  · dsimp only
    by_cases heq : n = name
    · subst heq
      rw [Fields.get?_insert_self, Fields.get?_insert_self]
      exact .some ⟨hv, rfl⟩
    · rw [Fields.get?_insert_of_ne _ _ heq, Fields.get?_insert_of_ne _ _ heq]
      exact ha.binding hn
  · dsimp only
    have hne : n ≠ name := fun heq ↦ hn (heq ▸ hname)
    rw [Fields.get?_insert_of_ne _ _ hne]
    exact ha.unbound hn

/-! ### New cells -/

/-- Arrays allocated on both sides are paired from then on. -/
theorem newArray {items items' : Array Value} (hi : ArrayAlike Value.Alike p items items') :
    ∃ q, Heap.Moves p h q (h.newArray items).2 (h'.newArray items').2 ∧
      q.array (h.newArray items).1.index (h'.newArray items').1.index := by
  refine ⟨_, hh.setArrays (hh.arrays.push (fun _ _ ↦ Stable.mono ?_) (Stable.mono ?_ hi))
    (.push items _) fun hs ↦ hs.push items items', .inr ⟨rfl, rfl⟩⟩
  all_goals exact ⟨rfl, .inl, id, id, id, id, fun _ _ ↦ Iff.rfl⟩

/-- Objects allocated on both sides are paired from then on. -/
theorem newObject {o o' : Object} (ho : Object.Alike p o o') :
    ∃ q, Heap.Moves p h q (h.newObject o).2 (h'.newObject o').2 ∧
      q.object (h.newObject o).1.index (h'.newObject o').1.index := by
  refine ⟨_, hh.setObjects (hh.objects.push (fun _ _ ↦ Stable.mono ?_) (Stable.mono ?_ ho))
    (.push o _) (fun i hi ↦ ?_) fun hs ↦ hs.push o o', .inr ⟨rfl, rfl⟩⟩
  · exact ⟨rfl, id, .inl, id, id, id, fun _ _ ↦ Iff.rfl⟩
  · exact ⟨rfl, id, .inl, id, id, id, fun _ _ ↦ Iff.rfl⟩
  · rw [Cells.getD_push, if_neg (Nat.ne_of_lt hi)]
    exact .refl _

theorem newSwitch :
    ∃ q, Heap.Moves p h q h.newSwitch.2 h'.newSwitch.2 ∧
      q.switch h.newSwitch.1.index h'.newSwitch.1.index :=
  ⟨_, hh.setSwitches (hh.switches.push (fun _ _ h ↦ h) rfl) (.push true _)
    fun hs ↦ hs.push true true, .inr ⟨rfl, rfl⟩⟩

/-- Functions allocated on both sides are paired from then on. -/
theorem newFunction {fn fn' : Function} (hfn : Function.Alike p fn fn') :
    ∃ q, Heap.Moves p h q (h.newFunction fn).2 (h'.newFunction fn').2 ∧
      q.function (h.newFunction fn).1.index (h'.newFunction fn').1.index := by
  let q : Pairing := { p with
    function := Cells.extend p.function h.functions.size h'.functions.size }
  have hgrows : Grows p h q (h.newFunction fn).2 := { Grows.refl p h with
    functions := .push fn _
    function := fun {f} hf ↦ by
      simp only [Heap.function, Heap.newFunction, Cells.getD_push]
      rw [if_neg (Nat.ne_of_lt hf)] }
  have hle := hgrows.le
  refine ⟨q, ⟨hgrows, {
    arrays := hh.arrays.mono fun _ ↦ Stable.mono hle
    objects := hh.objects.mono fun _ ↦ Stable.mono hle
    functions := hh.functions.push (fun _ _ ↦ Stable.mono hle) (Stable.mono hle hfn)
    scopes := hh.scopes.mono fun _ hs ↦ hs.mono hle fun _ ↦ Iff.rfl
    switches := hh.switches
    total := hh.total
    measured := hh.measured.imp rfl (fun hs ↦ { hs with functions := hs.functions.push fn fn' })
      fun hl ↦ ⟨?_, ?_⟩ }⟩, .inr ⟨rfl, rfl⟩⟩
  · refine (hl.left.newFunction fn ?_).anti (fun _ h ↦ h) ?_
    · rintro t self rfl
      cases hfn with
      | bound ht _ => exact ⟨_, ht⟩
    · rintro f ⟨f', hf | ⟨hf, -⟩⟩
      · exact .inl ⟨f', hf⟩
      · exact .inr hf
  · refine (hl.right.newFunction fn' ?_).anti (fun _ h ↦ h) ?_
    · rintro t self rfl
      cases hfn with
      | bound ht _ => exact ⟨_, ht⟩
    · rintro f' ⟨f, hf | ⟨-, hf⟩⟩
      · exact .inl ⟨f, hf⟩
      · exact .inr hf

end Heap.Alike

/-- A pairing with two more scopes, in which the given is allowed. -/
def Pairing.withScope (p : Pairing) (n n' : Nat) (allowed : Mention → Prop) : Pairing :=
  { p with
    scope := Cells.extend p.scope n n'
    allows := fun s m ↦ if s = n then allowed m else p.allows s m }

theorem Pairing.withScope_allows_self {p : Pairing} {n n' : Nat} {allowed : Mention → Prop}
    (m : Mention) : (p.withScope n n' allowed).allows n m ↔ allowed m := by
  simp [withScope]

theorem Pairing.withScope_allows_of_ne {p : Pairing} {n n' s : Nat} {allowed : Mention → Prop}
    (hs : s ≠ n) (m : Mention) : (p.withScope n n' allowed).allows s m ↔ p.allows s m := by
  simp [withScope, hs]

namespace Heap.Alike

variable {p : Pairing} {h h' : Heap} (hh : Heap.Alike p h h')

include hh

/-- It is for the maker of two scopes to say what is allowed in them, unless everything is allowed
everywhere. -/
theorem le_withScope (allowed : Mention → Prop)
    (hall : (∀ t m, p.allows t m) → ∀ m, allowed m) :
    p ≤ p.withScope h.scopes.size h'.scopes.size allowed where
  aligned := rfl
  array := id
  object := id
  function := id
  scope := .inl
  switch := id
  allows {s s'} hs m := by
    by_cases hne : s = h.scopes.size
    · have htotal := hh.total hs (Nat.le_of_eq hne.symm)
      rw [hne, Pairing.withScope_allows_self]
      exact iff_of_true (hall htotal m) (htotal _ m)
    · exact Pairing.withScope_allows_of_ne hne m

/-- Scopes allocated on both sides are paired from then on, for the mentions their code may make. -/
theorem newScope {scope scope' : Scope} {allowed : Mention → Prop}
    (hall : (∀ t m, p.allows t m) → ∀ m, allowed m) (hs : Scope.Alike p allowed scope scope') :
    Heap.Alike (p.withScope h.scopes.size h'.scopes.size allowed) (h.newScope scope).2
      (h'.newScope scope').2 := by
  have hle := hh.le_withScope allowed hall
  exact {
    arrays := hh.arrays.mono fun _ ↦ Stable.mono hle
    objects := hh.objects.mono fun _ ↦ Stable.mono hle
    functions := hh.functions.mono fun _ ↦ Stable.mono hle
    scopes := hh.scopes.push (fun hp _ hs ↦ hs.mono hle (hle.allows hp))
      (hs.mono hle Pairing.withScope_allows_self)
    switches := hh.switches
    total := fun {s s'} hs hsize t m ↦ by
      simp only [Heap.newScope, Array.size_push] at hsize
      rcases hs with hs | ⟨hs, -⟩
      · have htotal := hh.total hs (Nat.le_of_succ_le hsize)
        by_cases ht : t = h.scopes.size
        · rw [ht, Pairing.withScope_allows_self]
          exact hall htotal m
        · exact (Pairing.withScope_allows_of_ne ht m).2 (htotal t m)
      · omega
    measured := hh.measured.imp rfl
      (fun hst ↦ { hst with scopes := hst.scopes.push scope scope' }) fun hl ↦
      { left := (hl.left.newScope scope fun t ht ↦ by
          obtain ⟨t', -, ht'⟩ := (ht ▸ hs.parent).exists_right
          exact ⟨_, ht'.1⟩).anti
          (fun s ⟨s', hs⟩ ↦ hs.elim (fun h ↦ .inl ⟨s', h⟩) fun h ↦ .inr h.1) fun _ h ↦ h
        right := (hl.right.newScope scope' fun t ht ↦ by
          obtain ⟨t', -, ht'⟩ := (ht ▸ hs.parent).exists_left
          exact ⟨_, ht'.1⟩).anti
          (fun s' ⟨s, hs⟩ ↦ hs.elim (fun h ↦ .inl ⟨s, h⟩) fun h ↦ .inr h.2) fun _ h ↦ h } }

/-- A scope in which the same is allowed as in another one. -/
theorem moreScope {scope scope' : Scope} {t t' : Nat} (ht : p.scope t t')
    (hs : Scope.Alike p (p.allows t) scope scope') :
    ∃ q, Heap.Moves p h q (h.newScope scope).2 (h'.newScope scope').2 ∧
      q.scope (h.newScope scope).1.index (h'.newScope scope').1.index ∧
      ∀ m, q.allows (h.newScope scope).1.index m ↔ p.allows t m := by
  have hall (hall : ∀ t m, p.allows t m) (m : Mention) : p.allows t m := hall t m
  refine ⟨p.withScope h.scopes.size h'.scopes.size (p.allows t), ⟨{ Grows.refl p h with
    scopes := .push scope _
    allows := (hh.le_withScope (p.allows t) hall).allows
    origin := fun {s s'} hs ↦ ?_ }, hh.newScope hall hs⟩, .inr ⟨rfl, rfl⟩,
    Pairing.withScope_allows_self⟩
  by_cases hne : s = h.scopes.size
  · subst hne
    exact ⟨t, t', ht, Pairing.withScope_allows_self⟩
  · exact ⟨s, s', hs.resolve_right fun h ↦ hne h.1, Pairing.withScope_allows_of_ne hne⟩

end Heap.Alike

/-! ### Values from documents -/

mutual

/-- A document gives values that are alike, with all their cells new. -/
theorem Heap.Alike.ofDocument {p : Pairing} {h h' : Heap} (hh : Heap.Alike p h h') (j : Json) :
    ∃ q, Heap.Moves p h q (h.ofDocument j).2 (h'.ofDocument j).2 ∧
      Value.Alike q (h.ofDocument j).1 (h'.ofDocument j).1 := by
  cases j with
  | null =>
    simp only [Heap.ofDocument]
    exact ⟨p, hh.refl, .null⟩
  | bool b =>
    simp only [Heap.ofDocument]
    exact ⟨p, hh.refl, .bool b⟩
  | number n =>
    simp only [Heap.ofDocument]
    exact ⟨p, hh.refl, .number _⟩
  | string s =>
    simp only [Heap.ofDocument]
    exact ⟨p, hh.refl, .string s⟩
  | array items =>
    obtain ⟨q, hm, hitems⟩ := hh.ofItems items
    have harray : ArrayAlike Value.Alike q (h.ofItems items).1.toArray
      (h'.ofItems items).1.toArray := hitems
    obtain ⟨r, hm', ha⟩ := hm.alike.newArray harray
    simp only [Heap.ofDocument]
    exact ⟨r, hm.trans hm', .array ha⟩
  | object fields =>
    obtain ⟨q, hm, hfields⟩ := hh.ofFields fields
    have hobject : Object.Alike q ⟨.plain, (h.ofFields fields).1, false⟩
      ⟨.plain, (h'.ofFields fields).1, false⟩ := ⟨.plain, hfields, rfl⟩
    obtain ⟨r, hm', ho⟩ := hm.alike.newObject hobject
    simp only [Heap.ofDocument]
    exact ⟨r, hm.trans hm', .object ho⟩

/-- Items of a document are copied into both heaps as paired values. -/
theorem Heap.Alike.ofItems {p : Pairing} {h h' : Heap} (hh : Heap.Alike p h h')
    (items : List Json) :
    ∃ q, Heap.Moves p h q (h.ofItems items).2 (h'.ofItems items).2 ∧
      ListAlike Value.Alike q (h.ofItems items).1 (h'.ofItems items).1 := by
  cases items with
  | nil =>
    simp only [Heap.ofItems]
    exact ⟨p, hh.refl, .nil⟩
  | cons j rest =>
    obtain ⟨q, hm, hv⟩ := hh.ofDocument j
    obtain ⟨r, hm', hrest⟩ := hm.alike.ofItems rest
    simp only [Heap.ofItems]
    exact ⟨r, hm.trans hm', .cons (Stable.mono hm'.grows.le hv) hrest⟩

/-- Fields of a document are copied into both heaps as paired values. -/
theorem Heap.Alike.ofFields {p : Pairing} {h h' : Heap} (hh : Heap.Alike p h h')
    (fields : List (String × Json)) :
    ∃ q, Heap.Moves p h q (h.ofFields fields).2 (h'.ofFields fields).2 ∧
      FieldsAlike Value.Alike q (h.ofFields fields).1 (h'.ofFields fields).1 := by
  match fields with
  | [] =>
    simp only [Heap.ofFields]
    exact ⟨p, hh.refl, .nil⟩
  | (k, j) :: rest =>
    obtain ⟨q, hm, hv⟩ := hh.ofDocument j
    obtain ⟨r, hm', hrest⟩ := hm.alike.ofFields rest
    simp only [Heap.ofFields]
    exact ⟨r, hm.trans hm', .cons ⟨rfl, Stable.mono hm'.grows.le hv⟩ hrest⟩

end

end Nodecraft.Sandbox
