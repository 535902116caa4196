import Nodecraft.Proofs.Pairing.Layers
import Nodecraft.Proofs.Sandbox.Purity
import Nodecraft.Proofs.Template.Nesting
import Nodecraft.Template.Render

/-!
# Pure templates

A template is pure (`Template.isPure`) if all that rendering evaluates is: everything but its
handlers. A state lacks computed cells (`Heap.LacksComputed`) if none can be reached from it through
arrays, objects and cells. Then what can be reached, and all that is made from then on, is a region
to which pure code keeps (`Heap.regionOf_covers`).

`Action.Repeats` says of two actions that the first keeps to a region, and that the second does the
same in a world that is alike. One lemma for each way of combining actions.
-/

set_option autoImplicit false

namespace Nodecraft

open Script Sandbox

namespace Template

/-! ### Purity -/

def TextPart.isPure : TextPart → Bool
  | .fixed _ => true
  | .shown e => e.isPure

def Attribute.isPure : Attribute → Bool
  | .fixed _ _ => true
  | .bound _ e => e.isPure
  | .spread e => e.isPure

mutual

def Tree.isPure : Tree → Bool
  | .text _ => true
  | .interpolated parts => parts.all TextPart.isPure
  | .element _ attributes _ visible children =>
    attributes.all Attribute.isPure && (visible.all Expr.isPure && treesPure children)
  | .fragment children => treesPure children
  | .conditional branches => branchesPure branches
  | .loop aliases source body => aliases.all Pattern.isPure && (source.isPure && body.isPure)

def treesPure : List Tree → Bool
  | [] => true
  | t :: rest => t.isPure && treesPure rest

def branchesPure : List Branch → Bool
  | [] => true
  | .branch none t :: rest => t.isPure && branchesPure rest
  | .branch (some test) t :: rest => test.isPure && (t.isPure && branchesPure rest)

end

end Template

/-- Nothing evaluated at rendering contains an assignment, an update, a deletion or a call. -/
def Template.isPure (t : Template) : Bool := Template.treesPure t.roots

namespace Sandbox

/-! ### States without computed cells -/

/-- What a value leads to, through the elements of arrays and the fields of objects and cells. -/
inductive Heap.Reaches (h : Heap) (root : Value) : Value → Prop
  | root : Heap.Reaches h root root
  | item {a : ArrayId} {v : Value} : Heap.Reaches h root (.array a) → v ∈ h.array a →
    Heap.Reaches h root v
  | field {o : ObjectId} {entry : String × Value} : Heap.Reaches h root (.object o) →
    entry ∈ (h.object o).fields → Heap.Reaches h root entry.2

/-- The value leads to no computed cell. -/
def Heap.LacksComputed (h : Heap) (root : Value) : Prop :=
  ∀ o, h.Reaches root (.object o) → (h.object o).kind.isComputed = false

/-- What a value leads to, and what is made from now on. -/
def Heap.regionOf (h : Heap) (root : Value) : Region where
  base := h
  array a := h.Reaches root (.array a) ∨ h.arrays.size ≤ a.index
  object o := h.Reaches root (.object o) ∨ h.objects.size ≤ o.index
  array_of_le := .inr
  object_of_le := .inr

theorem Heap.Reaches.has {h : Heap} {root v : Value} (hv : h.Reaches root v) :
    (h.regionOf root).Has v := by
  cases v with
  | array a | object o => exact .inl hv
  | _ => trivial

/-- What a value without computed cells leads to is covered. -/
theorem Heap.regionOf_covers {h : Heap} {root : Value} (hroot : h.LacksComputed root) :
    (h.regionOf root).Covers h where
  untouched := .refl h
  item {a v} ha hv := by
    rcases ha with ha | ha
    · exact (ha.item hv).has
    · rw [Heap.array, Cells.getD_of_le ha] at hv
      exact absurd hv (Array.not_mem_empty v)
  field {o entry} ho hentry := by
    rcases ho with ho | ho
    · exact (ho.field hentry).has
    · rw [object_of_le ho] at hentry
      exact absurd hentry List.not_mem_nil
  isComputed {o} ho := by
    rcases ho with ho | ho
    · exact hroot o ho
    · rw [object_of_le ho]
      rfl
  scope {s} hs := by
    rw [Heap.scope, Cells.getD_of_le (show h.scopes.size ≤ s.index from hs)]
    exact ⟨fun hentry ↦ absurd hentry List.not_mem_nil, fun h ↦ (Option.not_mem_none _ h).elim,
      fun h ↦ (Option.not_mem_none _ h).elim, fun h ↦ (Option.not_mem_none _ h).elim⟩

/-! ### Actions that are repeated -/

/-- Values that stand for each other, the first of which is in the region. -/
def Region.Shares (r : Region) (p : Pairing) (v v' : Value) : Prop := Value.Alike p v v' ∧ r.Has v

instance (r : Region) : Stable r.Shares where
  mono hle _ _ h := ⟨Stable.mono hle h.1, h.2⟩

/-- Scopes that stand for each other, in which everything is allowed. The first has been made since
the region was drawn. -/
structure Region.Twins (r : Region) (p : Pairing) (s s' : ScopeId) : Prop where
  opens : r.Opens s
  scope : p.scope s.index s'.index
  allows (m : Mention) : p.allows s.index m

theorem Region.Twins.mono {r : Region} {p q : Pairing} {s s' : ScopeId} (h : r.Twins p s s')
    (hle : p ≤ q) : r.Twins q s s' :=
  ⟨h.opens, hle.scope h.scope, fun m ↦ (hle.allows h.scope m).2 (h.allows m)⟩

instance (r : Region) : Stable r.Twins where
  mono hle _ _ h := h.mono hle

/-- Twins run the same mentions. -/
theorem Region.Twins.runs {r : Region} {p : Pairing} {s s' : ScopeId} (h : r.Twins p s s')
    (ms : List Mention) : p.Runs s s' ms :=
  ⟨h.scope, fun _ ↦ h.allows _⟩

/-- What comes of an action that keeps to a region, and of the same in a world that is alike. -/
structure Outcome.Repeats {α β : Type} (r : Region) (p : Pairing) (w : World)
    (Q : Pairing → α → β → Prop) (result : Outcome α) (result' : Outcome β) : Prop where
  follows : Outcome.Follows p w.heap Q result result'
  leaves : r.Leaves (fun _ ↦ True) w result

/-- The first action keeps to the region, and the second does the same wherever worlds are alike. -/
def Action.Repeats {α β : Type} (r : Region) (p : Pairing) (Q : Pairing → α → β → Prop)
    (x : Action α) (y : Action β) : Prop :=
  ∀ q, p ≤ q → ∀ w w', World.Alike q w w' → q.Within w.heap → r.Covers w.heap →
    Outcome.Repeats r q w Q (x w) (y w')

namespace Action.Repeats

variable {α β γ δ : Type} {r : Region} {p q : Pairing} {Q : Pairing → α → β → Prop}
  {R : Pairing → γ → δ → Prop} {x : Action α} {y : Action β}

theorem mono (hx : Action.Repeats r p Q x y) (hle : p ≤ q) : Action.Repeats r q Q x y :=
  fun s hs ↦ hx s (Pairing.le_trans hle hs)

/-- An action that does the same wherever worlds are alike, and that keeps to the region. -/
theorem of_alike {P : α → Prop} (hx : Action.Alike p Q x y) (hg : Action.Gathers r P x) :
    Action.Repeats r p (fun q a b ↦ Q q a b ∧ P a) x y := by
  intro q hq w w' hw _ hcovers
  obtain ⟨s, hgrows, hr⟩ := hx q hq w w' hw
  have hleaves := hg w hcovers
  generalize x w = result, y w' = result' at hgrows hr hleaves
  refine ⟨⟨s, hgrows, ?_⟩, hleaves.covers, hleaves.run, fun _ ↦ trivial, hleaves.failure⟩
  cases hr with
  | ok hab hw => exact .ok ⟨hab, hleaves.value rfl⟩ hw
  | error he hw => exact .error he hw

theorem imp {R : Pairing → α → β → Prop} (hx : Action.Repeats r p Q x y)
    (hQR : ∀ q a b, p ≤ q → Q q a b → R q a b) : Action.Repeats r p R x y := by
  intro q hq w w' hw hin hcovers
  obtain ⟨⟨s, hgrows, hr⟩, hleaves⟩ := hx q hq w w' hw hin hcovers
  refine ⟨⟨s, hgrows, ?_⟩, hleaves⟩
  have hle : p ≤ s := Pairing.le_trans hq hgrows.le
  generalize x w = result, y w' = result' at hr
  cases hr with
  | ok hab hw => exact .ok (hQR s _ _ hle hab) hw
  | error he hw => exact .error he hw

theorem pure [Stable Q] {a : α} {b : β} (hab : Q p a b) :
    Action.Repeats r p Q (Pure.pure a) (Pure.pure b) :=
  fun _ hq _ _ hw _ hcovers ↦
    ⟨.ok (Stable.mono hq hab) hw, .ok hcovers (.inl rfl) trivial⟩

theorem failure {e : Failure} (hp : e.IsPlain) (he : ∀ p, Failure.Alike p e e) :
    Action.Repeats r p Q (throw e) (throw e) :=
  fun q _ _ _ hw _ hcovers ↦ ⟨.error (he q) hw, .error hcovers (.inl rfl) hp⟩

theorem typeError (message : String) :
    Action.Repeats r p Q (Action.typeError message) (Action.typeError message) :=
  failure nofun fun _ ↦ .raised (.type message)

theorem unfinished : Action.Repeats r p Q (throw .unfinished) (throw .unfinished) :=
  failure nofun fun _ ↦ .unfinished

/-- What follows is repeated from values that are alike. -/
theorem bind {f : α → Action γ} {g : β → Action δ} (hx : Action.Repeats r p Q x y)
    (hf : ∀ q, p ≤ q → ∀ a b, Q q a b → Action.Repeats r q R (f a) (g b)) :
    Action.Repeats r p R (x >>= f) (y >>= g) := by
  intro q hq w w' hw hin hcovers
  obtain ⟨⟨s, hgrows, hr⟩, hleaves⟩ := hx q hq w w' hw hin hcovers
  have hle : p ≤ s := Pairing.le_trans hq hgrows.le
  rw [Action.bind_apply, Action.bind_apply]
  generalize x w = left, y w' = right at hgrows hr hleaves ⊢
  cases hr with
  | ok hab hw₁ =>
    have hnext := hf s hle _ _ hab s (Pairing.le_refl s) _ _ hw₁ (hin.grows hgrows) hleaves.covers
    exact ⟨.after hgrows hnext.follows, .after hleaves.run hnext.leaves⟩
  | error he hw₁ =>
    exact ⟨⟨s, hgrows, .error he hw₁⟩, .error hleaves.covers hleaves.run (hleaves.failure rfl)⟩

/-- The results are the same data. -/
theorem bindSame {x y : Action α} {f : α → Action γ} {g : α → Action δ}
    (hx : Action.Repeats r p Same x y)
    (hf : ∀ q, p ≤ q → ∀ a, Action.Repeats r q R (f a) (g a)) :
    Action.Repeats r p R (x >>= f) (y >>= g) := by
  refine hx.bind fun q hq a b hab ↦ ?_
  obtain rfl : a = b := hab
  exact hf q hq a

/-- The heap is read alike. -/
theorem read {f : Heap → Action γ} {g : Heap → Action δ}
    (hfg : ∀ q, p ≤ q → ∀ h h', Heap.Alike q h h' → q.Within h → r.Covers h →
      Action.Repeats r q R (f h) (g h')) :
    Action.Repeats r p R (Action.heap >>= f) (Action.heap >>= g) :=
  fun q hq w w' hw hin hcovers ↦
    hfg q hq _ _ hw.heap hin hcovers q (Pairing.le_refl q) w w' hw hin hcovers

end Action.Repeats

end Sandbox

end Nodecraft
