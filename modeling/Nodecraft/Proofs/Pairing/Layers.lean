import Nodecraft.Proofs.Pairing.Frame
import Nodecraft.Proofs.Pairing.Run

/-!
# Older and newer cells

On the heaps that scripts leave, every cell that a cell names is there, and scopes and bound
functions are newer than the scopes and functions they lead to (`Heap.Grounded`). Whatever an
interpreter is asked to do keeps it so (`World.Grounded.task`).

Such a heap is like every later one in which its cells are unchanged, along the pairing of its cells
with themselves (`Heap.Grounded.alike`), although cells that are made from then on lie at other
places: what is alike along a pairing of cells at the same places is so along the same pairing
without that condition (`Pairing.loose`).
-/

set_option autoImplicit false

namespace Nodecraft.Sandbox

open Script Pairing

/-- The same cells stand for each other, and those that are made need not lie at the same places. -/
def Pairing.loose (p : Pairing) : Pairing := { p with aligned := false }

/-- A relation that does not depend on the places of cells. -/
class Loose {α β : Type} (Q : Pairing → α → β → Prop) : Prop where
  loosen {p : Pairing} {a : α} {b : β} : Q p a b → Q p.loose a b

section

variable {α β γ δ : Type} (Q : Pairing → α → β → Prop) (R : Pairing → γ → δ → Prop)

instance : Loose (Same (α := α)) where
  loosen h := h

variable [Loose Q] [Loose R]

instance : Loose (OptionAlike Q) where
  loosen h := h.imp Loose.loosen

instance : Loose (ListAlike Q) where
  loosen h := h.imp fun _ _ ↦ Loose.loosen

instance : Loose (PairAlike Q R) where
  loosen h := ⟨Loose.loosen h.1, Loose.loosen h.2⟩

instance : Loose (FieldsAlike Q) := inferInstanceAs (Loose (ListAlike _))

instance : Loose (ArrayAlike Q) where
  loosen h := Loose.loosen (Q := ListAlike Q) h

end

instance : Loose Value.Alike where
  loosen := by
    rintro p _ _ (_ | _ | _ | _ | _ | h | h | h)
    · exact .undefined
    · exact .null
    · exact .bool _
    · exact .number _
    · exact .string _
    · exact .array h
    · exact .object h
    · exact .function h

instance : Loose ObjectKind.Alike where
  loosen := by
    rintro p _ _ (_ | _ | ⟨h, h'⟩ | _)
    · exact .plain
    · exact .ref
    · exact .computed (Loose.loosen h) (Loose.loosen h')
    · exact .state

instance : Loose Object.Alike where
  loosen h := ⟨Loose.loosen h.kind, Loose.loosen h.fields, h.frozen⟩

instance : Loose Native.Alike where
  loosen := by
    rintro p _ _ (h | h | ⟨segments, h⟩)
    · exact .plain h
    · exact .stop h
    · exact .path segments (Loose.loosen h)

instance : Loose Function.Alike where
  loosen := by
    rintro p _ _ (h | h | ⟨h, h'⟩)
    · exact .closure ⟨h.scope, h.allowed⟩
    · exact .native (Loose.loosen h)
    · exact .bound h (Loose.loosen h')

instance : Loose Binding.Alike where
  loosen h := ⟨Loose.loosen h.value, h.mutable⟩

instance : Loose WatchSource.Alike where
  loosen := by
    rintro p _ _ (h | h | h | h)
    · exact .getter (Loose.loosen h)
    · exact .cell (Loose.loosen h)
    · exact .value (Loose.loosen h)
    · exact .effect (Loose.loosen h)

instance : Loose Watcher.Alike where
  loosen h := ⟨Loose.loosen h.source, Loose.loosen h.callback, Loose.loosen h.last, h.snapshot,
    h.switch⟩

instance : Loose HookRegistry.Alike where
  loosen h := ⟨Loose.loosen h.hooks, Loose.loosen h.watchers⟩

instance : Loose Run.Alike where
  loosen h := ⟨h.limits, h.depth, h.steps, h.nesting, Loose.loosen h.ticks, Loose.loosen h.hooks,
    Loose.loosen h.props⟩

theorem Scope.Alike.loosen {p : Pairing} {allowed : Mention → Prop} {scope scope' : Scope}
    (h : Scope.Alike p allowed scope scope') : Scope.Alike p.loose allowed scope scope' where
  binding hname := Loose.loosen (h.binding hname)
  parent := h.parent
  fallback := Loose.loosen h.fallback
  self := Loose.loosen h.self
  isFunction := h.isFunction
  unbound := h.unbound

/-! ### Grounded heaps -/

/-- All cells that a cell names are there, and parents of scopes and targets of bound functions are
older. -/
structure Heap.Grounded (h : Heap) : Prop where
  closed : h.Closed
  layered : h.Layered (· < h.scopes.size) (· < h.functions.size)

theorem Heap.grounded_empty : Heap.empty.Grounded where
  closed := closed_empty
  layered := ⟨id, (fun h ↦ nomatch h), id, (fun h ↦ nomatch h)⟩

/-- A cell of both heaps, with contents that are alike. -/
theorem Cells.Alike.untouched {α : Type} {d : α} {R : Nat → Nat → Prop} {C D : Nat → α → α → Prop}
    {xs ys : Array α} (h : Cells.Alike d R C xs xs) (hR : ∀ {a a'}, R a a' → a = a' ∧ a < xs.size)
    (hxy : Cells.Since d 0 xs ys) (hCD : ∀ {a x x'}, C a x x' → D a x x') :
    Cells.Alike d R D xs ys where
  injective := h.injective
  frontier ha k := by
    have := hR ha
    have := hxy.size_le
    omega
  content {a a'} ha := by
    obtain ⟨rfl, hlt⟩ := hR ha
    rw [hxy.same (Nat.zero_le a) hlt]
    exact hCD (h.content ha)

theorem Heap.Layered.untouched {h h₁ : Heap}
    (hl : h.Layered (· < h.scopes.size) (· < h.functions.size)) (hu : h.Untouched h₁) :
    h₁.Layered (· < h.scopes.size) (· < h.functions.size) where
  scope hs := Nat.lt_of_lt_of_le hs hu.scopes.size_le
  parent {s t} hs ht := by
    have hsame : h₁.scope ⟨s⟩ = h.scope ⟨s⟩ := hu.scopes.same (Nat.zero_le _) hs
    exact hl.parent hs (hsame ▸ ht)
  function hf := Nat.lt_of_lt_of_le hf hu.functions.size_le
  target {f t self} hf ht := by
    have hsame : h₁.function ⟨f⟩ = h.function ⟨f⟩ := hu.functions.same (Nat.zero_le _) hf
    exact hl.target hf (hsame ▸ ht)

/-- A grounded heap is like any later one in which its cells are unchanged. -/
theorem Heap.Grounded.alike {h h₁ : Heap} (hg : h.Grounded) (hu : h.Untouched h₁) :
    Heap.Alike (own h).loose h h₁ where
  arrays := hg.closed.arrays.untouched id hu.arrays (Loose.loosen (Q := ArrayAlike Value.Alike))
  objects := hg.closed.objects.untouched id hu.objects Loose.loosen
  functions := hg.closed.functions.untouched id hu.functions Loose.loosen
  scopes := hg.closed.scopes.untouched id hu.scopes Scope.Alike.loosen
  switches := hg.closed.switches.untouched id hu.switches id
  total hs hsize := absurd hs.2 (Nat.not_lt_of_le hsize)
  measured := {
    left := hg.layered.anti (fun _ hs ↦ hs.choose_spec.2) fun _ hf ↦ hf.choose_spec.2
    right := (hg.layered.untouched hu).anti
      (fun _ hs ↦ hs.choose_spec.1 ▸ hs.choose_spec.2)
      fun _ hf ↦ hf.choose_spec.1 ▸ hf.choose_spec.2 }

/-- Along with a pairing of all its cells, a heap keeps its layers. -/
theorem Grows.layered {q : Pairing} {h h₁ h₁' : Heap} (hg : Grows (own h).loose h q h₁)
    (hh : Heap.Alike q h₁ h₁') : h₁.Layered (· < h₁.scopes.size) (· < h₁.functions.size) := by
  have hlayers : q.Layered h₁ h₁' := by
    have hmeasured := hh.measured
    unfold Pairing.Measured at hmeasured
    rwa [if_neg (by rw [hg.aligned]; exact Bool.false_ne_true)] at hmeasured
  refine hlayers.left.anti (fun s hs ↦ ?_) fun f hf ↦ ?_
  · by_cases hold : s < h.scopes.size
    · exact ⟨s, hg.scopes.mono ⟨rfl, hold⟩⟩
    · exact hg.scopes.covered (Nat.le_of_not_lt hold) hs
  · by_cases hold : f < h.functions.size
    · exact ⟨f, hg.functions.mono ⟨rfl, hold⟩⟩
    · exact hg.functions.covered (Nat.le_of_not_lt hold) hf

theorem Heap.Grounded.ofDocument {h : Heap} (hg : h.Grounded) (j : Json) :
    (h.ofDocument j).2.Grounded ∧
      Value.Alike (own (h.ofDocument j).2) (h.ofDocument j).1 (h.ofDocument j).1 := by
  obtain ⟨q, hm, hv⟩ := hg.closed.ofDocument j
  obtain ⟨q₁, hm₁, -⟩ := (hg.alike (.refl h)).ofDocument j
  exact ⟨⟨hm.closed, hm₁.grows.layered hm₁.alike⟩, Stable.mono hm.le_own hv⟩

/-- All cells that the interpreter names are on its heap, which is grounded. -/
structure World.Grounded (w : World) : Prop where
  heap : w.heap.Grounded
  run : Run.Alike (own w.heap) w.run w.run

namespace World.Grounded

variable {w : World}

theorem alike (hw : w.Grounded) : World.Alike (own w.heap).loose w w :=
  ⟨hw.heap.alike (.refl _), Loose.loosen hw.run⟩

/-- Actions that use nothing but cells of a grounded world leave one. -/
theorem after {α : Type} {Q : Pairing → α → α → Prop} [Stable Q] (hw : w.Grounded) {x : Action α}
    (hx : Action.Alike (own w.heap) Q x x) (hloose : Action.Alike (own w.heap).loose Q x x) :
    (finalWorld (x w)).Grounded := by
  have hclosed := (World.Closed.after ⟨hw.heap.closed, hw.run⟩ hx).1
  obtain ⟨q, hg, hr⟩ := hloose _ (Pairing.le_refl _) w w hw.alike
  exact ⟨⟨hclosed.heap, hg.layered hr.finalWorld.heap⟩, hclosed.run⟩

/-- Whatever an interpreter is asked to do with cells of a grounded world leaves one. -/
theorem task (hw : w.Grounded) {task : Task} (htask : Task.Alike (own w.heap) task task) (n : Nat) :
    (finalWorld (task.run (machineWithin n) w)).Grounded := by
  have hloose : Task.Alike (own w.heap).loose task task := by
    cases htask with
    | flushTicks => exact .flushTicks
    | enter hentry =>
      cases hentry with
      | program hs => exact .enter (.program ⟨hs.scope, hs.allowed⟩)
      | call hf hself hargs =>
        exact .enter (.call (Loose.loosen hf) (Loose.loosen hself)
          (Loose.loosen (Q := ListAlike Value.Alike) hargs))
      | eval hs => exact .enter (.eval ⟨hs.scope, hs.allowed⟩)
  exact hw.after ((machine_alike _ n).run htask) ((machine_alike _ n).run hloose)

end World.Grounded

end Nodecraft.Sandbox
