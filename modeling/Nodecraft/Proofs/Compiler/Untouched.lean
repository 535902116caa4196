import Nodecraft.Proofs.Compiler.History
import Nodecraft.Proofs.Component.Capabilities
import Nodecraft.Proofs.Pairing.Frame

/-!
# Compiling leaves what is there

A script changes only cells that it can come by. From the standard whitelist it comes by nothing but
capabilities and frozen objects, which it cannot change either; all else it has made itself. So
compilers with this whitelist add to a heap and leave all its cells as they are
(`Compiler.Harmless.untouched_compile`).
-/

set_option autoImplicit false

namespace Nodecraft

namespace Sandbox

open Script Pairing

/-- A pairing that has grown along with a heap: cells it does not pair are left as they are, and it
has taken in none of them. -/
structure Confined (p : Pairing) (h : Heap) (q : Pairing) (h₁ : Heap) : Prop where
  le : p ≤ q
  arrays : Cells.Kept #[] p.array q.array h.arrays h₁.arrays
  objects : Cells.Kept ⟨.plain, [], false⟩ p.object q.object h.objects h₁.objects
  scopes : Cells.Kept ⟨[], none, none, none, true⟩ p.scope q.scope h.scopes h₁.scopes
  switches : Cells.Kept false p.switch q.switch h.switches h₁.switches

namespace Confined

variable {p q r : Pairing} {h h' h₁ h₂ : Heap}

theorem refl (p : Pairing) (h : Heap) : Confined p h p h :=
  ⟨Pairing.le_refl p, .refl, .refl, .refl, .refl⟩

theorem trans (hc : Confined p h q h₁) (hc' : Confined q h₁ r h₂) : Confined p h r h₂ :=
  ⟨Pairing.le_trans hc.le hc'.le, hc.arrays.trans hc'.arrays, hc.objects.trans hc'.objects,
    hc.scopes.trans hc'.scopes, hc.switches.trans hc'.switches⟩

/-- What grows confines. -/
theorem of_grows (hg : Grows p h q h₁) : Confined p h q h₁ :=
  ⟨hg.le, hg.arrays, hg.objects, hg.scopes, hg.switches⟩

/-- A scope that may be used in every way is new. -/
theorem newScope (hh : Heap.Alike p h h') (allowed : Mention → Prop)
    (hall : (∀ t m, p.allows t m) → ∀ m, allowed m) (scope : Scope) :
    Confined p h (p.withScope h.scopes.size h'.scopes.size allowed) (h.newScope scope).2 :=
  ⟨hh.le_withScope allowed hall, .refl, .refl, .push scope _, .refl⟩

/-- If nothing but capabilities and frozen objects is paired, all cells are left as they are. -/
theorem untouched (hc : Confined p h q h₁) (hp : p.Lasting h) (hl : h.Later h₁) :
    h.Untouched h₁ where
  arrays := .of_kept hc.arrays fun a _ _ a' ↦ hp.array a a'
  objects := by
    refine ⟨hl.objects_le, fun {o} _ ho ↦ ?_⟩
    by_cases hpaired : ∃ o', p.object o o'
    · obtain ⟨o', hpaired⟩ := hpaired
      exact hl.frozen (o := ⟨o⟩) (hp.object hpaired)
    · exact hc.objects.unpaired ho fun o' ho' ↦ hpaired ⟨o', ho'⟩
  functions := ⟨hl.functions_le, fun {f} _ hf ↦ hl.function (f := ⟨f⟩) hf⟩
  scopes := .of_kept hc.scopes fun s _ _ s' ↦ hp.scope s s'
  switches := .of_kept hc.switches fun s _ _ s' ↦ hp.switch s s'

end Confined

end Sandbox

open Sandbox Script Pairing

namespace Component

variable {p : Pairing} {h : Heap} {whitelist : Whitelist}

/-- Logic changes only what it can come by. -/
theorem confined_evaluate (hh : Heap.Alike p h h)
    (hw : FieldsAlike Value.Alike p whitelist.bindings whitelist.bindings) (limits : Limits)
    (body : Logic.Body) (data : NodeData) (store : NodeStore) :
    ∃ q, Confined p h q (heapOf (evaluate whitelist limits body data store h)) := by
  rw [← evaluateOn_machine]
  by_cases hbody : body.program = []
  · rw [evaluateOn_of_nil _ _ _ hbody]
    exact ⟨p, .refl p h⟩
  · obtain ⟨q, hm, hworld, hruns⟩ := rootWorld_alike hh hw limits data store body.program
    have hroot := Confined.newScope hm.alike (fun _ ↦ True) (fun _ _ ↦ trivial)
      (rootCell whitelist (nodeCells data store (h.ofData data).2).1)
    obtain ⟨r, hg, -⟩ := optionsOf_alike (machine_alike _ patience) hruns _ (Pairing.le_refl _)
      _ _ hworld
    rw [evaluateOn_of_ne_nil _ _ _ hbody, heapOf_onHeap]
    exact ⟨r, ((Confined.of_grows hm.grows).trans hroot).trans (.of_grows hg)⟩

/-- Logic changes nothing that is there if it can come by nothing but capabilities and frozen
objects. -/
theorem untouched_evaluate (hp : p.Lasting h) (hh : Heap.Alike p h h)
    (hw : FieldsAlike Value.Alike p whitelist.bindings whitelist.bindings) (limits : Limits)
    (body : Logic.Body) (data : NodeData) (store : NodeStore) :
    h.Untouched (heapOf (evaluate whitelist limits body data store h)) := by
  obtain ⟨q, hc⟩ := confined_evaluate hh hw limits body data store
  exact hc.untouched hp (later_evaluate whitelist limits body data store h)

/-- Compiling logic touches nothing that the heap held. -/
theorem untouched_ofLogic (hp : p.Lasting h) (hh : Heap.Alike p h h)
    (hw : FieldsAlike Value.Alike p whitelist.bindings whitelist.bindings) (limits : Limits)
    (template : Template) (logic : String) (data : NodeData) (store : NodeStore) :
    h.Untouched (left (ofLogic whitelist limits template logic data store h)) := by
  unfold ofLogic
  cases Logic.Body.ofText logic with
  | error why => exact .refl h
  | ok body =>
    have huntouched := untouched_evaluate hp hh hw limits body data store
    dsimp only
    generalize evaluate whitelist limits body data store h = r at huntouched ⊢
    cases r with
    | ok options h₁ => exact huntouched
    | error failure h₁ => exact huntouched

end Component

namespace Compiler

/-- All that a compiler lets scripts come by are capabilities and frozen objects. -/
def Harmless (c : Compiler) : Prop :=
  ∃ p : Pairing, p.Lasting c.heap ∧ Heap.Alike p c.heap c.heap ∧
    FieldsAlike Value.Alike p c.whitelist.bindings c.whitelist.bindings

/-- The standard whitelist does no harm. -/
theorem harmless_standard (settings : Settings) (h : Heap) :
    (new settings (Whitelist.standard h).1 (Whitelist.standard h).2).Harmless :=
  standard_lasting h h

/-- It does none in later heaps either. -/
theorem Harmless.later {c c₁ : Compiler} (hc : c.Harmless) (hw : c₁.whitelist = c.whitelist)
    (hl : c.heap.Later c₁.heap) : c₁.Harmless := by
  obtain ⟨p, hp, hh, hbindings⟩ := hc
  exact ⟨p, hp.later hl, hp.alike hh hl hl, hw ▸ hbindings⟩

/-- Such a compiler adds to the heap and leaves all its cells as they are, however it ends. -/
theorem Harmless.untouched_compile {c : Compiler} (hc : c.Harmless) (definition : String)
    (data : NodeData) (store : NodeStore) :
    c.heap.Untouched (left (compile definition data store c)).heap := by
  obtain ⟨p, hp, hh, hw⟩ := hc
  rcases left_compile_cases definition data store c with
    ⟨why, -, hleft⟩ | ⟨blocks, h, -, hleft, hheap | ⟨t, hheap⟩⟩ <;> rw [hleft]
  · exact .refl _
  · dsimp only
    rw [hheap]
    exact .refl _
  · dsimp only
    rw [hheap]
    exact Component.untouched_ofLogic hp hh hw c.settings.limits t blocks.logic data store

/-- It stays such a compiler. -/
theorem Harmless.compile {c : Compiler} (hc : c.Harmless) (definition : String) (data : NodeData)
    (store : NodeStore) : (left (compile definition data store c)).Harmless := by
  refine hc.later ?_ (later_compile definition data store c)
  rcases left_compile_cases definition data store c with
    ⟨why, -, hleft⟩ | ⟨blocks, h, -, hleft, -⟩
  · rw [hleft]
  · rw [hleft]
    rfl

end Compiler

end Nodecraft
