import Nodecraft.Proofs.Pairing.Reading
import Nodecraft.Proofs.Sandbox.Outcome

/-!
# Actions that do the same in worlds that are alike

Two actions are alike along a pairing if in any two worlds that are alike along it, or along a
larger one, they come to outcomes that are alike along a still larger pairing, and the heap of the
first world becomes what `Grows` allows. Results are compared by a relation that depends on the
pairing, since they may name cells that the actions have made.

One lemma for each primitive action and for each way of combining actions. A lemma about what
comes next takes the larger pairing that the actions before have come to.
-/

set_option autoImplicit false

namespace Nodecraft.Sandbox

open Script Evaluation

structure World.Alike (p : Pairing) (w w' : World) : Prop where
  heap : Heap.Alike p w.heap w'.heap
  run : Run.Alike p w.run w'.run

/-- The same end, in worlds that are alike. -/
inductive Outcome.Alike {α β : Type} (p : Pairing) (Q : Pairing → α → β → Prop) :
    Outcome α → Outcome β → Prop
  | ok {a : α} {b : β} {w w' : World} : Q p a b → World.Alike p w w' →
    Outcome.Alike p Q (.ok a w) (.ok b w')
  | error {e e' : Failure} {w w' : World} : Failure.Alike p e e' → World.Alike p w w' →
    Outcome.Alike p Q (.error e w) (.error e' w')

/-- Outcomes of actions that began with a heap. -/
def Outcome.Follows {α β : Type} (p : Pairing) (h : Heap) (Q : Pairing → α → β → Prop)
    (r : Outcome α) (r' : Outcome β) : Prop :=
  ∃ q, Grows p h q (finalWorld r).heap ∧ Outcome.Alike q Q r r'

/-- The actions do the same wherever worlds are alike along the pairing or along a larger one. -/
def Action.Alike {α β : Type} (p : Pairing) (Q : Pairing → α → β → Prop) (x : Action α)
    (y : Action β) : Prop :=
  ∀ q, p ≤ q → ∀ w w', World.Alike q w w' → Outcome.Follows q w.heap Q (x w) (y w')

namespace World.Alike

variable {p q : Pairing} {w w' : World}

/-- Worlds stay paired when only their heaps move on together. -/
theorem moves (hw : World.Alike p w w') {h h' : Heap} (hm : Heap.Moves p w.heap q h h') :
    World.Alike q { w with heap := h } { w' with heap := h' } :=
  ⟨hm.alike, Stable.mono hm.grows.le hw.run⟩

theorem tick (hw : World.Alike p w w') : World.Alike p w.tick w'.tick :=
  ⟨hw.heap, { hw.run with steps := congrArg (· + 1) hw.run.steps }⟩

theorem enter (hw : World.Alike p w w') : World.Alike p w.enter w'.enter where
  heap := hw.heap
  run := { hw.run with
    steps := by simp only [World.enter, hw.run.nesting, hw.run.steps]
    nesting := congrArg (· + 1) hw.run.nesting }

theorem leave (hw : World.Alike p w w') : World.Alike p w.leave w'.leave :=
  ⟨hw.heap, { hw.run with nesting := congrArg (· - 1) hw.run.nesting }⟩

theorem descend (hw : World.Alike p w w') : World.Alike p w.descend w'.descend :=
  ⟨hw.heap, { hw.run with depth := congrArg (· + 1) hw.run.depth }⟩

theorem ascend (hw : World.Alike p w w') : World.Alike p w.ascend w'.ascend :=
  ⟨hw.heap, { hw.run with depth := congrArg (· - 1) hw.run.depth }⟩

end World.Alike

namespace Outcome.Alike

variable {α β : Type} {p : Pairing} {Q : Pairing → α → β → Prop} {r : Outcome α} {r' : Outcome β}

theorem finalWorld (h : Outcome.Alike p Q r r') :
    World.Alike p (Sandbox.finalWorld r) (Sandbox.finalWorld r') := by
  cases h with
  | ok _ hw => exact hw
  | error _ hw => exact hw

theorem mapWorld (h : Outcome.Alike p Q r r') {f : World → World}
    (hf : ∀ {w w'}, World.Alike p w w' → World.Alike p (f w) (f w')) :
    Outcome.Alike p Q (Sandbox.mapWorld f r) (Sandbox.mapWorld f r') := by
  cases h with
  | ok ha hw => exact .ok ha (hf hw)
  | error he hw => exact .error he (hf hw)

theorem settled_iff (h : Outcome.Alike p Q r r') : Settled r ↔ Settled r' := by
  cases h with
  | ok _ _ => exact Iff.rfl
  | error he _ => cases he <;> exact Iff.rfl

end Outcome.Alike

namespace Outcome.Follows

variable {α β : Type} {p q : Pairing} {h h₁ : Heap} {Q : Pairing → α → β → Prop}
  {r : Outcome α} {r' : Outcome β}

theorem ok {a : α} {b : β} {w w' : World} (hab : Q p a b) (hw : World.Alike p w w') :
    Outcome.Follows p w.heap Q (.ok a w) (.ok b w') :=
  ⟨p, .refl _ _, .ok hab hw⟩

theorem error {e e' : Failure} {w w' : World} (he : Failure.Alike p e e')
    (hw : World.Alike p w w') : Outcome.Follows p w.heap Q (.error e w) (.error e' w') :=
  ⟨p, .refl _ _, .error he hw⟩

theorem after (hg : Grows p h q h₁) (hf : Outcome.Follows q h₁ Q r r') :
    Outcome.Follows p h Q r r' := by
  obtain ⟨s, hg', hr⟩ := hf
  exact ⟨s, hg.trans hg', hr⟩

end Outcome.Follows

namespace Action.Alike

variable {α β γ δ : Type} {p q : Pairing} {Q : Pairing → α → β → Prop}
  {R : Pairing → γ → δ → Prop} {x : Action α} {y : Action β}

/-- Actions that are alike under a pairing are alike under each larger one. -/
theorem mono (hx : Action.Alike p Q x y) (hle : p ≤ q) : Action.Alike q Q x y :=
  fun r hr ↦ hx r (Pairing.le_trans hle hr)

/-! ### Sequences and ends -/

theorem pure [Stable Q] {a : α} {b : β} (hab : Q p a b) :
    Action.Alike p Q (Pure.pure a) (Pure.pure b) :=
  fun _ hq _ _ hw ↦ .ok (Stable.mono hq hab) hw

/-- Results that are related because the heaps are alike. -/
theorem pureIn {a : α} {b : β}
    (hab : ∀ q, p ≤ q → ∀ h h', Heap.Alike q h h' → Q q a b) :
    Action.Alike p Q (Pure.pure a) (Pure.pure b) :=
  fun q hq _ _ hw ↦ .ok (hab q hq _ _ hw.heap) hw

/-- Sequences are alike when their first parts are, and their rests on every paired result. -/
theorem bind {f : α → Action γ} {g : β → Action δ} (hx : Action.Alike p Q x y)
    (hf : ∀ q, p ≤ q → ∀ a b, Q q a b → Action.Alike q R (f a) (g b)) :
    Action.Alike p R (x >>= f) (y >>= g) := by
  intro q hq w w' hw
  obtain ⟨r, hg, hr⟩ := hx q hq w w' hw
  have hr' : Pairing.Le p r := Pairing.le_trans hq hg.le
  rw [Action.bind_apply, Action.bind_apply]
  generalize x w = left, y w' = right at hg hr ⊢
  cases hr with
  | ok hab hw₁ => exact .after hg (hf r hr' _ _ hab r (Pairing.le_refl r) _ _ hw₁)
  | error he hw₁ => exact ⟨r, hg, .error he hw₁⟩

/-- The results are the same data. -/
theorem bindSame {x y : Action α} {f : α → Action γ} {g : α → Action δ}
    (hx : Action.Alike p Same x y) (hf : ∀ q, p ≤ q → ∀ a, Action.Alike q R (f a) (g a)) :
    Action.Alike p R (x >>= f) (y >>= g) := by
  refine hx.bind fun q hq a b hab ↦ ?_
  obtain rfl : a = b := hab
  exact hf q hq a

theorem map [Stable R] (hx : Action.Alike p Q x y) {f : α → γ} {g : β → δ}
    (hfg : ∀ q, p ≤ q → ∀ a b, Q q a b → R q (f a) (g b)) :
    Action.Alike p R (x >>= fun a ↦ Pure.pure (f a)) (y >>= fun b ↦ Pure.pure (g b)) :=
  hx.bind fun q hq a b hab ↦ .pure (hfg q hq a b hab)

theorem discard (hx : Action.Alike p Q x y) :
    Action.Alike p Same (Functor.discard x) (Functor.discard y) :=
  hx.bind fun _ _ _ _ _ ↦ .pure rfl

theorem failure {e e' : Failure} (he : Failure.Alike p e e') :
    Action.Alike p Q (throw e) (throw e') :=
  fun _ hq _ _ hw ↦ .error (Stable.mono hq he) hw

theorem raise {e e' : ScriptError} (he : ScriptError.Alike p e e') :
    Action.Alike p Q (Action.raise e) (Action.raise e') :=
  failure (.raised he)

theorem typeError (message : String) :
    Action.Alike p Q (Action.typeError message) (Action.typeError message) :=
  raise (.type message)

/-! ### Reading -/

/-- Actions that read the heap are alike when they are on all paired heaps. -/
theorem read {f : Heap → Action γ} {g : Heap → Action δ}
    (hfg : ∀ q, p ≤ q → ∀ h h', Heap.Alike q h h' → Action.Alike q R (f h) (g h')) :
    Action.Alike p R (Action.heap >>= f) (Action.heap >>= g) :=
  fun q hq w w' hw ↦ hfg q hq _ _ hw.heap q (Pairing.le_refl q) w w' hw

/-- The same data is read from both heaps. -/
theorem readSame [Stable Q] {f : Heap → α} {g : Heap → β}
    (hfg : ∀ q, p ≤ q → ∀ h h', Heap.Alike q h h' → Q q (f h) (g h')) :
    Action.Alike p Q (Action.heap >>= fun h ↦ Pure.pure (f h))
      (Action.heap >>= fun h ↦ Pure.pure (g h)) :=
  read fun q hq h h' hh ↦ .pure (hfg q hq h h' hh)

theorem readRun {f : Run → Action γ} {g : Run → Action δ}
    (hfg : ∀ q, p ≤ q → ∀ r r', Run.Alike q r r' → Action.Alike q R (f r) (g r')) :
    Action.Alike p R (Action.run >>= f) (Action.run >>= g) :=
  fun q hq w w' hw ↦ hfg q hq _ _ hw.run q (Pairing.le_refl q) w w' hw

theorem text {v v' : Value} (hv : Value.Alike p v v') :
    Action.Alike p Same (Action.text v) (Action.text v') :=
  readSame fun _ hq _ _ hh ↦ hh.text_eq (Stable.mono hq hv)

theorem number {v v' : Value} (hv : Value.Alike p v v') :
    Action.Alike p Same (Action.number v) (Action.number v') :=
  readSame fun _ hq _ _ hh ↦ hh.number_eq (Stable.mono hq hv)

/-! ### Changing the world -/

/-- Changes of the heap are alike when paired heaps move on together. -/
theorem modifyHeap {f g : Heap → Heap}
    (hfg : ∀ q, p ≤ q → ∀ h h', Heap.Alike q h h' → ∃ r, Heap.Moves q h r (f h) (g h')) :
    Action.Alike p Same (Action.modifyHeap f) (Action.modifyHeap g) := by
  intro q hq w w' hw
  obtain ⟨r, hm⟩ := hfg q hq _ _ hw.heap
  exact ⟨r, hm.grows, .ok rfl (hw.moves hm)⟩

/-- Allocations are alike when they move paired heaps on and give paired results. -/
theorem allocate {f : Heap → α × Heap} {g : Heap → β × Heap}
    (hfg : ∀ q, p ≤ q → ∀ h h', Heap.Alike q h h' →
      ∃ r, Heap.Moves q h r (f h).2 (g h').2 ∧ Q r (f h).1 (g h').1) :
    Action.Alike p Q (Action.allocate f) (Action.allocate g) := by
  intro q hq w w' hw
  obtain ⟨r, hm, hab⟩ := hfg q hq _ _ hw.heap
  exact ⟨r, hm.grows, .ok hab (hw.moves hm)⟩

theorem modifyRun {f g : Run → Run}
    (hfg : ∀ q, p ≤ q → ∀ r r', Run.Alike q r r' → Run.Alike q (f r) (g r')) :
    Action.Alike p Same (Action.modifyRun f) (Action.modifyRun g) :=
  fun q hq w _ hw ↦ ⟨q, .refl q w.heap, .ok rfl ⟨hw.heap, hfg q hq _ _ hw.run⟩⟩

theorem newArray {items items' : Array Value} (hi : ArrayAlike Value.Alike p items items') :
    Action.Alike p Value.Alike (Action.newArray items) (Action.newArray items') := by
  refine bind (Q := fun q a a' ↦ q.array a.index a'.index) (allocate fun q hq h h' hh ↦
    hh.newArray (Stable.mono hq hi)) fun q _ a a' ha ↦ .pure (.array ha)

theorem newObject {k k' : ObjectKind} {fields fields' : Fields Value}
    (hk : ObjectKind.Alike p k k') (hf : FieldsAlike Value.Alike p fields fields') :
    Action.Alike p (fun q o o' ↦ q.object o.index o'.index) (Action.newObject k fields)
      (Action.newObject k' fields') :=
  allocate fun _ hq _ _ hh ↦ hh.newObject ⟨Stable.mono hq hk, Stable.mono hq hf, rfl⟩

theorem newObjectValue {k k' : ObjectKind} {fields fields' : Fields Value}
    (hk : ObjectKind.Alike p k k') (hf : FieldsAlike Value.Alike p fields fields') :
    Action.Alike p Value.Alike
      (Action.newObject k fields >>= fun o ↦ Pure.pure (Value.object o))
      (Action.newObject k' fields' >>= fun o ↦ Pure.pure (Value.object o)) :=
  (newObject hk hf).map fun _ _ _ _ ho ↦ .object ho

theorem newPlain {fields fields' : Fields Value} (hf : FieldsAlike Value.Alike p fields fields') :
    Action.Alike p Value.Alike (Action.newPlain fields) (Action.newPlain fields') :=
  newObjectValue .plain hf

theorem newFunction {fn fn' : Function} (hfn : Function.Alike p fn fn') :
    Action.Alike p Value.Alike (Action.newFunction fn) (Action.newFunction fn') := by
  refine bind (Q := fun q f f' ↦ q.function f.index f'.index) (allocate fun q hq h h' hh ↦
    hh.newFunction (Stable.mono hq hfn)) fun q _ a a' ha ↦ .pure (.function ha)

theorem newNative {n n' : Native} (hn : Native.Alike p n n') :
    Action.Alike p Value.Alike (Action.newNative n) (Action.newNative n') :=
  newFunction (.native hn)

/-- A scope below another: the same is allowed in both. -/
theorem newScope {s s' : ScopeId} {ms : List Mention} (hs : p.Runs s s' ms)
    {self self' : Option Value} (hself : OptionAlike Value.Alike p self self')
    (isFunction : Bool) :
    Action.Alike p (fun q inner inner' ↦ q.Runs inner inner' ms)
      (Action.newScope ⟨[], some s, none, self, isFunction⟩)
      (Action.newScope ⟨[], some s', none, self', isFunction⟩) := by
  refine allocate fun q hq h h' hh ↦ ?_
  have hs' := hs.mono hq
  have hinner : Scope.Alike q (q.allows s.index) ⟨[], some s, none, self, isFunction⟩
      ⟨[], some s', none, self', isFunction⟩ := {
    binding := fun _ ↦ .none
    parent := .some ⟨hs'.scope, fun _ ↦ Iff.rfl⟩
    fallback := .none
    self := Stable.mono hq hself
    isFunction := rfl
    unbound := fun _ ↦ ⟨rfl, rfl⟩ }
  obtain ⟨r, hm, hscope, hallows⟩ := hh.moreScope hs'.scope hinner
  exact ⟨r, hm, hscope, fun hmem ↦ (hallows _).2 (hs'.allowed hmem)⟩

/-- Scopes opened on both sides run the code that their parents could. -/
theorem childScope {s s' : ScopeId} {ms : List Mention} (hs : p.Runs s s' ms) :
    Action.Alike p (fun q inner inner' ↦ q.Runs inner inner' ms) (Action.childScope s)
      (Action.childScope s') :=
  newScope hs .none false

theorem ofDocument (j : Json) :
    Action.Alike p Value.Alike (Action.ofDocument j) (Action.ofDocument j) :=
  allocate fun _ _ _ _ hh ↦ hh.ofDocument j

/-! ### Errors -/

theorem throwValue {v v' : Value} (hv : Value.Alike p v v') :
    Action.Alike p Q (Action.throwValue v) (Action.throwValue v') := by
  refine read fun q hq h h' hh ↦ ?_
  have hv := Stable.mono hq hv
  have htext := hh.text_eq hv
  cases hv with
  | object ho =>
    have hname := hh.own? ho "name"
    have hmessage := hh.own? ho "message"
    dsimp only
    generalize h.own? _ "name" = name, h'.own? _ "name" = name' at hname ⊢
    generalize h.own? _ "message" = message, h'.own? _ "message" = message' at hmessage ⊢
    cases hname with
    | none =>
      cases hmessage with
      | none =>
        dsimp only
        rw [htext]
        exact raise (.thrown _ (.object ho))
      | some hmessage =>
        dsimp only
        rw [hh.text_eq hmessage]
        exact raise (.thrown _ (.object ho))
    | some hname =>
      cases hmessage with
      | none =>
        dsimp only
        rw [htext]
        exact raise (.thrown _ (.object ho))
      | some hmessage =>
        dsimp only
        rw [hh.text_eq hname, hh.text_eq hmessage]
        exact raise (.thrown _ (.object ho))
  | _ =>
    dsimp only
    rw [htext]
    exact raise (.thrown _ (by constructor; try assumption))

theorem caught {e e' : ScriptError} (he : ScriptError.Alike p e e') :
    Action.Alike p Value.Alike (Action.caught e) (Action.caught e') := by
  have hrecord (name message : String) : Action.Alike p Value.Alike
      (Action.caught.record name message) (Action.caught.record name message) :=
    newPlain (.cons ⟨rfl, .string _⟩ (.cons ⟨rfl, .string _⟩ .nil))
  cases he with
  | thrown message hv => exact .pure hv
  | unbound name => exact hrecord _ _
  | type message => exact hrecord _ _
  | callDepth limit => exact hrecord _ _
  | stepBudget limit => exact hrecord _ _
  | stackExhausted => exact hrecord _ _

/-! ### Steps, entries and calls -/

theorem step : Action.Alike p Same Action.step Action.step := by
  intro q _ w w' hw
  rw [Action.step_apply, Action.step_apply, ← hw.run.limits, ← hw.run.steps]
  have htick := hw.tick
  split
  · split
    · exact ⟨q, .refl q w.heap, .error (.raised (.stepBudget _)) htick⟩
    · exact ⟨q, .refl q w.heap, .ok rfl htick⟩
  · exact ⟨q, .refl q w.heap, .ok rfl htick⟩

/-- The room left for nested code is the same on both sides. -/
theorem room : Action.Alike p Same Action.room Action.room := by
  intro q _ w w' hw
  have hsame : w'.run.hasRoom = w.run.hasRoom := by
    unfold Run.hasRoom
    rw [hw.run.limits, hw.run.depth, hw.run.nesting]
  by_cases hroom : w.run.hasRoom
  · rw [Action.room_of_hasRoom hroom, Action.room_of_hasRoom (hsame.trans hroom)]
    exact ⟨q, .refl q w.heap, .ok rfl hw⟩
  · rw [Action.room_of_not hroom, Action.room_of_not (hsame ▸ hroom)]
    exact ⟨q, .refl q w.heap, .error (.raised .stackExhausted) hw⟩

/-- An entry into the interpreter keeps its body alike: both sides refuse it or neither does. -/
theorem entering (hx : Action.Alike p Q x y) :
    Action.Alike p Q (Action.entering x) (Action.entering y) := by
  intro q hq w w' hw
  obtain ⟨r, hg, hr⟩ := hx q hq _ _ hw.enter
  rw [Action.entering_apply, Action.entering_apply]
  exact ⟨r, by rw [finalWorld_mapWorld]; exact hg, hr.mapWorld World.Alike.leave⟩

/-- A call keeps its body alike: both sides refuse it or neither does. -/
theorem calling (hx : Action.Alike p Q x y) :
    Action.Alike p Q (Action.calling x) (Action.calling y) := by
  intro q hq w w' hw
  by_cases hdepth : w.run.limits.maxCallDepth ≤ w.run.depth
  · have hdepth' : w'.run.limits.maxCallDepth ≤ w'.run.depth := by
      rwa [← hw.run.limits, ← hw.run.depth]
    rw [Action.calling_of_le x hdepth, Action.calling_of_le y hdepth', ← hw.run.limits]
    exact .error (.raised (.callDepth _)) hw
  · have hdepth' : ¬w'.run.limits.maxCallDepth ≤ w'.run.depth := by
      rwa [← hw.run.limits, ← hw.run.depth]
    obtain ⟨r, hg, hr⟩ := hx q hq _ _ hw.descend
    rw [Action.calling_of_lt x (Nat.lt_of_not_le hdepth),
      Action.calling_of_lt y (Nat.lt_of_not_le hdepth')]
    exact ⟨r, by rw [finalWorld_mapWorld]; exact hg, hr.mapWorld World.Alike.ascend⟩

/-! ### Exceptions -/

/-- Both sides catch an error or neither does, and handlers are given paired errors. -/
theorem catching {f : ScriptError → Action α} {g : ScriptError → Action β}
    (hx : Action.Alike p Q x y) (hfg : ∀ q, p ≤ q → ∀ e e', ScriptError.Alike q e e' →
      Action.Alike q Q (f e) (g e')) :
    Action.Alike p Q (Action.catching x f) (Action.catching y g) := by
  intro q hq w w' hw
  obtain ⟨r, hg, hr⟩ := hx q hq w w' hw
  have hr' : Pairing.Le p r := Pairing.le_trans hq hg.le
  unfold Action.catching
  generalize x w = left, y w' = right at hg hr ⊢
  cases hr with
  | ok hab hw₁ => exact ⟨r, hg, .ok hab hw₁⟩
  | error he hw₁ =>
    cases he with
    | raised he =>
      dsimp only
      rw [← he.isCatchable_eq]
      split
      · exact .after hg (hfg r hr' _ _ he r (Pairing.le_refl r) _ _ hw₁)
      · exact ⟨r, hg, .error (.raised he) hw₁⟩
    | unfinished => exact ⟨r, hg, .error .unfinished hw₁⟩
    | overlap => exact ⟨r, hg, .error .overlap hw₁⟩

end Action.Alike

end Nodecraft.Sandbox
