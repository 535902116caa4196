import Nodecraft.Proofs.Sandbox.Counters

/-!
# Larger budgets of steps

A run sees its budget of steps only through the error that ends it: a run that ends in another
way under one budget does and leaves the same under every larger budget, or without one.

The error could be lost in a finalizer only, and there it is not. An action of a run raises it
only with the budget used up, and from then on no statement gets done, so a finalizer either has
nothing to do or raises the error again.
-/

set_option autoImplicit false

namespace Nodecraft.Sandbox

open Script Evaluation

/-- The world with another budget of steps. -/
def World.withBudget (budget : Option Nat) (w : World) : World :=
  { w with run := { w.run with limits := { w.run.limits with maxSteps := budget } } }

/-- The action came to an end by itself and not at its budget. -/
def InBudget {α : Type} : Outcome α → Prop
  | .error .unfinished _ => False
  | .error (.raised (.stepBudget _)) _ => False
  | _ => True

instance {α : Type} : ∀ r : Outcome α, Decidable (InBudget r)
  | .ok _ _ => isTrue trivial
  | .error .unfinished _ => isFalse id
  | .error .overlap _ => isTrue trivial
  | .error (.raised (.stepBudget _)) _ => isFalse id
  | .error (.raised (.thrown _ _)) _ => isTrue trivial
  | .error (.raised (.unbound _)) _ => isTrue trivial
  | .error (.raised (.type _)) _ => isTrue trivial
  | .error (.raised (.callDepth _)) _ => isTrue trivial
  | .error (.raised .stackExhausted) _ => isTrue trivial

theorem InBudget.of_mapWorld {α : Type} {f : World → World} {r : Outcome α}
    (h : InBudget (mapWorld f r)) : InBudget r := by
  cases r with
  | ok a w => exact trivial
  | error e w =>
    cases e with
    | raised e => cases e <;> exact h
    | _ => exact h

theorem InBudget.of_error {α β : Type} {e : Failure} {w w' : World}
    (h : InBudget (.error e w : Outcome α)) : InBudget (.error e w' : Outcome β) := by
  cases e with
  | raised e => cases e <;> exact h
  | _ => exact h

theorem InBudget.of_catchable {α : Type} {r : Outcome α} (h : Catchable r) : InBudget r := by
  obtain ⟨e, w, rfl, he⟩ := h
  cases e with
  | stepBudget b => exact nomatch he
  | _ => exact trivial

/-- The finalizer's outcome decides whether the whole stays within the budget. -/
theorem InBudget.of_finishing {r r' : Outcome Completion} (h : InBudget (finishing r r')) :
    InBudget r' := by
  cases r' with
  | ok c w => exact trivial
  | error e w => exact h

/-- Whether a run is over its budget, as far as actions can tell that start inside at least the
given number of entries. -/
structure Action.Metered (entries : Nat) {α : Type} (x : Action α) : Prop where
  balanced : x.Balanced
  spent {w w' : World} {b : Nat} : 0 < w.run.nesting →
    x w = .error (.raised (.stepBudget b)) w' → w'.run.IsSpent
  widen {w : World} {b : Nat} {budget : Option Nat} : entries ≤ w.run.nesting →
    w.run.limits.maxSteps = some b → (∀ c, budget = some c → b ≤ c) → InBudget (x w) →
    x (w.withBudget budget) = mapWorld (World.withBudget budget) (x w)

namespace Action.Metered

variable {α β : Type} {entries : Nat}

theorem of_neutral {x : Action α} (hx : x.Neutral fun _ ↦ True) : x.Metered entries where
  balanced := .of_neutral hx
  spent _ h := by
    obtain ⟨e, h, he⟩ := hx.failure h
    cases h
    exact nomatch he
  widen {w _ budget} _ _ _ _ := hx.commute (g := World.withBudget budget)
    (c := fun c ↦ { c with limits := { c.limits with maxSteps := budget } }) (fun _ ↦ rfl) w

theorem unfinished : (throw .unfinished : Action α).Metered entries where
  balanced := .failure _
  spent _ h := nomatch h
  widen _ _ _ h := h.elim

theorem overlap : (throw .overlap : Action α).Metered entries where
  balanced := .failure _
  spent _ h := nomatch h
  widen _ _ _ _ := rfl

theorem step : Action.step.Metered entries where
  balanced := .step
  spent {w w' b} hw h := by
    rw [Action.step_apply] at h
    cases hmax : w.run.limits.maxSteps with
    | none => rw [hmax] at h; exact nomatch h
    | some c =>
      rw [hmax] at h
      dsimp only at h
      split at h
      · cases h
        exact ⟨hw, b, hmax, Nat.lt_succ_of_le ‹_›⟩
      · exact nomatch h
  widen {w b budget} _ hb hle h := by
    rw [Action.step_apply, hb] at h
    rw [Action.step_apply, Action.step_apply, hb]
    have hlt : ¬b ≤ w.run.steps := by
      intro hlt
      dsimp only at h
      rw [if_pos hlt] at h
      exact h
    dsimp only
    rw [if_neg hlt]
    cases budget with
    | none => rfl
    | some c => exact if_neg fun hc ↦ hlt (Nat.le_trans (hle c rfl) hc)

theorem room : Action.room.Metered entries where
  balanced := .room
  spent {w w' b} _ h := by
    by_cases hroom : w.run.hasRoom
    · rw [room_of_hasRoom hroom] at h
      exact nomatch h
    · rw [room_of_not hroom] at h
      cases h
  widen {w _ budget} _ _ _ _ := by
    have hsame : (w.withBudget budget).run.hasRoom = w.run.hasRoom := rfl
    by_cases hroom : w.run.hasRoom
    · rw [room_of_hasRoom hroom, room_of_hasRoom (hsame.trans hroom)]
      rfl
    · rw [room_of_not hroom, room_of_not (hsame ▸ hroom)]
      rfl

/-- If the whole stays within its budget, so does the first action. -/
theorem bind {x : Action α} {f : α → Action β} (hx : x.Metered entries)
    (hf : ∀ a, (f a).Metered entries) : (x >>= f).Metered entries where
  balanced := hx.balanced.bind fun a ↦ (hf a).balanced
  spent {w w' b} hw h := by
    rw [Action.bind_apply] at h
    cases hxw : x w with
    | ok a w₁ =>
      rw [hxw] at h
      have hframe := hx.balanced.of_ok hxw
      exact (hf a).spent (by rwa [hframe.nesting]) h
    | error e w₁ =>
      rw [hxw] at h
      cases h
      exact hx.spent hw hxw
  widen {w b budget} hw hb hle h := by
    rw [Action.bind_apply] at h
    rw [Action.bind_apply, Action.bind_apply]
    cases hxw : x w with
    | ok a w₁ =>
      have hframe := hx.balanced.of_ok hxw
      rw [hxw] at h
      rw [hx.widen hw hb hle (by rw [hxw]; trivial), hxw]
      exact (hf a).widen (by rwa [hframe.nesting]) (by rwa [hframe.limits]) hle h
    | error e w₁ =>
      rw [hxw] at h
      rw [hx.widen hw hb hle (by rw [hxw]; exact h.of_error), hxw]
      rfl

/-- Inside of an entry there is always at least one entry. -/
theorem entering {x : Action α} (hx : x.Metered 1) : (Action.entering x).Metered entries where
  balanced := hx.balanced.entering
  spent {w w' b} hw h := by
    rw [Action.entering_apply] at h
    cases hxw : x w.enter with
    | ok a w₁ => rw [hxw] at h; exact nomatch h
    | error e w₁ =>
      rw [hxw] at h
      obtain ⟨rfl, rfl⟩ := EStateM.Result.error.inj h
      have hnesting : w₁.leave.run.nesting = w.run.nesting :=
        (hx.balanced.of_error hxw).leave.nesting
      exact ⟨by rwa [hnesting], (hx.spent (Nat.succ_pos _) hxw).2⟩
  widen {w b budget} _ hb hle h := by
    rw [Action.entering_apply] at h
    have hwiden : x (w.withBudget budget).enter = _ :=
      hx.widen (w := w.enter) (Nat.succ_pos _) hb hle h.of_mapWorld
    rw [Action.entering_apply, Action.entering_apply, hwiden]
    cases x w.enter <;> rfl

theorem calling {x : Action α} (hx : x.Metered entries) : (Action.calling x).Metered entries where
  balanced := hx.balanced.calling
  spent {w w' b} hw h := by
    by_cases hdepth : w.run.depth < w.run.limits.maxCallDepth
    · rw [Action.calling_of_lt _ hdepth] at h
      cases hxw : x w.descend with
      | ok a w₁ => rw [hxw] at h; exact nomatch h
      | error e w₁ =>
        rw [hxw] at h
        obtain ⟨rfl, rfl⟩ := EStateM.Result.error.inj h
        have hspent := hx.spent (w := w.descend) hw hxw
        exact ⟨hspent.1, hspent.2⟩
    · rw [Action.calling_of_le _ (Nat.le_of_not_lt hdepth)] at h
      exact nomatch h
  widen {w b budget} hw hb hle h := by
    by_cases hdepth : w.run.depth < w.run.limits.maxCallDepth
    · rw [Action.calling_of_lt _ hdepth] at h
      have hwiden : x (w.withBudget budget).descend = _ :=
        hx.widen (w := w.descend) hw hb hle h.of_mapWorld
      rw [Action.calling_of_lt (w := w.withBudget budget) _ hdepth, Action.calling_of_lt _ hdepth,
        hwiden]
      cases x w.descend <;> rfl
    · have hdepth' := Nat.le_of_not_lt hdepth
      rw [Action.calling_of_le (w := w.withBudget budget) _ hdepth', Action.calling_of_le _ hdepth']
      rfl

/-- An error of the budget is not caught, so the guarded action stays within it as well. -/
theorem catching {x : Action α} {f : ScriptError → Action α} (hx : x.Metered entries)
    (hf : ∀ e, e.isCatchable = true → (f e).Metered entries) :
    (Action.catching x f).Metered entries where
  balanced := hx.balanced.catching fun e he ↦ (hf e he).balanced
  spent {w w' b} hw h := by
    by_cases hc : Catchable (x w)
    · obtain ⟨e, w₁, hxw, he⟩ := hc
      have hframe := hx.balanced.of_error hxw
      rw [Action.catching_of_catchable hxw he] at h
      exact (hf e he).spent (by rwa [hframe.nesting]) h
    · rw [Action.catching_of_not hc] at h
      exact hx.spent hw h
  widen {w b budget} hw hb hle h := by
    by_cases hc : Catchable (x w)
    · have hwiden := hx.widen hw hb hle (.of_catchable hc)
      obtain ⟨e, w₁, hxw, he⟩ := hc
      have hframe := hx.balanced.of_error hxw
      rw [Action.catching_of_catchable hxw he] at h
      rw [hxw] at hwiden
      rw [Action.catching_of_catchable hxw he, Action.catching_of_catchable hwiden he]
      exact (hf e he).widen (by rwa [hframe.nesting]) (by rwa [hframe.limits]) hle h
    · rw [Action.catching_of_not hc] at h
      have hwiden := hx.widen hw hb hle h
      rw [Action.catching_of_not hc, Action.catching_of_not, hwiden]
      rwa [hwiden, catchable_mapWorld]

/-- A finalizer does not make up for a budget that is used up. -/
theorem inBudget_of_finalizing {x f : Action Completion} (hx : x.Metered 1) (hxf : x.Finalized f)
    {w : World} (hw : 0 < w.run.nesting) (hs : Settled (x w))
    (h : InBudget (finishing (x w) (f (finalWorld (x w))))) : InBudget (x w) := by
  cases hxw : x w with
  | ok c w' => exact trivial
  | error e w' =>
    cases e with
    | raised e =>
      cases e with
      | stepBudget b =>
        have hstall := hxf.stalled hx.balanced hxw (hx.spent hw hxw)
        rw [hxw] at h
        change InBudget (finishing _ (f w')) at h
        cases hf : f w' with
        | ok c w'' =>
          rw [hf] at h hstall
          obtain ⟨rfl, -⟩ := hstall
          exact h
        | error e w'' =>
          rw [hf] at h hstall
          rcases hstall with rfl | ⟨⟨c, rfl⟩, -⟩ <;> exact h
      | _ => exact trivial
    | unfinished => rw [hxw] at hs; exact hs
    | overlap => exact trivial

/-- Beyond its budget a finalizer can do nothing, so its block has stayed within. -/
theorem finalizing {x f : Action Completion} (hx : x.Metered 1) (hf : f.Metered 1)
    (hxf : x.Finalized f) : (Evaluation.finalizing x f).Metered 1 where
  balanced := hx.balanced.finalizing hf.balanced
  spent {w w' b} hw h := by
    rcases settled_or_failure (x w) with hs | ⟨e, w₁, hxw, he⟩
    · rw [finalizing_of_settled hs] at h
      have hframe := hx.balanced w
      cases hfw : f (finalWorld (x w)) with
      | ok c w₂ =>
        rw [hfw] at h
        cases c with
        | normal =>
          cases hxw : x w with
          | ok c w₁ => rw [hxw] at h; exact nomatch h
          | error e w₁ =>
            rw [hxw] at h hfw
            obtain ⟨rfl, rfl⟩ := EStateM.Result.error.inj h
            have hspent := hx.spent hw hxw
            have hstall := hxf.stalled hx.balanced hxw hspent
            rw [show f w₁ = _ from hfw] at hstall
            rwa [hstall.2]
        | _ => exact nomatch h
      | error e w₂ =>
        rw [hfw] at h
        cases h
        exact hf.spent (by rwa [hframe.nesting]) hfw
    · rw [finalizing_of_failure hxw he] at h
      cases h
      exact absurd rfl (he _)
  widen {w b budget} hw hb hle h := by
    rcases settled_or_failure (x w) with hs | ⟨e, w₁, hxw, he⟩
    · have hframe := hx.balanced w
      rw [finalizing_of_settled hs] at h
      have hxwiden := hx.widen hw hb hle (inBudget_of_finalizing hx hxf hw hs h)
      have hfwiden := hf.widen (w := finalWorld (x w)) (by rwa [hframe.nesting])
        (by rwa [hframe.limits]) hle (.of_finishing h)
      rw [finalizing_of_settled hs, finalizing_of_settled (by rwa [hxwiden, settled_mapWorld]),
        hxwiden, finalWorld_mapWorld, hfwiden, finishing_mapWorld]
    · rw [finalizing_of_failure hxw he] at h
      have hxwiden := hx.widen hw hb hle (by rwa [hxw])
      rw [hxw] at hxwiden
      rw [finalizing_of_failure hxw he, finalizing_of_failure hxwiden he]
      rfl

end Action.Metered

/-- The rule for every part of the syntax and every method. -/
theorem Congruence.metered : Congruence (fun _ x _ ↦ x.Metered 1) fun _ ↦ True :=
  .ofNeutral .of_neutral .bind .entering .catching

theorem Probing.metered : Probing (fun _ x _ ↦ x.Metered 1) Stop.never Stop.never :=
  Congruence.metered.probing .of_neutral .step .room (fun hx hf hxf _ ↦ .finalizing hx hf hxf)
    .calling .overlap .unfinished

/-- The machine does the same under every budget it stays within. -/
theorem machine_metered (n size : Nat) : Machine.Related (fun _ x _ ↦ x.Metered 1)
    (fun _ ↦ True) size (machineWithin n) (machineWithin n) := by
  rw [← probe_never]
  exact Probing.metered.related n size

/-- Runs from outside begin with an entry, so they need none around them. -/
theorem Entry.metered_run (entry : Entry) (n : Nat) :
    (entry.run (machineWithin n)).Metered 0 :=
  entry.run_of_entering (P := fun x ↦ x.Metered 1) (Q := fun x ↦ x.Metered 0) machine_metered
    .of_neutral .bind .room .entering .unfinished n

/-- A run that does not end at its budget of steps ends in the same way under every larger budget
and without one, and it leaves the same world. -/
theorem run_of_larger_budget (entry : Entry) (n : Nat) (w : World) (b : Nat)
    (budget : Option Nat) (hle : ∀ c, budget = some c → b ≤ c)
    (h : InBudget (entry.run (machineWithin n) (w.withBudget (some b)))) :
    entry.run (machineWithin n) (w.withBudget budget) =
      mapWorld (World.withBudget budget)
        (entry.run (machineWithin n) (w.withBudget (some b))) :=
  (entry.metered_run n).widen (w := w.withBudget (some b)) (Nat.zero_le _) rfl hle h

/-- A loop that is left in its first round takes three steps. -/
theorem run_of_larger_budget_loop :
    let entry := Entry.program ⟨0⟩ [.whileLoop (.literal (.bool true)) .break]
    let w : World := ⟨Heap.empty, Run.start Limits.standard .undefined⟩
    InBudget (entry.run (machineWithin 4) (w.withBudget (some 3))) ∧
    ¬InBudget (entry.run (machineWithin 4) (w.withBudget (some 2))) ∧
    entry.run (machineWithin 4) (w.withBudget none) =
      mapWorld (World.withBudget none) (entry.run (machineWithin 4) (w.withBudget (some 3))) := by
  intro entry w
  have hin : InBudget (entry.run (machineWithin 4) (w.withBudget (some 3))) := by decide +kernel
  have hout : ¬InBudget (entry.run (machineWithin 4) (w.withBudget (some 2))) := by
    decide +kernel
  exact ⟨hin, hout, run_of_larger_budget entry 4 w 3 none (fun _ h ↦ nomatch h) hin⟩

end Nodecraft.Sandbox
