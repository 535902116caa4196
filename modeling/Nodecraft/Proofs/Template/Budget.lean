import Nodecraft.Proofs.Sandbox.Tally
import Nodecraft.Proofs.Template.Rules

/-!
# What the budget of steps means for a rendering

A rendering evaluates its expressions one after the other, and each of them is a run of its own that
counts its steps afresh. So the budget bounds each of them and not the rendering as a whole:
`rendering_ends_at_budget` says exactly when a rendering ends at its budget, and compares it with the
same rendering as one run, and `twoSteps_overruns` is a rendering that takes more steps than its
budget.
-/

set_option autoImplicit false

namespace Nodecraft

open Script Sandbox

namespace Template

/-- Rendering is tallied as scripts are. -/
theorem respects_tallied (n : Nat) :
    Respects (fun _ x _ ↦ x.Counted ∧ x.Tallied) (machineWithin n) (machineWithin n) := by
  have hR : Congruence (fun _ x _ ↦ x.Counted ∧ x.Tallied) fun _ ↦ True :=
    .ofNeutral (fun hx ↦ ⟨.of_neutral hx, .of_neutral hx⟩)
      (fun hx hf ↦ ⟨hx.1.bind fun a ↦ (hf a).1, hx.2.bind fun a ↦ (hf a).2⟩)
      (fun hx ↦ ⟨hx.1.entering, .entering hx.1⟩)
      (fun hx hf ↦ ⟨hx.1.catching fun e he ↦ (hf e he).1, hx.2.catching fun e he ↦ (hf e he).2⟩)
  rw [← probe_never]
  refine .of_asked (Machine.asked_of_runs hR ⟨.unfinished, .unfinished⟩ (fun q x _ _ hx ↦ ?_)
    (fun n entry ↦ ?_) n) (fun _ he ↦ ⟨.of_neutral (.raise he), .of_neutral (.raise he)⟩)
    ⟨.unfinished, .unfinished⟩
  · rwa [Action.stopping_never]
  · rw [probe_never]
    exact ⟨Machine.Related.run (machine_counted n) entry, entry.tallied_run n⟩

/-- A rendering that has its steps left wherever an expression takes one does not end at its
budget. -/
theorem respects_avoids (n : Nat) :
    Respects (fun _ x y ↦ x.Avoids Failure.IsBudget y) (probe Stop.budget n) (machineWithin n) := by
  have h := Probing.avoids_budget.related n
  rw [probe_never] at h
  exact .of_asked (fun size ↦ (h size).asked)
    (fun _ he ↦ .of_neutral Failure.uncatchable_isBudget (.raise he)) fun _ h ↦ h.elim

/-- A rendering that comes to a step that the budget does not allow ends at the budget. -/
theorem respects_keeps (n : Nat) :
    Respects (fun _ x y ↦ x.Balanced ∧ x.Keeps Failure.IsBudget 0 y) (machineWithin n)
      (probe Stop.budget n) := by
  rw [← probe_never]
  refine .of_asked (Machine.asked_of_runs (.keeps Failure.uncatchable_isBudget 0)
    ⟨.failure _, .refl _⟩ (fun q x y hq hxy ↦ ?_) (fun n entry ↦ ?_) n)
    (fun _ _ ↦ ⟨.failure _, .refl _⟩) ⟨.failure _, .refl _⟩
  · exact ⟨hxy.1.stopping _, hxy.2.stopping_of_not (Stop.not_budget hq)⟩
  · rw [probe_never]
    exact ⟨entry.balanced_run n, entry.keeps_budget n⟩

/-- A rendering runs each of its expressions as a run of its own, with a budget of its own. It ends
at the budget exactly if one of them comes to a step that the budget does not allow. It then needs
more steps than that in all, and if it does not end at the budget, then it is what it would be in
one run without a budget, in an entry that takes no room. If all of it were one such run, it would end
at the budget exactly if it needs more steps in all. -/
theorem rendering_ends_at_budget (n : Nat) (t : Template) (registered : Registered) (state : Value)
    (w : World) (b : Nat) (hw : w.run.nesting = 0) (hb : w.run.limits.maxSteps = some b)
    (h : Finished (runOn (machineWithin n) t registered state w)) :
    (EndsWith Failure.IsBudget (runOn (machineWithin n) t registered state w) ↔
      ¬Finished (runOn (probe Stop.budget n) t registered state w)) ∧
    (EndsWith Failure.IsBudget (runOn (machineWithin n) t registered state w) →
      b < (runOn (machineWithin n) t registered state).stepsOf w) ∧
    (¬EndsWith Failure.IsBudget (runOn (machineWithin n) t registered state w) →
      ∃ steps, Action.entering (runOn (machineWithin n) t registered state)
          ((w.ignoring 1).withBudget none) =
        mapWorld (fun w' ↦ (w'.counting steps 1).leave)
          (runOn (machineWithin n) t registered state w)) ∧
    (Finished (Action.entering (runOn (machineWithin n) t registered state) (w.ignoring 1)) →
      (EndsWith Failure.IsBudget
          (Action.entering (runOn (machineWithin n) t registered state) (w.ignoring 1)) ↔
        b < (runOn (machineWithin n) t registered state).stepsOf w)) := by
  obtain ⟨hcounted, htallied⟩ := (respects_tallied n).run registered t state
  have hin (hends : ¬EndsWith Failure.IsBudget (runOn (machineWithin n) t registered state w)) :=
    inBudget_iff.2 ⟨h, hends⟩
  refine ⟨⟨fun hends hfin ↦ ?_, fun hstop ↦ ?_⟩, htallied.lt_stepsOf hw hb,
    fun hends ↦ htallied.entering_eq hw hb (hin hends), hcounted.endsWith_iff hw hb⟩
  · have havoids := (respects_avoids n).run registered t state w hfin
    exact havoids.2 (havoids.1 ▸ hends)
  · rcases ((respects_keeps n).run registered t state).2 w (Nat.zero_le _) h with hends | hprobe
    · exact hends
    · exact absurd (hprobe ▸ h) hstop

/-- Two interpolations that each take one step. -/
def twoSteps : Template :=
  let call :=
    Expr.call (.function (.make none [] none [.return (some (.literal (.bool true)))] false)) [] false
  ⟨[.interpolated [.shown call, .shown call]], #[]⟩

/-- A world of a run with one step for each entry. -/
def oneStep : World := ⟨Heap.empty, Run.start ⟨1, some 1, fun _ _ ↦ true⟩ .undefined⟩

/-- As one run the two interpolations would not be rendered, and as they are, they are. -/
theorem rendering_ends_at_budget_twoSteps :
    ¬EndsWith Failure.IsBudget (runOn (machineWithin 9) twoSteps [] .undefined oneStep) ∧
    EndsWith Failure.IsBudget
      (Action.entering (runOn (machineWithin 9) twoSteps [] .undefined) (oneStep.ignoring 1)) := by
  have h := rendering_ends_at_budget 9 twoSteps [] .undefined oneStep 1 rfl rfl (by decide +kernel)
  exact ⟨fun hends ↦ h.1.1 hends (by decide +kernel),
    (h.2.2.2 (by decide +kernel)).2 (by decide +kernel)⟩

/-- A rendering that ended under one bound on nesting is the same under every larger one. -/
theorem respects_refines {n n' : Nat} (hn : n ≤ n') :
    Respects (fun _ x y ↦ x.Refines y) (machineWithin n) (machineWithin n') :=
  .of_asked (fun size ↦ (machineWithin_refines hn size).asked) (fun _ _ ↦ .refl _)
    (.of_unfinished _)

/-- A rendering of two steps does not fail under a budget of one. -/
theorem twoSteps_overruns : oneStep.run.nesting = 0 ∧ oneStep.run.limits.maxSteps = some 1 ∧
    ¬EndsWith (fun _ ↦ True) (twoSteps.run [] .undefined oneStep) ∧
    1 < (twoSteps.run [] .undefined).stepsOf oneStep := by
  have hn : 9 ≤ patience :=
    Nat.le_trans (by decide : 9 ≤ Nat.pow 2 4) (Nat.pow_le_pow_right (Nat.succ_pos 1) (by decide))
  have hrefines : (runOn (machineWithin 9) twoSteps [] .undefined).Refines
      (twoSteps.run [] .undefined) := (respects_refines hn).run [] twoSteps .undefined
  have hrun := hrefines oneStep (by decide +kernel)
  have hsteps := hrefines.entering ((oneStep.ignoring 1).withBudget none) (by decide +kernel)
  refine ⟨rfl, rfl, ?_, ?_⟩
  · rw [hrun]
    decide +kernel
  · unfold Action.stepsOf
    rw [hsteps]
    decide +kernel

end Template

end Nodecraft
