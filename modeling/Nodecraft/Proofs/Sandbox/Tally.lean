import Nodecraft.Proofs.Sandbox.LimitErrors

/-!
# Counting the steps of a run, and of several in a row

A run counts its steps from its outermost entry on. So an action that begins inside of an entry
goes on counting, and without a budget all its steps add up, whereas an action of several runs in
a row starts afresh with each of them.

`Action.Counted` compares an action inside of an entry with the same action in a world that has
counted further and has no budget (`World.ahead`): a budget makes no difference to an action that
stays within it, and an action that ends at its budget goes on to count more without one.
`Action.Tallied` compares an action between runs with the same action inside of an entry without
a budget (`World.counting`), which counts the steps of all its runs together.
-/

set_option autoImplicit false

namespace Nodecraft.Sandbox

open Script Evaluation

/-- The limits on a native stack on which the outermost entries, so many of them, take no room. -/
def Limits.ignoring (entries : Nat) (limits : Limits) : Limits :=
  { limits with hasRoom := fun n calls ↦ n ≤ entries || limits.hasRoom (n - entries) calls }

def World.ignoring (entries : Nat) (w : World) : World :=
  { w with run := { w.run with limits := w.run.limits.ignoring entries } }

theorem Limits.ignoring_ignoring (entries more : Nat) (limits : Limits) :
    (limits.ignoring entries).ignoring more = limits.ignoring (entries + more) := by
  have hroom (n calls : Nat) : ((limits.ignoring entries).ignoring more).hasRoom n calls =
      (limits.ignoring (entries + more)).hasRoom n calls := by
    unfold ignoring
    dsimp only
    rw [← Bool.or_assoc, ← Bool.decide_or, Nat.sub_sub, Nat.add_comm more entries]
    congr 2
    exact propext (by omega)
  unfold ignoring at hroom ⊢
  dsimp only at hroom ⊢
  congr 1
  funext n calls
  exact hroom n calls

/-- The world of a run without a budget, after more steps and inside of more entries, which take no
room. -/
def World.ahead (steps entries : Nat) (w : World) : World :=
  { w with run := { w.run with
      limits := { w.run.limits.ignoring entries with maxSteps := none }
      steps := w.run.steps + steps
      nesting := w.run.nesting + entries } }

/-- What keeps the frame stays inside of its entries. -/
theorem World.SameFrame.inside {w w' : World} (h : w.SameFrame w') (hw : 0 < w.run.nesting) :
    0 < w'.run.nesting := by
  rwa [h.nesting]

/-- What keeps the frame keeps the budget. -/
theorem World.SameFrame.budget {w w' : World} (h : w.SameFrame w') {b : Nat}
    (hb : w.run.limits.maxSteps = some b) : w'.run.limits.maxSteps = some b := by
  rwa [h.limits]

/-- What an action inside of an entry does, and how many steps it counts, with a budget and
without. -/
structure Action.Counted {α : Type} (x : Action α) : Prop extends x.Metered 1 where
  grows {w : World} : 0 < w.run.nesting → w.run.steps ≤ (finalWorld (x w)).run.steps
  within {w : World} {b : Nat} : 0 < w.run.nesting → w.run.limits.maxSteps = some b →
    w.run.steps ≤ b → InBudget (x w) → (finalWorld (x w)).run.steps ≤ b
  ahead {w : World} {b : Nat} (steps entries : Nat) : 0 < w.run.nesting →
    w.run.limits.maxSteps = some b → InBudget (x w) →
    x (w.ahead steps entries) = mapWorld (World.ahead steps entries) (x w)
  beyond {w w' : World} {b c : Nat} (steps entries : Nat) : 0 < w.run.nesting →
    w.run.limits.maxSteps = some b → x w = .error (.raised (.stepBudget c)) w' →
    b + steps < (finalWorld (x (w.ahead steps entries))).run.steps

/-- The entries added outside take no room. -/
theorem World.hasRoom_ahead (steps entries : Nat) {w : World} (hw : 0 < w.run.nesting) :
    (w.ahead steps entries).run.hasRoom = w.run.hasRoom := by
  have hne : w.run.nesting ≠ 0 := Nat.ne_of_gt hw
  have hne' : w.run.nesting + entries ≠ 0 := Nat.ne_of_gt (Nat.lt_add_right entries hw)
  have hnot : ¬w.run.nesting + entries ≤ entries := by omega
  change (w.run.nesting + entries == 0 || (decide (w.run.nesting + entries ≤ entries) ||
    w.run.limits.hasRoom (w.run.nesting + entries - entries) w.run.depth)) = w.run.hasRoom
  unfold Run.hasRoom
  rw [beq_false_of_ne hne, beq_false_of_ne hne', decide_eq_false hnot, Nat.add_sub_cancel]
  rfl

/-- Entering goes on counting, so it does not matter when the count is moved ahead. -/
theorem World.enter_ahead {w : World} (hw : 0 < w.run.nesting) (steps entries : Nat) :
    (w.ahead steps entries).enter = w.enter.ahead steps entries := by
  have hne : w.run.nesting ≠ 0 := Nat.ne_of_gt hw
  have hne' : w.run.nesting + entries ≠ 0 := Nat.ne_of_gt (Nat.lt_add_right entries hw)
  unfold World.enter World.ahead
  simp only [if_neg hne, if_neg hne', Nat.add_right_comm]

theorem World.leave_ahead {w : World} (hw : 0 < w.run.nesting) (steps entries : Nat) :
    (w.ahead steps entries).leave = w.leave.ahead steps entries := by
  unfold World.leave World.ahead
  simp only [Nat.sub_add_comm hw]

/-- Only the outermost entry starts the count afresh. -/
theorem World.steps_enter {w : World} (hw : 0 < w.run.nesting) :
    w.enter.run.steps = w.run.steps :=
  if_neg (Nat.ne_of_gt hw)

/-- An action whose outcome changes with its world changes it in the same way when it is left. -/
theorem mapWorld_comm {α : Type} {f g f' g' : World → World} {r : Outcome α}
    (h : f (g (finalWorld r)) = g' (f' (finalWorld r))) :
    mapWorld f (mapWorld g r) = mapWorld g' (mapWorld f' r) := by
  cases r with
  | ok a w => exact congrArg (EStateM.Result.ok a) h
  | error e w => exact congrArg (EStateM.Result.error e) h

/-- What ends at the budget is not within it. -/
theorem not_inBudget {α : Type} {r : Outcome α} (h : EndsWith Failure.IsBudget r) : ¬InBudget r :=
  fun hin ↦ (inBudget_iff.1 hin).2 h

/-- What comes to an end stays within its budget or ends at it. -/
theorem InBudget.or_budget {α : Type} {r : Outcome α} (h : Finished r) :
    InBudget r ∨ ∃ c w, r = .error (.raised (.stepBudget c)) w := by
  cases r with
  | ok a w => exact .inl trivial
  | error e w =>
    cases e with
    | raised e =>
      cases e with
      | stepBudget c => exact .inr ⟨c, w, rfl⟩
      | _ => exact .inl trivial
    | unfinished => exact h.elim
    | overlap => exact .inl trivial

/-- Inside of an entry, steps are only counted up. -/
def Action.Grows {α : Type} (x : Action α) : Prop :=
  ∀ ⦃w : World⦄, 0 < w.run.nesting → w.run.steps ≤ (finalWorld (x w)).run.steps

namespace Action.Grows

variable {α β : Type}

theorem of_neutral {x : Action α} (hx : x.Neutral fun _ ↦ True) : x.Grows :=
  fun w _ ↦ Nat.le_of_eq (congrArg Counters.steps (hx.counters w)).symm

theorem bind {x : Action α} {f : α → Action β} (hbalanced : x.Balanced) (hx : x.Grows)
    (hf : ∀ a, (f a).Grows) : (x >>= f).Grows := by
  intro w hw
  have hfirst := hx hw
  rw [Action.bind_apply]
  cases hxw : x w with
  | ok a w₁ =>
    have hframe := hbalanced.of_ok hxw
    rw [hxw] at hfirst
    exact Nat.le_trans hfirst (hf a (hframe.inside hw))
  | error e w₁ => rwa [hxw] at hfirst

theorem catching {x : Action α} {f : ScriptError → Action α} (hbalanced : x.Balanced)
    (hx : x.Grows) (hf : ∀ e, e.isCatchable = true → (f e).Grows) :
    (Action.catching x f).Grows := by
  intro w hw
  by_cases hc : Catchable (x w)
  · have hfirst := hx hw
    obtain ⟨e, w₁, hxw, he⟩ := hc
    have hframe := hbalanced.of_error hxw
    rw [hxw] at hfirst
    rw [Action.catching_of_catchable hxw he]
    exact Nat.le_trans hfirst (hf e he (hframe.inside hw))
  · rw [Action.catching_of_not hc]
    exact hx hw

end Action.Grows

namespace Action.Counted

variable {α β : Type}

theorem of_neutral {x : Action α} (hx : x.Neutral fun _ ↦ True) : x.Counted where
  toMetered := .of_neutral hx
  grows hw := Grows.of_neutral hx hw
  within {w b} _ _ hle _ := Nat.le_trans (Nat.le_of_eq (congrArg Counters.steps (hx.counters w))) hle
  ahead {w b} steps entries _ _ _ := hx.commute (g := World.ahead steps entries)
    (c := fun c ↦ ⟨{ c.limits.ignoring entries with maxSteps := none }, c.depth, c.steps + steps,
      c.nesting + entries⟩) (fun _ ↦ rfl) w
  beyond _ _ _ _ h := by
    obtain ⟨e, h, he⟩ := hx.failure h
    cases h
    exact nomatch he

theorem unfinished : (throw .unfinished : Action α).Counted where
  toMetered := .unfinished
  grows _ := Nat.le_refl _
  within _ _ _ h := h.elim
  ahead _ _ _ _ h := h.elim
  beyond _ _ _ _ h := nomatch h

theorem overlap : (throw .overlap : Action α).Counted where
  toMetered := .overlap
  grows _ := Nat.le_refl _
  within _ _ hle _ := hle
  ahead _ _ _ _ _ := rfl
  beyond _ _ _ _ h := nomatch h

theorem step : Action.step.Counted where
  toMetered := .step
  grows {w} _ := by
    have hle : w.run.steps ≤ w.tick.run.steps := Nat.le_succ _
    by_cases hleft : w.run.noStepLeft
    · obtain ⟨b, hstep⟩ := Action.step_of_noStepLeft hleft
      rwa [hstep]
    · rwa [Action.step_of_stepLeft hleft]
  within {w b} _ hb _ h := by
    rw [Action.step_apply, hb] at h ⊢
    dsimp only at h ⊢
    split at h
    · exact h.elim
    · rename_i hlt
      rw [if_neg hlt]
      exact Nat.lt_of_not_le hlt
  ahead {w b} steps entries _ hb h := by
    rw [Action.step_apply, hb] at h
    rw [Action.step_apply, Action.step_apply, hb]
    dsimp only at h ⊢
    split at h
    · exact h.elim
    · rename_i hlt
      rw [if_neg hlt]
      change EStateM.Result.ok () _ = EStateM.Result.ok () _
      congr 1
      unfold World.ahead World.tick
      simp only [Nat.add_right_comm]
  beyond {w w' b c} steps entries _ hb h := by
    have hle : b ≤ w.run.steps := by
      rw [Action.step_apply, hb] at h
      dsimp only at h
      split at h
      · assumption
      · exact nomatch h
    rw [Action.step_apply]
    exact Nat.lt_succ_of_le (Nat.add_le_add_right hle steps)

theorem room : Action.room.Counted where
  toMetered := .room
  grows {w} _ := Nat.le_of_eq (by rw [finalWorld_room])
  within {w b} _ _ hle _ := by rwa [finalWorld_room]
  ahead {w b} steps entries hw _ _ := by
    have hsame := World.hasRoom_ahead steps entries hw
    by_cases h : w.run.hasRoom
    · rw [room_of_hasRoom h, room_of_hasRoom (hsame.trans h)]
      rfl
    · rw [room_of_not h, room_of_not (hsame ▸ h)]
      rfl
  beyond {w w' b c} _ _ _ _ h := by
    by_cases hroom : w.run.hasRoom
    · rw [room_of_hasRoom hroom] at h
      exact nomatch h
    · rw [room_of_not hroom] at h
      cases h

theorem bind {x : Action α} {f : α → Action β} (hx : x.Counted) (hf : ∀ a, (f a).Counted) :
    (x >>= f).Counted where
  toMetered := hx.toMetered.bind fun a ↦ (hf a).toMetered
  grows hw := Grows.bind hx.balanced (fun _ ↦ hx.grows) (fun a _ ↦ (hf a).grows) hw
  within {w b} hw hb hle h := by
    have hfirst := hx.within hw hb hle
    rw [Action.bind_apply] at h ⊢
    cases hxw : x w with
    | ok a w₁ =>
      have hframe := hx.balanced.of_ok hxw
      rw [hxw] at h hfirst
      exact (hf a).within (hframe.inside hw) (hframe.budget hb) (hfirst trivial) h
    | error e w₁ =>
      rw [hxw] at h hfirst
      exact hfirst h.of_error
  ahead {w b} steps entries hw hb h := by
    have hfirst := hx.ahead steps entries hw hb
    rw [Action.bind_apply] at h
    rw [Action.bind_apply, Action.bind_apply]
    cases hxw : x w with
    | ok a w₁ =>
      have hframe := hx.balanced.of_ok hxw
      rw [hxw] at h hfirst
      rw [hfirst trivial]
      exact (hf a).ahead steps entries (hframe.inside hw) (hframe.budget hb) h
    | error e w₁ =>
      rw [hxw] at h hfirst
      rw [hfirst h.of_error]
      rfl
  beyond {w w' b c} steps entries hw hb h := by
    have hw' : 0 < (w.ahead steps entries).run.nesting := Nat.lt_add_right entries hw
    rw [Action.bind_apply] at h ⊢
    cases hxw : x w with
    | ok a w₁ =>
      have hfirst := hx.ahead steps entries hw hb (by rw [hxw]; trivial)
      have hframe := hx.balanced.of_ok hxw
      rw [hxw] at h hfirst
      rw [hfirst]
      exact (hf a).beyond steps entries (hframe.inside hw) (hframe.budget hb) h
    | error e w₁ =>
      rw [hxw] at h
      obtain ⟨rfl, rfl⟩ := EStateM.Result.error.inj h
      have hfirst := hx.beyond steps entries hw hb hxw
      cases hxa : x (w.ahead steps entries) with
      | ok a w₂ =>
        have hframe := hx.balanced.of_ok hxa
        rw [hxa] at hfirst
        exact Nat.lt_of_lt_of_le hfirst ((hf a).grows (hframe.inside hw'))
      | error e w₂ => rwa [hxa] at hfirst

theorem entering {x : Action α} (hx : x.Counted) : (Action.entering x).Counted where
  toMetered := hx.toMetered.entering
  grows {w} hw := by
    rw [Action.entering_apply, finalWorld_mapWorld]
    have hgrows := hx.grows (w := w.enter) (Nat.succ_pos _)
    rwa [World.steps_enter hw] at hgrows
  within {w b} hw hb hle h := by
    rw [Action.entering_apply] at h ⊢
    rw [finalWorld_mapWorld]
    exact hx.within (w := w.enter) (Nat.succ_pos _) hb (by rwa [World.steps_enter hw])
      h.of_mapWorld
  ahead {w b} steps entries hw hb h := by
    rw [Action.entering_apply] at h
    rw [Action.entering_apply, Action.entering_apply, World.enter_ahead hw,
      hx.ahead (w := w.enter) steps entries (Nat.succ_pos _) hb h.of_mapWorld]
    exact mapWorld_comm
      (World.leave_ahead ((hx.balanced w.enter).inside (Nat.succ_pos _)) steps entries)
  beyond {w w' b c} steps entries hw hb h := by
    rw [Action.entering_apply] at h ⊢
    rw [finalWorld_mapWorld, World.enter_ahead hw]
    cases hxw : x w.enter with
    | ok a w₁ =>
      rw [hxw] at h
      exact nomatch h
    | error e w₁ =>
      rw [hxw] at h
      obtain ⟨rfl, -⟩ := EStateM.Result.error.inj h
      exact hx.beyond (w := w.enter) steps entries (Nat.succ_pos _) hb hxw

theorem calling {x : Action α} (hx : x.Counted) : (Action.calling x).Counted where
  toMetered := hx.toMetered.calling
  grows {w} hw := by
    by_cases hdepth : w.run.depth < w.run.limits.maxCallDepth
    · rw [Action.calling_of_lt _ hdepth, finalWorld_mapWorld]
      exact hx.grows (w := w.descend) hw
    · rw [Action.calling_of_le _ (Nat.le_of_not_lt hdepth)]
      exact Nat.le_refl _
  within {w b} hw hb hle h := by
    by_cases hdepth : w.run.depth < w.run.limits.maxCallDepth
    · rw [Action.calling_of_lt _ hdepth] at h ⊢
      rw [finalWorld_mapWorld]
      exact hx.within (w := w.descend) hw hb hle h.of_mapWorld
    · rw [Action.calling_of_le _ (Nat.le_of_not_lt hdepth)]
      exact hle
  ahead {w b} steps entries hw hb h := by
    by_cases hdepth : w.run.depth < w.run.limits.maxCallDepth
    · rw [Action.calling_of_lt _ hdepth] at h
      have hahead : x (w.ahead steps entries).descend = _ :=
        hx.ahead (w := w.descend) steps entries hw hb h.of_mapWorld
      rw [Action.calling_of_lt (w := w.ahead steps entries) _ hdepth, Action.calling_of_lt _ hdepth,
        hahead]
      exact mapWorld_comm rfl
    · have hdepth' := Nat.le_of_not_lt hdepth
      rw [Action.calling_of_le (w := w.ahead steps entries) _ hdepth',
        Action.calling_of_le _ hdepth']
      rfl
  beyond {w w' b c} steps entries hw hb h := by
    by_cases hdepth : w.run.depth < w.run.limits.maxCallDepth
    · rw [Action.calling_of_lt _ hdepth] at h
      rw [Action.calling_of_lt (w := w.ahead steps entries) _ hdepth, finalWorld_mapWorld]
      cases hxw : x w.descend with
      | ok a w₁ =>
        rw [hxw] at h
        exact nomatch h
      | error e w₁ =>
        rw [hxw] at h
        obtain ⟨rfl, -⟩ := EStateM.Result.error.inj h
        exact hx.beyond (w := w.descend) steps entries hw hb hxw
    · rw [Action.calling_of_le _ (Nat.le_of_not_lt hdepth)] at h
      exact nomatch h

theorem catching {x : Action α} {f : ScriptError → Action α} (hx : x.Counted)
    (hf : ∀ e, e.isCatchable = true → (f e).Counted) : (Action.catching x f).Counted where
  toMetered := hx.toMetered.catching fun e he ↦ (hf e he).toMetered
  grows hw := Grows.catching hx.balanced (fun _ ↦ hx.grows) (fun e he _ ↦ (hf e he).grows) hw
  within {w b} hw hb hle h := by
    by_cases hc : Catchable (x w)
    · have hfirst := hx.within hw hb hle (.of_catchable hc)
      obtain ⟨e, w₁, hxw, he⟩ := hc
      have hframe := hx.balanced.of_error hxw
      rw [hxw] at hfirst
      rw [Action.catching_of_catchable hxw he] at h ⊢
      exact (hf e he).within (hframe.inside hw) (hframe.budget hb) hfirst h
    · rw [Action.catching_of_not hc] at h ⊢
      exact hx.within hw hb hle h
  ahead {w b} steps entries hw hb h := by
    by_cases hc : Catchable (x w)
    · have hfirst := hx.ahead steps entries hw hb (.of_catchable hc)
      obtain ⟨e, w₁, hxw, he⟩ := hc
      have hframe := hx.balanced.of_error hxw
      rw [hxw] at hfirst
      rw [Action.catching_of_catchable hxw he] at h
      rw [Action.catching_of_catchable hxw he, Action.catching_of_catchable hfirst he]
      exact (hf e he).ahead steps entries (hframe.inside hw) (hframe.budget hb) h
    · rw [Action.catching_of_not hc] at h
      have hfirst := hx.ahead steps entries hw hb h
      rw [Action.catching_of_not hc, Action.catching_of_not, hfirst]
      rwa [hfirst, catchable_mapWorld]
  beyond {w w' b c} steps entries hw hb h := by
    by_cases hc : Catchable (x w)
    · have hfirst := hx.ahead steps entries hw hb (.of_catchable hc)
      obtain ⟨e, w₁, hxw, he⟩ := hc
      have hframe := hx.balanced.of_error hxw
      rw [hxw] at hfirst
      rw [Action.catching_of_catchable hxw he] at h
      rw [Action.catching_of_catchable hfirst he]
      exact (hf e he).beyond steps entries (hframe.inside hw) (hframe.budget hb) h
    · rw [Action.catching_of_not hc] at h
      have hfirst := hx.beyond steps entries hw hb h
      by_cases hca : Catchable (x (w.ahead steps entries))
      · obtain ⟨e, w₁, hxa, he⟩ := hca
        have hframe := hx.balanced.of_error hxa
        rw [hxa] at hfirst
        rw [Action.catching_of_catchable hxa he]
        exact Nat.lt_of_lt_of_le hfirst
          ((hf e he).grows (hframe.inside (Nat.lt_add_right entries hw)))
      · rwa [Action.catching_of_not hca]

/-- An action and what follows it, which is begun whether the action failed or not. -/
theorem grows_finishing {x f : Action Completion} (hx : x.Counted) (hf : f.Counted) {w : World}
    (hw : 0 < w.run.nesting) :
    (finalWorld (x w)).run.steps ≤ (finalWorld (Evaluation.finalizing x f w)).run.steps := by
  rcases settled_or_failure (x w) with hs | ⟨e, w₁, hxw, he⟩
  · rw [finalizing_of_settled hs, finalWorld_finishing]
    exact hf.grows ((hx.balanced w).inside hw)
  · rw [finalizing_of_failure hxw he]
    exact Nat.le_of_eq (congrArg (fun r ↦ (finalWorld r).run.steps) hxw)

theorem finalizing {x f : Action Completion} (hx : x.Counted) (hf : f.Counted)
    (hxf : x.Finalized f) : (Evaluation.finalizing x f).Counted where
  toMetered := hx.toMetered.finalizing hf.toMetered hxf
  grows {w} hw := Nat.le_trans (hx.grows hw) (hx.grows_finishing hf hw)
  within {w b} hw hb hle h := by
    rcases settled_or_failure (x w) with hs | ⟨e, w₁, hxw, he⟩
    · have hframe := hx.balanced w
      rw [finalizing_of_settled hs] at h ⊢
      have hfirst := hx.within hw hb hle
        (Metered.inBudget_of_finalizing hx.toMetered hxf hw hs h)
      rw [finalWorld_finishing]
      exact hf.within (hframe.inside hw) (hframe.budget hb) hfirst (.of_finishing h)
    · rw [finalizing_of_failure hxw he] at h ⊢
      have hfirst := hx.within hw hb hle (by rwa [hxw])
      rwa [hxw] at hfirst
  ahead {w b} steps entries hw hb h := by
    rcases settled_or_failure (x w) with hs | ⟨e, w₁, hxw, he⟩
    · have hframe := hx.balanced w
      rw [finalizing_of_settled hs] at h
      have hfirst := hx.ahead steps entries hw hb
        (Metered.inBudget_of_finalizing hx.toMetered hxf hw hs h)
      have hsecond := hf.ahead (w := finalWorld (x w)) steps entries (hframe.inside hw)
        (hframe.budget hb) (.of_finishing h)
      rw [finalizing_of_settled hs, finalizing_of_settled (by rwa [hfirst, settled_mapWorld]),
        hfirst, finalWorld_mapWorld, hsecond, finishing_mapWorld]
    · rw [finalizing_of_failure hxw he] at h
      have hfirst := hx.ahead steps entries hw hb (by rwa [hxw])
      rw [hxw] at hfirst
      rw [finalizing_of_failure hxw he, finalizing_of_failure hfirst he]
      rfl
  beyond {w w' b c} steps entries hw hb h := by
    have hw' : 0 < (w.ahead steps entries).run.nesting := Nat.lt_add_right entries hw
    rcases settled_or_failure (x w) with hs | ⟨e, w₁, hxw, he⟩
    · have hframe := hx.balanced w
      rcases InBudget.or_budget hs.finished with hin | ⟨d, w₁, hxw⟩
      · -- the finalizer comes to the budget
        have hfirst := hx.ahead steps entries hw hb hin
        rw [finalizing_of_settled hs] at h
        obtain ⟨w₂, hfw⟩ : ∃ w₂, f (finalWorld (x w)) = .error (.raised (.stepBudget c)) w₂ := by
          cases hfw : f (finalWorld (x w)) with
          | ok d w₂ =>
            rw [hfw] at h
            cases d with
            | normal =>
              cases hxw : x w with
              | ok d w₁ => rw [hxw] at h; exact nomatch h
              | error e w₁ =>
                rw [hxw] at h hin
                obtain ⟨rfl, -⟩ := EStateM.Result.error.inj h
                exact hin.elim
            | _ => exact nomatch h
          | error e w₂ =>
            rw [hfw] at h
            obtain ⟨rfl, rfl⟩ := EStateM.Result.error.inj h
            exact ⟨w₂, rfl⟩
        have hsecond := hf.beyond (w := finalWorld (x w)) steps entries (hframe.inside hw)
          (hframe.budget hb) hfw
        rwa [finalizing_of_settled (by rwa [hfirst, settled_mapWorld]), finalWorld_finishing,
          hfirst, finalWorld_mapWorld]
      · exact Nat.lt_of_lt_of_le (hx.beyond steps entries hw hb hxw) (hx.grows_finishing hf hw')
    · rw [finalizing_of_failure hxw he] at h
      exact Nat.lt_of_lt_of_le (hx.beyond steps entries hw hb (hxw.trans h))
        (hx.grows_finishing hf hw')

end Action.Counted

/-- Sequencing, catching and calling keep what is counted. -/
theorem Congruence.counted : Congruence (fun _ x _ ↦ x.Counted) fun _ ↦ True :=
  .ofNeutral .of_neutral .bind .entering .catching

theorem Probing.counted : Probing (fun _ x _ => x.Counted) Stop.never Stop.never :=
  Congruence.counted.probing .of_neutral .step .room (fun hx hf hxf _ ↦ .finalizing hx hf hxf)
    .calling .overlap .unfinished

/-- Whatever the machine does inside of an entry is counted. -/
theorem machine_counted (n size : Nat) : Machine.Related (fun _ x _ ↦ x.Counted)
    (fun _ ↦ True) size (machineWithin n) (machineWithin n) := by
  rw [← probe_never]
  exact Probing.counted.related n size

/-! ### Several runs in a row -/

/-- The world inside of an entry, which takes no room, of a run without a budget that has counted some
steps. -/
def World.counting (steps entries : Nat) (w : World) : World :=
  { w with run := { w.run with
      limits := { w.run.limits.ignoring entries with maxSteps := none }
      steps := steps
      nesting := w.run.nesting + entries } }

/-- What an action does between runs, under a budget for each of its own runs, and how many steps
they count together. -/
structure Action.Tallied {α : Type} (x : Action α) : Prop where
  balanced : x.Balanced
  grows {w : World} : 0 < w.run.nesting → w.run.steps ≤ (finalWorld (x w)).run.steps
  counting {w : World} {b entries : Nat} (steps : Nat) : w.run.nesting = 0 →
    w.run.limits.maxSteps = some b → 0 < entries → InBudget (x w) →
    ∃ steps', x (w.counting steps entries) = mapWorld (World.counting steps' entries) (x w)
  beyond {w w' : World} {b c entries : Nat} (steps : Nat) : w.run.nesting = 0 →
    w.run.limits.maxSteps = some b → 0 < entries →
    x w = .error (.raised (.stepBudget c)) w' →
    b + steps < (finalWorld (x (w.counting steps entries))).run.steps

/-- The run that counts on is inside of an entry. -/
theorem World.inside_counting (w : World) (steps : Nat) {entries : Nat} (h : 0 < entries) :
    0 < (w.counting steps entries).run.nesting :=
  Nat.add_pos_right _ h

/-- Where a run of its own would begin, the run that counts on goes on. -/
theorem World.enter_counting {w : World} (hw : w.run.nesting = 0) (steps : Nat) {entries : Nat}
    (h : 0 < entries) : (w.counting steps entries).enter = w.enter.ahead steps entries := by
  have hne : w.run.nesting + entries ≠ 0 := Nat.ne_of_gt (Nat.add_pos_right _ h)
  unfold World.enter World.counting World.ahead
  simp only [if_neg hne, if_pos hw, Nat.zero_add, Nat.add_right_comm]

/-- What the run has counted is added to what was counted before it. -/
theorem World.leave_counting {w : World} (hw : 0 < w.run.nesting) (steps entries : Nat) :
    (w.ahead steps entries).leave = w.leave.counting (w.run.steps + steps) entries := by
  unfold World.leave World.ahead World.counting
  simp only [Nat.sub_add_comm hw]

namespace Action.Tallied

variable {α β : Type}

theorem of_neutral {x : Action α} (hx : x.Neutral fun _ ↦ True) : x.Tallied where
  balanced := .of_neutral hx
  grows hw := Grows.of_neutral hx hw
  counting {w b entries} steps _ _ _ _ := ⟨steps, hx.commute (g := World.counting steps entries)
    (c := fun c ↦
      ⟨{ c.limits.ignoring entries with maxSteps := none }, c.depth, steps, c.nesting + entries⟩)
    (fun _ ↦ rfl) w⟩
  beyond _ _ _ _ h := by
    obtain ⟨e, h, he⟩ := hx.failure h
    cases h
    exact nomatch he

theorem unfinished : (throw .unfinished : Action α).Tallied where
  balanced := .failure _
  grows _ := Nat.le_refl _
  counting _ _ _ _ h := h.elim
  beyond _ _ _ _ h := nomatch h

theorem bind {x : Action α} {f : α → Action β} (hx : x.Tallied) (hf : ∀ a, (f a).Tallied) :
    (x >>= f).Tallied where
  balanced := hx.balanced.bind fun a ↦ (hf a).balanced
  grows hw := Grows.bind hx.balanced (fun _ ↦ hx.grows) (fun a _ ↦ (hf a).grows) hw
  counting {w b entries} steps hw hb he h := by
    have hfirst := hx.counting steps hw hb he
    rw [Action.bind_apply] at h
    rw [Action.bind_apply, Action.bind_apply]
    cases hxw : x w with
    | ok a w₁ =>
      have hframe := hx.balanced.of_ok hxw
      rw [hxw] at h hfirst
      obtain ⟨steps', hfirst⟩ := hfirst trivial
      rw [hfirst]
      exact (hf a).counting steps' (hframe.nesting.trans hw) (hframe.budget hb) he h
    | error e w₁ =>
      rw [hxw] at h hfirst
      obtain ⟨steps', hfirst⟩ := hfirst h.of_error
      rw [hfirst]
      exact ⟨steps', rfl⟩
  beyond {w w' b c entries} steps hw hb he h := by
    have hinside := w.inside_counting steps he
    have hgrows := hx.grows hinside
    rw [Action.bind_apply] at h ⊢
    cases hxw : x w with
    | ok a w₁ =>
      have hframe := hx.balanced.of_ok hxw
      obtain ⟨steps', hfirst⟩ := hx.counting steps hw hb he (by rw [hxw]; trivial)
      rw [hxw] at h hfirst
      rw [hfirst] at hgrows ⊢
      refine Nat.lt_of_le_of_lt (Nat.add_le_add_left hgrows b) ?_
      exact (hf a).beyond steps' (hframe.nesting.trans hw) (hframe.budget hb) he h
    | error e w₁ =>
      rw [hxw] at h
      obtain ⟨rfl, rfl⟩ := EStateM.Result.error.inj h
      have hfirst := hx.beyond steps hw hb he hxw
      cases hxa : x (w.counting steps entries) with
      | ok a w₂ =>
        have hframe := hx.balanced.of_ok hxa
        rw [hxa] at hfirst
        exact Nat.lt_of_lt_of_le hfirst ((hf a).grows (hframe.inside hinside))
      | error e w₂ => rwa [hxa] at hfirst

/-- Between runs there is room for an entry, and then there is inside of an entry that takes none. -/
theorem room : Action.room.Tallied where
  balanced := .room
  grows {w} _ := Nat.le_of_eq (by rw [finalWorld_room])
  counting {w b entries} steps hw _ _ _ := by
    have h : w.run.hasRoom := by
      unfold Run.hasRoom
      rw [hw]
      rfl
    have h' : (w.counting steps entries).run.hasRoom := by
      change (w.run.nesting + entries == 0 || (decide (w.run.nesting + entries ≤ entries) || _)) = true
      rw [hw, Nat.zero_add, decide_eq_true (Nat.le_refl entries), Bool.true_or, Bool.or_true]
    rw [room_of_hasRoom h, room_of_hasRoom h']
    exact ⟨steps, rfl⟩
  beyond {w w' b c _} _ _ _ _ h := by
    by_cases hroom : w.run.hasRoom
    · rw [room_of_hasRoom hroom] at h
      exact nomatch h
    · rw [room_of_not hroom] at h
      cases h

/-- An entry between runs is a run of its own. -/
theorem entering {x : Action α} (hx : x.Counted) : (Action.entering x).Tallied where
  balanced := hx.balanced.entering
  grows hw := hx.entering.grows hw
  counting {w b entries} steps hw hb he h := by
    rw [Action.entering_apply] at h
    refine ⟨(finalWorld (x w.enter)).run.steps + steps, ?_⟩
    rw [Action.entering_apply, Action.entering_apply, World.enter_counting hw steps he,
      hx.ahead (w := w.enter) steps entries (Nat.succ_pos _) hb h.of_mapWorld]
    have hinside := (hx.balanced w.enter).inside (Nat.succ_pos _)
    exact mapWorld_comm (World.leave_counting hinside steps entries)
  beyond {w w' b c entries} steps hw hb he h := by
    rw [Action.entering_apply] at h ⊢
    rw [finalWorld_mapWorld, World.enter_counting hw steps he]
    cases hxw : x w.enter with
    | ok a w₁ =>
      rw [hxw] at h
      exact nomatch h
    | error e w₁ =>
      rw [hxw] at h
      obtain ⟨rfl, -⟩ := EStateM.Result.error.inj h
      exact hx.beyond (w := w.enter) steps entries (Nat.succ_pos _) hb hxw

theorem catching {x : Action α} {f : ScriptError → Action α} (hx : x.Tallied)
    (hf : ∀ e, e.isCatchable = true → (f e).Tallied) : (Action.catching x f).Tallied where
  balanced := hx.balanced.catching fun e he ↦ (hf e he).balanced
  grows hw := Grows.catching hx.balanced (fun _ ↦ hx.grows) (fun e he _ ↦ (hf e he).grows) hw
  counting {w b entries} steps hw hb he h := by
    by_cases hc : Catchable (x w)
    · obtain ⟨steps', hfirst⟩ := hx.counting steps hw hb he (.of_catchable hc)
      obtain ⟨e, w₁, hxw, hcatch⟩ := hc
      have hframe := hx.balanced.of_error hxw
      rw [hxw] at hfirst
      rw [Action.catching_of_catchable hxw hcatch] at h
      rw [Action.catching_of_catchable hxw hcatch, Action.catching_of_catchable hfirst hcatch]
      exact (hf e hcatch).counting steps' (hframe.nesting.trans hw) (hframe.budget hb) he h
    · rw [Action.catching_of_not hc] at h
      obtain ⟨steps', hfirst⟩ := hx.counting steps hw hb he h
      rw [Action.catching_of_not hc, Action.catching_of_not, hfirst]
      · exact ⟨steps', rfl⟩
      · rwa [hfirst, catchable_mapWorld]
  beyond {w w' b c entries} steps hw hb he h := by
    have hinside := w.inside_counting steps he
    have hgrows := hx.grows hinside
    by_cases hc : Catchable (x w)
    · obtain ⟨steps', hfirst⟩ := hx.counting steps hw hb he (.of_catchable hc)
      obtain ⟨e, w₁, hxw, hcatch⟩ := hc
      have hframe := hx.balanced.of_error hxw
      rw [hxw] at hfirst
      rw [Action.catching_of_catchable hxw hcatch] at h
      rw [hfirst] at hgrows
      rw [Action.catching_of_catchable hfirst hcatch]
      refine Nat.lt_of_le_of_lt (Nat.add_le_add_left hgrows b) ?_
      exact (hf e hcatch).beyond steps' (hframe.nesting.trans hw) (hframe.budget hb) he h
    · rw [Action.catching_of_not hc] at h
      have hfirst := hx.beyond steps hw hb he h
      by_cases hca : Catchable (x (w.counting steps entries))
      · obtain ⟨e, w₁, hxa, hcatch⟩ := hca
        have hframe := hx.balanced.of_error hxa
        rw [hxa] at hfirst
        rw [Action.catching_of_catchable hxa hcatch]
        exact Nat.lt_of_lt_of_le hfirst ((hf e hcatch).grows (hframe.inside hinside))
      · rwa [Action.catching_of_not hca]

end Action.Tallied

/-- Everything that is run from outside is tallied, however many runs it is made of. -/
theorem Entry.tallied_run (entry : Entry) (n : Nat) : (entry.run (machineWithin n)).Tallied :=
  entry.run_of_entering (P := fun x ↦ x.Counted) (Q := fun x ↦ x.Tallied) machine_counted
    .of_neutral .bind .room .entering .unfinished n

/-- The steps of an action, counted in one run without a budget. The entry around it takes no room. -/
def Action.stepsOf {α : Type} (x : Action α) (w : World) : Nat :=
  (finalWorld (Action.entering x ((w.ignoring 1).withBudget none))).run.steps

section

variable {α : Type} {x : Action α} {w : World} {b : Nat}

/-- One run for all: its entry takes no room and it has no budget. -/
theorem World.enter_withBudget (hw : w.run.nesting = 0) :
    ((w.ignoring 1).withBudget none).enter = w.counting 0 1 := by
  have hsteps : (if w.run.nesting = 0 then 0 else w.run.steps) = 0 := if_pos hw
  unfold World.enter World.withBudget World.ignoring World.counting
  simp only [hsteps]

/-- The steps of an action are what the one run has counted in the end. -/
theorem Action.stepsOf_eq (x : Action α) (hw : w.run.nesting = 0) :
    x.stepsOf w = (finalWorld (x (w.counting 0 1))).run.steps := by
  unfold Action.stepsOf
  rw [Action.entering_apply, finalWorld_mapWorld, World.enter_withBudget hw]
  rfl

/-- An action that ends at its budget needs more steps than that. -/
theorem Action.Tallied.lt_stepsOf (hx : x.Tallied) (hw : w.run.nesting = 0)
    (hb : w.run.limits.maxSteps = some b) (h : EndsWith Failure.IsBudget (x w)) :
    b < x.stepsOf w := by
  have hfinished : Finished (x w) := by
    obtain ⟨e, w', hxw, he⟩ := h
    rw [hxw]
    cases e with
    | unfinished => exact he.elim
    | _ => exact trivial
  rcases InBudget.or_budget hfinished with hin | ⟨c, w', hxw⟩
  · exact absurd hin (not_inBudget h)
  · rw [x.stepsOf_eq hw]
    exact hx.beyond 0 hw hb (Nat.succ_pos 0) hxw

/-- An action that does not end at its budget does the same in one run without a budget. -/
theorem Action.Tallied.entering_eq (hx : x.Tallied) (hw : w.run.nesting = 0)
    (hb : w.run.limits.maxSteps = some b) (h : InBudget (x w)) :
    ∃ steps, Action.entering x ((w.ignoring 1).withBudget none) =
      mapWorld (fun w' ↦ (w'.counting steps 1).leave) (x w) := by
  obtain ⟨steps, hcounting⟩ := hx.counting 0 hw hb (Nat.succ_pos 0) h
  refine ⟨steps, ?_⟩
  rw [Action.entering_apply, World.enter_withBudget hw, hcounting]
  cases x w <;> rfl

/-- One run ends at its budget exactly if it needs more steps than that. -/
theorem Action.Counted.endsWith_iff (hx : x.Counted) (hw : w.run.nesting = 0)
    (hb : w.run.limits.maxSteps = some b) (h : Finished (Action.entering x (w.ignoring 1))) :
    EndsWith Failure.IsBudget (Action.entering x (w.ignoring 1)) ↔ b < x.stepsOf w := by
  have hzero : (w.ignoring 1).enter.run.steps = 0 := if_pos hw
  have henter : (w.ignoring 1).enter.ahead 0 0 = w.counting 0 1 := by
    have hsteps : (if w.run.nesting = 0 then 0 else w.run.steps) = 0 := if_pos hw
    unfold World.enter World.ignoring World.ahead World.counting
    simp only [hsteps, Nat.add_zero, Limits.ignoring_ignoring]
  rw [Action.entering_apply] at h ⊢
  rw [endsWith_mapWorld, x.stepsOf_eq hw, ← henter]
  rcases InBudget.or_budget h.of_mapWorld with hin | ⟨c, w', hxw⟩
  · refine iff_of_false (fun hends ↦ not_inBudget hends hin) (Nat.not_lt_of_le ?_)
    rw [hx.ahead (w := (w.ignoring 1).enter) 0 0 (Nat.succ_pos _) hb hin, finalWorld_mapWorld]
    exact hx.within (w := (w.ignoring 1).enter) (Nat.succ_pos _) hb (hzero ▸ Nat.zero_le b) hin
  · refine iff_of_true (hxw ▸ endsWith_error.2 trivial) ?_
    exact hx.beyond (w := (w.ignoring 1).enter) 0 0 (Nat.succ_pos _) hb hxw

end

end Nodecraft.Sandbox
