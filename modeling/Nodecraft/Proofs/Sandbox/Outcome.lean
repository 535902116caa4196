import Nodecraft.Sandbox.Machine
import Nodecraft.Sandbox.Evaluation.Statement

/-!
# Outcomes of combined actions

An action turns a world into an outcome: how it ends, and the world it leaves. One equation for
each way of combining actions says what its outcome is in terms of the outcomes of its parts.
-/

set_option autoImplicit false

namespace Nodecraft.Sandbox

open Script Evaluation

/-- How an action ends, and the world it leaves. -/
abbrev Outcome (α : Type) := EStateM.Result Failure World α

def finalWorld {α : Type} : Outcome α → World
  | .ok _ w => w
  | .error _ w => w

def mapWorld {α : Type} (f : World → World) : Outcome α → Outcome α
  | .ok a w => .ok a (f w)
  | .error e w => .error e (f w)

@[simp] theorem finalWorld_mapWorld {α : Type} (f : World → World) (r : Outcome α) :
    finalWorld (mapWorld f r) = f (finalWorld r) := by
  cases r <;> rfl

/-- What follows an action goes on in its world, or not at all. -/
theorem Action.bind_apply {α β : Type} (x : Action α) (f : α → Action β) (w : World) :
    (x >>= f) w = match x w with
      | .ok a w' => f a w'
      | .error e w' => .error e w' := by
  change EStateM.bind x f w = _
  unfold EStateM.bind
  cases x w <;> rfl

/-- Where one action after another comes to a value, both do. -/
theorem bind_eq_ok {ε σ α β : Type} {x : EStateM ε σ α} {f : α → EStateM ε σ β} {s s' : σ} {b : β}
    (h : (x >>= f) s = .ok b s') : ∃ a s₁, x s = .ok a s₁ ∧ f a s₁ = .ok b s' := by
  change EStateM.bind x f s = _ at h
  unfold EStateM.bind at h
  cases hx : x s with
  | error e s₁ =>
    rw [hx] at h
    cases h
  | ok a s₁ =>
    rw [hx] at h
    exact ⟨a, s₁, rfl, h⟩

/-! ### Steps, entries and calls -/

/-- The world after a step is counted. -/
def World.tick (w : World) : World := { w with run := { w.run with steps := w.run.steps + 1 } }

/-- The world in which an entry of its own begins. -/
def World.enter (w : World) : World :=
  { w with run := { w.run with
      steps := if w.run.nesting = 0 then 0 else w.run.steps, nesting := w.run.nesting + 1 } }

def World.leave (w : World) : World := { w with run := { w.run with nesting := w.run.nesting - 1 } }

/-- The world in which a counted call begins. -/
def World.descend (w : World) : World := { w with run := { w.run with depth := w.run.depth + 1 } }

def World.ascend (w : World) : World := { w with run := { w.run with depth := w.run.depth - 1 } }

/-- A step is counted also when it is refused. -/
theorem Action.step_apply (w : World) :
    Action.step w = match w.run.limits.maxSteps with
      | some b => if b ≤ w.run.steps then .error (.raised (.stepBudget b)) w.tick else .ok () w.tick
      | none => .ok () w.tick := by
  change (match w.run.limits.maxSteps with
    | some b => if b < w.run.steps + 1 then Action.raise (.stepBudget b) else pure ()
    | none => pure () : Action Unit) w.tick = _
  cases w.run.limits.maxSteps with
  | none => rfl
  | some b =>
    by_cases h : b ≤ w.run.steps
    · exact (congrFun (if_pos (Nat.lt_succ_of_le h)) _).trans (if_pos h).symm
    · exact (congrFun (if_neg fun h' ↦ h (Nat.le_of_lt_succ h')) _).trans (if_neg h).symm

/-- The budget does not allow another step. -/
def Run.noStepLeft (r : Run) : Bool :=
  match r.limits.maxSteps with
  | some b => b ≤ r.steps
  | none => false

/-- With the budget used up, a step fails. -/
theorem Action.step_of_noStepLeft {w : World} (h : w.run.noStepLeft) :
    ∃ b, Action.step w = .error (.raised (.stepBudget b)) w.tick := by
  unfold Run.noStepLeft at h
  rw [Action.step_apply]
  cases hmax : w.run.limits.maxSteps with
  | none => rw [hmax] at h; exact nomatch h
  | some b =>
    rw [hmax] at h
    exact ⟨b, if_pos (of_decide_eq_true h)⟩

/-- With steps left, a step is counted and nothing else. -/
theorem Action.step_of_stepLeft {w : World} (h : ¬w.run.noStepLeft) :
    Action.step w = .ok () w.tick := by
  unfold Run.noStepLeft at h
  rw [Action.step_apply]
  cases hmax : w.run.limits.maxSteps with
  | none => rfl
  | some b =>
    rw [hmax] at h
    exact if_neg fun hle ↦ h (decide_eq_true hle)

theorem Action.room_of_hasRoom {w : World} (h : w.run.hasRoom) : Action.room w = .ok () w := by
  change (if w.run.hasRoom then pure () else Action.raise .stackExhausted : Action Unit) w = _
  rw [if_pos h]
  rfl

theorem Action.room_of_not {w : World} (h : ¬w.run.hasRoom) :
    Action.room w = .error (.raised .stackExhausted) w := by
  change (if w.run.hasRoom then pure () else Action.raise .stackExhausted : Action Unit) w = _
  rw [if_neg h]
  rfl

/-- Making sure of room changes nothing. -/
theorem Action.finalWorld_room (w : World) : finalWorld (Action.room w) = w := by
  by_cases h : w.run.hasRoom
  · rw [room_of_hasRoom h]
    rfl
  · rw [room_of_not h]
    rfl

/-- An entry is left however it ends. -/
theorem Action.entering_apply {α : Type} (x : Action α) (w : World) :
    Action.entering x w = mapWorld World.leave (x w.enter) := by
  change (match x w.enter with
    | .ok a w => .ok a w.leave
    | .error e w => .error e w.leave : Outcome α) = _
  cases x w.enter <;> rfl

/-- A call that would be too deep is refused before anything of it is done. -/
theorem Action.calling_of_le {α : Type} (x : Action α) {w : World}
    (h : w.run.limits.maxCallDepth ≤ w.run.depth) :
    Action.calling x w = .error (.raised (.callDepth w.run.limits.maxCallDepth)) w :=
  if_pos h

theorem Action.calling_of_lt {α : Type} (x : Action α) {w : World}
    (h : w.run.depth < w.run.limits.maxCallDepth) :
    Action.calling x w = mapWorld World.ascend (x w.descend) := by
  unfold Action.calling
  rw [if_neg (Nat.not_le_of_lt h)]
  change (match x w.descend with
    | .ok a w => .ok a w.ascend
    | .error e w => .error e w.ascend : Outcome α) = _
  cases x w.descend <;> rfl

/-! ### Exceptions -/

/-- A script may catch the error, if there is one. -/
def Catchable {α : Type} (r : Outcome α) : Prop :=
  ∃ e w, r = .error (.raised e) w ∧ e.isCatchable = true

@[simp] theorem catchable_mapWorld {α : Type} (f : World → World) (r : Outcome α) :
    Catchable (mapWorld f r) ↔ Catchable r := by
  constructor
  · rintro ⟨e, w, h, he⟩
    cases r with
    | ok a w' => exact nomatch h
    | error e' w' =>
      obtain ⟨rfl, -⟩ := EStateM.Result.error.inj h
      exact ⟨e, w', rfl, he⟩
  · rintro ⟨e, w, rfl, he⟩
    exact ⟨e, f w, rfl, he⟩

theorem Action.catching_of_catchable {α : Type} {x : Action α}
    {handler : ScriptError → Action α} {w w' : World} {e : ScriptError}
    (h : x w = .error (.raised e) w') (he : e.isCatchable = true) :
    Action.catching x handler w = handler e w' := by
  unfold Action.catching
  rw [h]
  exact if_pos he

/-- What is not caught stays as it is. -/
theorem Action.catching_of_not {α : Type} {x : Action α} {handler : ScriptError → Action α}
    {w : World} (h : ¬Catchable (x w)) : Action.catching x handler w = x w := by
  unfold Action.catching
  cases hx : x w with
  | ok a w' => rfl
  | error e w' =>
    cases e with
    | raised e => exact if_neg fun he ↦ h ⟨e, w', hx, he⟩
    | unfinished => rfl
    | overlap => rfl

/-- The action came to an end that a finalizer follows. -/
def Settled {α : Type} : Outcome α → Prop
  | .ok _ _ => True
  | .error (.raised _) _ => True
  | .error _ _ => False

@[simp] theorem settled_mapWorld {α : Type} (f : World → World) (r : Outcome α) :
    Settled (mapWorld f r) ↔ Settled r := by
  cases r with
  | ok a w => exact Iff.rfl
  | error e w => cases e <;> exact Iff.rfl

instance {α : Type} : ∀ r : Outcome α, Decidable (Settled r)
  | .ok _ _ => isTrue trivial
  | .error (.raised _) _ => isTrue trivial
  | .error .unfinished _ => isFalse id
  | .error .overlap _ => isFalse id

/-- What is not settled ends in a failure that no script sees. -/
theorem settled_or_failure {α : Type} (r : Outcome α) :
    Settled r ∨ ∃ e w, r = .error e w ∧ ∀ s, e ≠ .raised s := by
  cases r with
  | ok a w => exact .inl trivial
  | error e w =>
    cases e with
    | raised s => exact .inl trivial
    | unfinished => exact .inr ⟨_, w, rfl, fun _ h ↦ nomatch h⟩
    | overlap => exact .inr ⟨_, w, rfl, fun _ h ↦ nomatch h⟩

/-- How a statement ends whose guarded part ended as the first outcome says and whose finalizer
ended as the second does. -/
def finishing (r : Outcome Completion) : Outcome Completion → Outcome Completion
  | .ok .normal w => mapWorld (fun _ ↦ w) r
  | other => other

@[simp] theorem finalWorld_finishing (r r' : Outcome Completion) :
    finalWorld (finishing r r') = finalWorld r' := by
  unfold finishing
  split
  · exact finalWorld_mapWorld _ r
  · rfl

/-- A change of both worlds is a change of the whole. -/
theorem finishing_mapWorld (f : World → World) (r r' : Outcome Completion) :
    finishing (mapWorld f r) (mapWorld f r') = mapWorld f (finishing r r') := by
  cases r' with
  | ok c w =>
    cases c with
    | normal => cases r <;> rfl
    | _ => rfl
  | error e w => rfl

section

variable {x f : Action Completion} {w w' : World}

/-- After a block that is settled its finalizer is run. -/
theorem Evaluation.finalizing_of_settled (h : Settled (x w)) :
    finalizing x f w = finishing (x w) (f (finalWorld (x w))) := by
  unfold finalizing
  cases hx : x w with
  | ok c w' => rfl
  | error e w' =>
    cases e with
    | raised e => rfl
    | unfinished => rw [hx] at h; exact h.elim
    | overlap => rw [hx] at h; exact h.elim

/-- No finalizer runs after an action that was broken off. -/
theorem Evaluation.finalizing_of_failure {e : Failure} (h : x w = .error e w')
    (he : ∀ s, e ≠ .raised s) : finalizing x f w = .error e w' := by
  unfold finalizing
  rw [h]
  cases e with
  | raised s => exact absurd rfl (he s)
  | _ => rfl

end

end Nodecraft.Sandbox
