import Nodecraft.Proofs.Sandbox.Fuel

/-!
# Depth and nesting of runs

Whatever an interpreter is asked to do and however it ends, it leaves the depth of calls and the
nesting of entries as they were before, and no moment of it lies deeper than the limits allow. One
congruence carries both: the first action leaves the frame of the run as it is, and in a world
that is not too deep the second, which is broken off where it would get too deep, does the same.

An interpreter therefore goes into every run with no open calls and no open entries. The step
count is all that is left over from earlier runs, and the first entry starts it afresh.
-/

set_option autoImplicit false

namespace Nodecraft.Sandbox

open Script Evaluation

/-! ### The frame of a run -/

/-- The second world has the limits and the open calls and entries of the first. -/
structure World.SameFrame (w w' : World) : Prop where
  limits : w'.run.limits = w.run.limits
  depth : w'.run.depth = w.run.depth
  nesting : w'.run.nesting = w.run.nesting

namespace World.SameFrame

theorem refl (w : World) : w.SameFrame w := ⟨rfl, rfl, rfl⟩

theorem trans {w w' w'' : World} (h : w.SameFrame w') (h' : w'.SameFrame w'') :
    w.SameFrame w'' :=
  ⟨h'.limits.trans h.limits, h'.depth.trans h.depth, h'.nesting.trans h.nesting⟩

/-- Worlds that count alike have one frame. -/
theorem of_counters {w w' : World} (h : w'.counters = w.counters) : w.SameFrame w' :=
  ⟨congrArg Counters.limits h, congrArg Counters.depth h, congrArg Counters.nesting h⟩

/-- Room depends on the frame alone. -/
theorem hasRoom {w w' : World} (h : w.SameFrame w') : w'.run.hasRoom = w.run.hasRoom := by
  unfold Run.hasRoom
  rw [h.limits, h.depth, h.nesting]

/-- What keeps the frame inside of an entry keeps it when the entry is left. -/
theorem leave {w w' : World} (h : w.enter.SameFrame w') : w.SameFrame w'.leave :=
  ⟨h.limits, h.depth, congrArg (· - 1) h.nesting⟩

/-- What keeps the frame inside of a call keeps it when the call is over. -/
theorem ascend {w w' : World} (h : w.descend.SameFrame w') : w.SameFrame w'.ascend :=
  ⟨h.limits, congrArg (· - 1) h.depth, h.nesting⟩

end World.SameFrame

/-- An action that leaves the frame of a run as it is, however it ends. -/
def Action.Balanced {α : Type} (x : Action α) : Prop := ∀ w : World, w.SameFrame (finalWorld (x w))

namespace Action.Balanced

variable {α β : Type}

/-- The frame at a return. -/
theorem of_ok {x : Action α} (hx : x.Balanced) {w w' : World} {a : α} (h : x w = .ok a w') :
    w.SameFrame w' := by
  have := hx w
  rwa [h] at this

/-- The frame at a failure. -/
theorem of_error {x : Action α} (hx : x.Balanced) {w w' : World} {e : Failure}
    (h : x w = .error e w') : w.SameFrame w' := by
  have := hx w
  rwa [h] at this

/-- Actions that touch no counter keep the frame. -/
theorem of_neutral {x : Action α} (hx : x.Neutral fun _ ↦ True) : x.Balanced :=
  fun w ↦ .of_counters (hx.counters w)

theorem failure (e : Failure) : (throw e : Action α).Balanced := fun w ↦ .refl w

/-- A step is counted outside of the frame, whether it is refused or not. -/
theorem step : Action.step.Balanced := by
  intro w
  rw [Action.step_apply]
  cases w.run.limits.maxSteps with
  | none => exact ⟨rfl, rfl, rfl⟩
  | some b =>
    dsimp only
    split <;> exact ⟨rfl, rfl, rfl⟩

theorem room : Action.room.Balanced := by
  intro w
  rw [finalWorld_room]
  exact .refl w

/-- One after the other, both keep the frame. A failure of the first is where it ends. -/
theorem bind {x : Action α} {f : α → Action β} (hx : x.Balanced) (hf : ∀ a, (f a).Balanced) :
    (x >>= f).Balanced := by
  intro w
  rw [Action.bind_apply]
  cases h : x w with
  | ok a w' => exact (hx.of_ok h).trans (hf a w')
  | error e w' => exact hx.of_error h

/-- An entry is left again however it ends. -/
theorem entering {x : Action α} (hx : x.Balanced) : (Action.entering x).Balanced := by
  intro w
  rw [Action.entering_apply, finalWorld_mapWorld]
  exact (hx w.enter).leave

/-- A call takes its depth back, and one that is refused has taken none. -/
theorem calling {x : Action α} (hx : x.Balanced) : (Action.calling x).Balanced := by
  intro w
  by_cases h : w.run.depth < w.run.limits.maxCallDepth
  · rw [Action.calling_of_lt _ h, finalWorld_mapWorld]
    exact (hx w.descend).ascend
  · rw [Action.calling_of_le _ (Nat.le_of_not_lt h)]
    exact .refl w

/-- The handler is asked in the frame that the failure left. -/
theorem catching {x : Action α} {f : ScriptError → Action α} (hx : x.Balanced)
    (hf : ∀ e, e.isCatchable = true → (f e).Balanced) : (Action.catching x f).Balanced := by
  intro w
  by_cases hc : Catchable (x w)
  · obtain ⟨e, w', h, he⟩ := hc
    rw [Action.catching_of_catchable h he]
    exact (hx.of_error h).trans (hf e he w')
  · rw [Action.catching_of_not hc]
    exact hx w

/-- The finalizer goes on in the frame of its block. -/
theorem finalizing {x f : Action Completion} (hx : x.Balanced) (hf : f.Balanced) :
    (Evaluation.finalizing x f).Balanced := by
  intro w
  rcases settled_or_failure (x w) with hs | ⟨e, w', h, he⟩
  · rw [finalizing_of_settled hs, finalWorld_finishing]
    exact (hx w).trans (hf _)
  · rw [finalizing_of_failure h he]
    exact hx.of_error h

/-- Breaking an action off changes nothing. -/
theorem stopping {x : Action α} (hx : x.Balanced) (stop : World → Bool) :
    (Action.stopping stop x).Balanced := by
  intro w
  by_cases h : stop w
  · rw [Action.stopping_of h]
    exact .refl w
  · rw [Action.stopping_of_not h]
    exact hx w

theorem finalizingUnless {x f : Action Completion} (hx : x.Balanced) (hf : f.Balanced)
    (stop : Stop) : (Action.finalizingUnless stop x f).Balanced :=
  (hx.finalizing hf).stopping _

end Action.Balanced

/-- The finalizer of an action that ended at the budget has room for its statements, as the action
had. -/
theorem Action.Finalized.stalled {x f : Action Completion} (h : x.Finalized f) (hx : x.Balanced)
    {w w' : World} {b : Nat} (hxw : x w = .error (.raised (.stepBudget b)) w')
    (hspent : w'.run.IsSpent) :
    match f w' with
    | .ok c w'' => c = .normal ∧ w''.run = w'.run
    | .error e w'' => e = .unfinished ∨ (∃ b, e = .raised (.stepBudget b)) ∧ w''.run.IsSpent := by
  refine h.stalls w' hspent ?_
  rw [(hx.of_error hxw).hasRoom]
  refine Classical.byContradiction fun hnot ↦ ?_
  have hneeds := h.needsRoom w hnot
  rw [hxw] at hneeds
  rcases hneeds with heq | heq <;> cases heq

/-! ### No moment is too deep -/

def World.TooDeep (w : World) : Prop := w.run.limits.maxCallDepth < w.run.depth

instance (w : World) : Decidable w.TooDeep := inferInstanceAs (Decidable (_ < _))

/-- Stops wherever more calls are open than the limits allow. -/
def Stop.tooDeep : Stop := fun _ w ↦ w.TooDeep

/-- Where it is not too deep, nothing is broken off for it. -/
theorem Stop.not_tooDeep (q : Query) {w : World} (hw : ¬w.TooDeep) : ¬Stop.tooDeep q w :=
  fun h ↦ hw (of_decide_eq_true h)

/-- The first action leaves the frame of a run as it is, and in a world that is not too deep the
second does the same. -/
def Action.Shallow {α : Type} (x y : Action α) : Prop :=
  x.Balanced ∧ ∀ w : World, ¬w.TooDeep → y w = x w

/-- How deep a moment lies is a matter of its frame. -/
theorem World.SameFrame.tooDeep {w w' : World} (h : w.SameFrame w') (hw : ¬w.TooDeep) :
    ¬w'.TooDeep := by
  unfold World.TooDeep at hw ⊢
  rwa [h.limits, h.depth]

namespace Action.Shallow

variable {α β : Type}

theorem refl {x : Action α} (hx : x.Balanced) : x.Shallow x := ⟨hx, fun _ _ ↦ rfl⟩

theorem bind {x y : Action α} {f g : α → Action β} (hxy : x.Shallow y)
    (hfg : ∀ a, (f a).Shallow (g a)) : (x >>= f).Shallow (y >>= g) := by
  refine ⟨hxy.1.bind fun a ↦ (hfg a).1, fun w hw ↦ ?_⟩
  rw [Action.bind_apply, Action.bind_apply, hxy.2 w hw]
  cases h : x w with
  | ok a w' => exact (hfg a).2 w' ((hxy.1.of_ok h).tooDeep hw)
  | error e w' => exact rfl

theorem entering {x y : Action α} (hxy : x.Shallow y) :
    (Action.entering x).Shallow (Action.entering y) := by
  refine ⟨hxy.1.entering, fun w hw ↦ ?_⟩
  rw [Action.entering_apply, Action.entering_apply, hxy.2 w.enter hw]

theorem calling {x y : Action α} (hxy : x.Shallow y) :
    (Action.calling x).Shallow (Action.calling y) := by
  refine ⟨hxy.1.calling, fun w _ ↦ ?_⟩
  by_cases h : w.run.depth < w.run.limits.maxCallDepth
  · rw [Action.calling_of_lt _ h, Action.calling_of_lt _ h, hxy.2 w.descend (Nat.not_lt_of_le h)]
  · rw [Action.calling_of_le _ (Nat.le_of_not_lt h), Action.calling_of_le _ (Nat.le_of_not_lt h)]

theorem catching {x y : Action α} {f g : ScriptError → Action α} (hxy : x.Shallow y)
    (hfg : ∀ e, e.isCatchable = true → (f e).Shallow (g e)) :
    (Action.catching x f).Shallow (Action.catching y g) := by
  refine ⟨hxy.1.catching fun e he ↦ (hfg e he).1, fun w hw ↦ ?_⟩
  have hy : y w = x w := hxy.2 w hw
  by_cases hc : Catchable (x w)
  · obtain ⟨e, w', h, he⟩ := hc
    rw [Action.catching_of_catchable h he, Action.catching_of_catchable (hy.trans h) he]
    exact (hfg e he).2 w' ((hxy.1.of_error h).tooDeep hw)
  · rw [Action.catching_of_not hc, Action.catching_of_not (by rwa [hy]), hy]

theorem finalizing {x y f g : Action Completion} (hxy : x.Shallow y) (hfg : f.Shallow g) :
    (Evaluation.finalizing x f).Shallow (Action.finalizingUnless Stop.tooDeep y g) := by
  refine ⟨hxy.1.finalizing hfg.1, fun w hw ↦ ?_⟩
  have hy : y w = x w := hxy.2 w hw
  rcases settled_or_failure (x w) with hs | ⟨e, w', h, he⟩
  · have hg := hfg.2 _ ((hxy.1 w).tooDeep hw)
    rw [finalizing_of_settled hs, Action.finalizingUnless_of_not (by rwa [hy])
      (Stop.not_tooDeep _ hw), hy, hg]
  · rw [finalizing_of_failure h he, Action.finalizingUnless_of_failure (hy.trans h) he]

theorem stopping {x y : Action α} (hxy : x.Shallow y) (q : Query) :
    (Action.stopping (Stop.never q) x).Shallow (Action.stopping (Stop.tooDeep q) y) := by
  rw [Action.stopping_never]
  refine ⟨hxy.1, fun w hw ↦ ?_⟩
  have hstop : Action.stopping (Stop.tooDeep q) y w = y w :=
    Action.stopping_of_not (Stop.not_tooDeep q hw)
  rw [hstop, hxy.2 w hw]

end Action.Shallow

/-- The machine and its probe that stops where it is too deep do the same, at every point at which the
probe may stop. -/
theorem Probing.shallow : Probing (fun _ x y ↦ x.Shallow y) Stop.never Stop.tooDeep := by
  have hR : Congruence (fun _ x y ↦ x.Shallow y) fun _ ↦ True :=
    .ofNeutral (fun hx ↦ .refl (.of_neutral hx)) .bind .entering .catching
  exact {
    toCongruence := hR
    step := .stopping (.refl .step) .step
    room := .stopping (.refl .room) .room
    finalize := fun hxy hfg _ _ ↦ by
      rw [Action.finalizingUnless_never]
      exact .finalizing hxy hfg
    erase := fun target key ↦
      (Action.Shallow.refl (.of_neutral (.deleteProperty target key))).stopping _
    watches := fun _ _ hcall _ hc args ↦
      hR.watches hcall (fun w ↦ .refl (.of_neutral (.addWatcher w))) hc args
    stopping := fun q _ _ _ h ↦ h.stopping q
    calling := fun id self args _ _ h ↦ h.calling.stopping _
    performing := fun id self args _ _ hfg hf hg ↦
      (hR.performing (.refl (.failure _)) id self args (fun fn _ ↦ hfg fn) hf hg).stopping _
    unfinished := .refl (.failure _) }

/-- The machine and its probe for worlds that are too deep. -/
theorem machine_shallow (n size : Nat) : Machine.Related (fun _ x y ↦ x.Shallow y) (fun _ ↦ True)
    size (machineWithin n) (probe Stop.tooDeep n) := by
  rw [← probe_never]
  exact Probing.shallow.related n size

/-! ### Interpreters between runs -/

/-- What an interpreter is used for. -/
inductive Task
  | enter (entry : Entry)
  | flushTicks

/-- What comes of a task; nothing of calling the queued callbacks. -/
def Task.run (m : Machine) : Task → Action (Option Value)
  | .enter entry => return some (← entry.run m)
  | .flushTicks => do
    Action.flushTicks m.call
    return none

/-- The worlds between the tasks of an interpreter with the given limits. Between tasks its host
may do what it likes to the heap, the queue, the registry and the properties. -/
inductive Idle (limits : Limits) : World → Prop
  | fresh (heap : Heap) (props : Value) : Idle limits ⟨heap, Run.start limits props⟩
  | task {w : World} (n : Nat) (task : Task) : Idle limits w →
    Idle limits (finalWorld (task.run (machineWithin n) w))
  | host {w : World} (heap : Heap) (ticks : Array Value) (hooks : Option HookRegistry)
    (props : Value) : Idle limits w →
    Idle limits ⟨heap, { w.run with ticks := ticks, hooks := hooks, props := props }⟩

/-- The world of an interpreter created anew with the limits, queue, registry and properties. -/
def World.renewed (w : World) : World :=
  ⟨w.heap, { Run.start w.run.limits w.run.props with ticks := w.run.ticks, hooks := w.run.hooks }⟩

/-- The world without its step count, which the next outermost entry starts afresh. -/
def World.forgetSteps (w : World) : World := { w with run := { w.run with steps := 0 } }

section

variable {R : (α : Type) → Action α → Action α → Prop} {Admits : FunctionDef → Prop}
  {size : Nat} {m m' : Machine} (h : Machine.Related R Admits size m m')

include h

/-- Related callers call the queued callbacks alike. -/
theorem Machine.Related.callAll (queued : List Value) :
    R Unit (Action.callAll m.call queued) (Action.callAll m'.call queued) := by
  induction queued with
  | nil => exact h.pure _
  | cons f rest ih => exact h.bind (h.discard (h.call f _ _)) fun _ ↦ ih

/-- Related callers flush alike. -/
theorem Machine.Related.flushTicks (htake : R (List Value) Action.takeTicks Action.takeTicks)
    (hraise : R Unit (Action.raise .requeueing) (Action.raise .requeueing)) :
    R Unit (Action.flushTicks m.call) (Action.flushTicks m'.call) := by
  have hrounds (rounds : Nat) :
      R Unit (Action.flushRounds m.call rounds) (Action.flushRounds m'.call rounds) := by
    induction rounds with
    | zero =>
      refine h.bind htake fun queued ↦ ?_
      split
      · exact hraise
      · exact h.pure _
    | succ rounds ih =>
      refine h.bind htake fun queued ↦ ?_
      split
      · exact h.pure _
      · exact h.bind (h.callAll _) fun _ ↦ ih
  exact hrounds _

end

/-- No task comes to a moment that is too deep. -/
theorem Task.shallow (task : Task) (n : Nat) :
    (task.run (machineWithin n)).Shallow (task.run (probe Stop.tooDeep n)) := by
  have h := machine_shallow n
  cases task with
  | enter entry => exact (h 0).map (Machine.Related.run h entry) some
  | flushTicks =>
    exact (h 0).map ((h 0).flushTicks (.refl (.of_neutral .takeTicks))
      (.refl (.of_neutral (.raise rfl)))) fun _ ↦ none

/-- Between runs nothing is open. -/
theorem Idle.frame {limits : Limits} {w : World} (h : Idle limits w) :
    w.run.limits = limits ∧ w.run.depth = 0 ∧ w.run.nesting = 0 := by
  induction h with
  | fresh heap props => exact ⟨rfl, rfl, rfl⟩
  | @task w n task _ ih =>
    have hframe := (task.shallow n).1 w
    exact ⟨hframe.limits.trans ih.1, hframe.depth.trans ih.2.1, hframe.nesting.trans ih.2.2⟩
  | host _ _ _ _ _ ih => exact ih

/-! ### The step count between runs -/

/-- Between runs, what the action does does not depend on the step count. -/
def Action.StepBlind {α : Type} (x : Action α) : Prop :=
  ∀ w : World, w.run.nesting = 0 →
    mapWorld World.forgetSteps (x w) = mapWorld World.forgetSteps (x w.forgetSteps)

namespace Action.StepBlind

variable {α β : Type}

theorem of_neutral {x : Action α} (hx : x.Neutral fun _ ↦ True) : x.StepBlind := by
  intro w _
  rw [hx.commute (g := World.forgetSteps) (c := ({ · with steps := 0 })) (fun _ ↦ rfl) w]
  cases x w <;> rfl

theorem entering (x : Action α) : (Action.entering x).StepBlind := by
  intro w hw
  have henter : w.enter = w.forgetSteps.enter := by
    unfold World.enter World.forgetSteps
    rw [if_pos hw, if_pos hw]
  rw [Action.entering_apply, Action.entering_apply, henter]

theorem room : Action.room.StepBlind := by
  intro w _
  have hsame : w.forgetSteps.run.hasRoom = w.run.hasRoom := rfl
  by_cases h : w.run.hasRoom
  · rw [room_of_hasRoom h, room_of_hasRoom (hsame.trans h)]
    rfl
  · rw [room_of_not h, room_of_not (hsame ▸ h)]
    rfl

/-- The step counts after the first action may differ, and the second does not see them. -/
theorem bind {x : Action α} {f : α → Action β} (hx : x.StepBlind) (hbalanced : x.Balanced)
    (hf : ∀ a, (f a).StepBlind) : (x >>= f).StepBlind := by
  intro w hw
  have h := hx w hw
  rw [Action.bind_apply, Action.bind_apply]
  cases hxw : x w with
  | ok a w₁ =>
    cases hxw' : x w.forgetSteps with
    | ok a' w₂ =>
      rw [hxw, hxw'] at h
      obtain ⟨rfl, hworld⟩ := EStateM.Result.ok.inj h
      have h₁ : w₁.run.nesting = 0 := (hbalanced.of_ok hxw).nesting.trans hw
      have h₂ : w₂.run.nesting = 0 := (hbalanced.of_ok hxw').nesting.trans hw
      calc mapWorld World.forgetSteps (f a w₁)
          = mapWorld World.forgetSteps (f a w₁.forgetSteps) := hf a w₁ h₁
        _ = mapWorld World.forgetSteps (f a w₂.forgetSteps) := by rw [hworld]
        _ = mapWorld World.forgetSteps (f a w₂) := (hf a w₂ h₂).symm
    | error e w₂ =>
      rw [hxw, hxw'] at h
      exact nomatch h
  | error e w₁ =>
    cases hxw' : x w.forgetSteps with
    | ok a' w₂ =>
      rw [hxw, hxw'] at h
      exact nomatch h
    | error e' w₂ =>
      rw [hxw, hxw'] at h
      obtain ⟨rfl, hworld⟩ := EStateM.Result.error.inj h
      exact congrArg (EStateM.Result.error e) hworld

theorem catching {x : Action α} {f : ScriptError → Action α} (hx : x.StepBlind)
    (hbalanced : x.Balanced) (hf : ∀ e, e.isCatchable = true → (f e).StepBlind) :
    (Action.catching x f).StepBlind := by
  intro w hw
  have h := hx w hw
  by_cases hc : Catchable (x w)
  · obtain ⟨e, w₁, hxw, he⟩ := hc
    cases hxw' : x w.forgetSteps with
    | ok a w₂ =>
      rw [hxw, hxw'] at h
      exact nomatch h
    | error e' w₂ =>
      rw [hxw, hxw'] at h
      obtain ⟨rfl, hworld⟩ := EStateM.Result.error.inj h
      have h₁ : w₁.run.nesting = 0 := (hbalanced.of_error hxw).nesting.trans hw
      have h₂ : w₂.run.nesting = 0 := (hbalanced.of_error hxw').nesting.trans hw
      rw [Action.catching_of_catchable hxw he, Action.catching_of_catchable hxw' he, hf e he w₁ h₁,
        hf e he w₂ h₂, hworld]
  · have hc' : ¬Catchable (x w.forgetSteps) := by
      rwa [← catchable_mapWorld World.forgetSteps, ← h, catchable_mapWorld]
    rw [Action.catching_of_not hc, Action.catching_of_not hc']
    exact h

end Action.StepBlind

section

variable (n : Nat)

theorem stepBlind_nested {α : Type} (x : Action α) : ((machineWithin n).nested x).StepBlind :=
  .bind .room .room fun _ ↦ .entering x

theorem stepBlind_call (f self : Value) (args : List Value) :
    ((machineWithin n).call f self args).StepBlind := by
  cases f with
  | function id => exact stepBlind_nested n _
  | _ => exact .of_neutral (.raise rfl)

/-- Whatever is run, the frame is as it was. -/
theorem Entry.balanced_run (entry : Entry) : (entry.run (machineWithin n)).Balanced :=
  (Machine.Related.run (machine_shallow n) entry).1

/-- What is run from outside starts its own count. -/
theorem Entry.stepBlind_run (entry : Entry) : (entry.run (machineWithin n)).StepBlind := by
  cases entry with
  | program s body =>
    have hblock := ((machine_shallow n _).block s body (Nat.le_refl _)).1
    refine .bind (stepBlind_nested n _) (.bind .room fun _ ↦ hblock.entering) fun c ↦ ?_
    cases c with
    | «return» v => exact .of_neutral (.pure v)
    | _ => exact .of_neutral (.pure _)
  | call f self args => exact stepBlind_call n f self args
  | eval s e =>
    cases n with
    | zero => exact fun _ _ ↦ rfl
    | succ n => exact stepBlind_nested n _

theorem stepBlind_callAll (queued : List Value) :
    (Action.callAll (machineWithin n).call queued).StepBlind := by
  induction queued with
  | nil => exact .of_neutral (.pure _)
  | cons f rest ih =>
    have hcall := Entry.balanced_run n (.call f .undefined [])
    refine .bind (.bind (stepBlind_call n f _ _) hcall fun _ ↦ .of_neutral (.pure _)) ?_
      fun _ ↦ ih
    exact hcall.bind fun _ ↦ .of_neutral (.pure _)

/-- A flush is a row of calls, each with a count of its own. -/
theorem stepBlind_flushRounds (rounds : Nat) :
    (Action.flushRounds (machineWithin n).call rounds).StepBlind := by
  have htake : Action.takeTicks.Neutral fun _ ↦ True := .takeTicks
  induction rounds with
  | zero =>
    refine .bind (.of_neutral htake) (.of_neutral htake) fun queued ↦ ?_
    split
    · exact .of_neutral (.raise rfl)
    · exact .of_neutral (.pure _)
  | succ rounds ih =>
    refine .bind (.of_neutral htake) (.of_neutral htake) fun queued ↦ ?_
    split
    · exact .of_neutral (.pure _)
    · exact .bind (stepBlind_callAll n _) (((machine_shallow n 0).callAll _).1) fun _ ↦ ih

/-- What a task does is the same whatever was counted before it. -/
theorem Task.stepBlind_run (task : Task) : (task.run (machineWithin n)).StepBlind := by
  cases task with
  | enter entry =>
    exact .bind (entry.stepBlind_run n) (entry.balanced_run n) fun _ ↦ .of_neutral (.pure _)
  | flushTicks =>
    exact .bind (stepBlind_flushRounds n _)
      ((machine_shallow n 0).flushTicks (.refl (.of_neutral .takeTicks))
        (.refl (.of_neutral (.raise rfl)))).1
      fun _ ↦ .of_neutral (.pure _)

end

/-- With nothing open, an interpreter differs from a new one in its step count alone. -/
theorem World.renewed_eq {w : World} (hdepth : w.run.depth = 0) (hnesting : w.run.nesting = 0) :
    w.renewed = w.forgetSteps := by
  obtain ⟨heap, limits, depth, steps, nesting, ticks, hooks, props⟩ := w
  dsimp only at hdepth hnesting
  subst hdepth hnesting
  rfl

/-- However a task of an interpreter ends, it leaves the depth of calls and the nesting of entries
as they were, and no moment of it is too deep: the probe that stops at such moments does the same.
If no call and no entry is open before, as always between tasks, then the task does the same as on
an interpreter created anew. -/
theorem task_restores_counters (n : Nat) (task : Task) (w : World) :
    (finalWorld (task.run (machineWithin n) w)).run.depth = w.run.depth ∧
    (finalWorld (task.run (machineWithin n) w)).run.nesting = w.run.nesting ∧
    (w.run.depth ≤ w.run.limits.maxCallDepth →
      task.run (probe Stop.tooDeep n) w = task.run (machineWithin n) w) ∧
    (w.run.depth = 0 → w.run.nesting = 0 →
      mapWorld World.forgetSteps (task.run (machineWithin n) w) =
        mapWorld World.forgetSteps (task.run (machineWithin n) w.renewed)) ∧
    ∀ limits, Idle limits w → w.run.limits = limits ∧ w.run.depth = 0 ∧ w.run.nesting = 0 := by
  have hshallow := task.shallow n
  refine ⟨(hshallow.1 w).depth, (hshallow.1 w).nesting, fun h ↦ hshallow.2 w (Nat.not_lt_of_le h),
    fun hdepth hnesting ↦ ?_, fun _ ↦ Idle.frame⟩
  rw [World.renewed_eq hdepth hnesting]
  exact task.stepBlind_run n w hnesting

end Nodecraft.Sandbox
