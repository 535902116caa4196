import Nodecraft.Proofs.Sandbox.Counters

/-!
# Flushing the queue of deferred callbacks

A flush runs in rounds. A round empties the queue and calls what was in it, and the calls may queue
further callbacks for the next round. Scripts only ever add to the queue at its end
(`Action.Queues.run`), so the callbacks called so far followed by those still waiting are always the
callbacks queued at first followed by those queued since (`TickRounds.in_order`,
`Underway.in_order`): nothing is skipped, called twice or called out of turn.
-/

set_option autoImplicit false

namespace Nodecraft.Sandbox

open Script Evaluation

/-- The callbacks that wait to be called. -/
def World.queue (w : World) : List Value := w.run.ticks.toList

/-- The world in which the queue has been taken. -/
def World.emptied (w : World) : World := { w with run := { w.run with ticks := #[] } }

@[simp] theorem World.queue_emptied (w : World) : w.emptied.queue = [] := rfl

theorem World.emptied_of_queue_eq_nil {w : World} (h : w.queue = []) : w.emptied = w := by
  have hticks : w.run.ticks = #[] := Array.toList_eq_nil_iff.1 h
  unfold World.emptied
  rw [← hticks]

/-! ### Scripts queue behind what is queued -/

/-- The outcome of something that queued behind what was queued before, took nothing away, and did
not fail as a flush does whose callbacks keep queueing themselves. -/
inductive World.Queued (w : World) {α : Type} : Outcome α → Prop
  | ok {a : α} {w' : World} : w.queue <+: w'.queue → World.Queued w (.ok a w')
  | error {e : Failure} {w' : World} : w.queue <+: w'.queue → e ≠ .raised .requeueing →
    World.Queued w (.error e w')

namespace World.Queued

variable {α : Type} {w w₁ : World} {r : Outcome α}

/-- The queue before is the beginning of the queue after. -/
theorem grows (h : w.Queued r) : w.queue <+: (finalWorld r).queue := by
  cases h with
  | ok hw => exact hw
  | error hw _ => exact hw

/-- What queues behind one queue queues behind every beginning of it. -/
theorem after (h : w₁.Queued r) (hw : w.queue <+: w₁.queue) : w.Queued r := by
  cases h with
  | ok hw₁ => exact .ok (hw.trans hw₁)
  | error hw₁ he => exact .error (hw.trans hw₁) he

/-- A change that leaves the queue alone, or adds to it, may follow. -/
theorem mapWorld (h : w.Queued r) {f : World → World} (hf : ∀ w', w'.queue <+: (f w').queue) :
    w.Queued (mapWorld f r) := by
  cases h with
  | ok hw => exact .ok (hw.trans (hf _))
  | error hw he => exact .error (hw.trans (hf _)) he

/-- A block and its finalizer queue one after the other. -/
theorem finishing {r r' : Outcome Completion} (h : w.Queued r) (h' : (finalWorld r).Queued r') :
    w.Queued (finishing r r') := by
  cases h' with
  | error hw he => exact .error (h.grows.trans hw) he
  | @ok c w' hw =>
    cases c with
    | normal =>
      cases h with
      | ok hr => exact .ok (hr.trans hw)
      | error hr he => exact .error (hr.trans hw) he
    | _ => exact .ok (h.grows.trans hw)

end World.Queued

/-- Whatever the action queues stands behind what is queued. -/
def Action.Queues {α : Type} (x : Action α) : Prop := ∀ w : World, w.Queued (x w)

namespace Action.Queues

variable {α β : Type}

theorem pure (a : α) : (Pure.pure a : Action α).Queues := fun _ ↦ .ok List.prefix_rfl

theorem failure {e : Failure} (he : e ≠ .raised .requeueing) : (throw e : Action α).Queues :=
  fun _ ↦ .error List.prefix_rfl he

theorem raise {e : ScriptError} (he : e.IsScripted) : (Action.raise e : Action α).Queues :=
  failure fun h ↦ he.ne_requeueing (Failure.raised.inj h)

theorem read {f : Heap → Action α} (hf : ∀ h, (f h).Queues) : (Action.heap >>= f).Queues :=
  fun w ↦ hf w.heap w

theorem modifyHeap (f : Heap → Heap) : (Action.modifyHeap f).Queues := fun _ ↦ .ok List.prefix_rfl

theorem allocate (f : Heap → α × Heap) : (Action.allocate f).Queues := fun _ ↦ .ok List.prefix_rfl

/-- One after the other, both queue behind what is queued. -/
theorem bind {x : Action α} {f : α → Action β} (hx : x.Queues) (hf : ∀ a, (f a).Queues) :
    (x >>= f).Queues := by
  intro w
  have hw := hx w
  rw [Action.bind_apply]
  cases h : x w with
  | ok a w₁ =>
    rw [h] at hw
    exact (hf a w₁).after hw.grows
  | error e w₁ =>
    rw [h] at hw
    cases hw with
    | error hw he => exact .error hw he

/-- The one action that queues puts its callback at the end. -/
theorem nextTick (callback : Value) : (Action.nextTick callback).Queues := by
  cases callback with
  | function f =>
    refine fun w ↦ .ok ?_
    change w.run.ticks.toList <+: (w.run.ticks.push (.function f)).toList
    rw [Array.toList_push]
    exact List.prefix_append _ _
  | _ => exact pure _

theorem step : Action.step.Queues := by
  intro w
  by_cases h : w.run.noStepLeft
  · obtain ⟨b, hstep⟩ := Action.step_of_noStepLeft h
    rw [hstep]
    exact .error List.prefix_rfl nofun
  · rw [Action.step_of_stepLeft h]
    exact .ok List.prefix_rfl

theorem room : Action.room.Queues := by
  intro w
  by_cases h : w.run.hasRoom
  · rw [Action.room_of_hasRoom h]
    exact .ok List.prefix_rfl
  · rw [Action.room_of_not h]
    exact .error List.prefix_rfl nofun

theorem entering {x : Action α} (hx : x.Queues) : (Action.entering x).Queues := by
  intro w
  have hleave : w.enter.Queued (mapWorld World.leave (x w.enter)) :=
    (hx w.enter).mapWorld fun _ ↦ List.prefix_rfl
  rw [Action.entering_apply]
  exact hleave.after List.prefix_rfl

theorem calling {x : Action α} (hx : x.Queues) : (Action.calling x).Queues := by
  intro w
  by_cases h : w.run.depth < w.run.limits.maxCallDepth
  · have hascend : w.descend.Queued (mapWorld World.ascend (x w.descend)) :=
      (hx w.descend).mapWorld fun _ ↦ List.prefix_rfl
    rw [Action.calling_of_lt _ h]
    exact hascend.after List.prefix_rfl
  · rw [Action.calling_of_le _ (Nat.le_of_not_lt h)]
    exact .error List.prefix_rfl nofun

/-- The handler queues behind what the failure left. -/
theorem catching {x : Action α} {f : ScriptError → Action α} (hx : x.Queues)
    (hf : ∀ e, e.isCatchable = true → (f e).Queues) : (Action.catching x f).Queues := by
  intro w
  by_cases hc : Catchable (x w)
  · obtain ⟨e, w₁, h, he⟩ := hc
    have hw := hx w
    rw [h] at hw
    rw [Action.catching_of_catchable h he]
    exact (hf e he w₁).after hw.grows
  · rw [Action.catching_of_not hc]
    exact hx w

theorem stopping {x : Action α} (hx : x.Queues) (stops : World → Bool) :
    (Action.stopping stops x).Queues := by
  intro w
  by_cases h : stops w
  · rw [Action.stopping_of h]
    exact .error List.prefix_rfl nofun
  · rw [Action.stopping_of_not h]
    exact hx w

/-- The finalizer queues behind what its block left, also after a failure. -/
theorem finalizing {x f : Action Completion} (hx : x.Queues) (hf : f.Queues) :
    (Evaluation.finalizing x f).Queues := by
  intro w
  rcases settled_or_failure (x w) with hs | ⟨e, w₁, h, he⟩
  · rw [finalizing_of_settled hs]
    exact (hx w).finishing (hf _)
  · have hw := hx w
    rw [h] at hw
    rw [finalizing_of_failure h he]
    exact .error hw.grows (he _)

theorem deleteProperty (target : Value) (key : String) :
    (Action.deleteProperty target key).Queues := by
  cases target with
  | object o =>
    refine read fun h ↦ ?_
    split
    · exact raise (.of_suffix (by decide))
    · exact modifyHeap _
  | array a =>
    unfold Action.deleteProperty
    dsimp only
    split
    · exact modifyHeap _
    · exact pure _
  | _ => exact pure _

end Action.Queues

/-- The rule for every part of the syntax and every method. -/
theorem Congruence.queues : Congruence (fun _ x _ ↦ x.Queues) fun _ ↦ True where
  pure a := .pure a
  bind hx hf := .bind hx hf
  raise e he := .raise he
  read hf := .read hf
  function id _ _ hf := .read fun h ↦ hf (h.function id) (Function.within_true _)
  modifyHeap f _ := .modifyHeap f
  allocate f _ := .allocate f
  writeObject := Action.related_writeObject (.pure ()) .bind .read
    (fun _ ↦ .raise (.of_suffix (by decide))) fun _ _ _ ↦ .modifyHeap _
  newFunction fn _ := .bind (.allocate fun h ↦ h.newFunction fn) fun _ ↦ .pure _
  isRegistering := fun _ ↦ .ok List.prefix_rfl
  addHook _ _ := fun _ ↦ .ok List.prefix_rfl
  nextTick callback := .nextTick callback
  properties := fun _ ↦ .ok List.prefix_rfl
  entering hx := .entering hx
  catching hx hf := .catching hx hf

theorem Probing.queues (stop stop' : Stop) : Probing (fun _ x _ ↦ x.Queues) stop stop' := by
  have hR := Congruence.queues
  exact {
    toCongruence := hR
    step := Action.Queues.step.stopping _
    room := Action.Queues.room.stopping _
    finalize := fun hx hf _ _ ↦ (Action.Queues.finalizing hx hf).stopping _
    erase := fun target key ↦ (Action.Queues.deleteProperty target key).stopping _
    watches := fun _ _ hcall _ hc args ↦
      hR.watches hcall (fun _ _ ↦ .ok List.prefix_rfl) hc args
    stopping := fun _ _ _ _ hx ↦ hx.stopping _
    calling := fun _ _ _ _ _ hx ↦ (Action.Queues.calling hx).stopping _
    performing := fun id self args _ _ hfg hf hg ↦
      (hR.performing (.failure nofun) id self args (fun fn _ ↦ hfg fn) hf hg).stopping _
    unfinished := .failure nofun }

/-- Whatever an interpreter is asked to run, it queues behind what is queued. -/
theorem Action.Queues.run (n : Nat) (entry : Entry) : (entry.run (machineWithin n)).Queues := by
  rw [← probe_never]
  exact Machine.Related.run ((Probing.queues Stop.never Stop.never).related n) entry

/-! ### Rounds -/

/-- The call of a queued callback, and what it queues. -/
structure Tick where
  callback : Value
  queued : List Value

/-- Callbacks are called one after the other, and every call returns. -/
inductive Ticks (call : Caller) : World → List Tick → World → Prop
  | none (w : World) : Ticks call w [] w
  | next {w w₁ w₂ : World} {f v : Value} {queued : List Value} {later : List Tick} :
    call f .undefined [] w = .ok v w₁ → w₁.queue = w.queue ++ queued → Ticks call w₁ later w₂ →
    Ticks call w (⟨f, queued⟩ :: later) w₂

/-- So many rounds of a flush. In each the queue is emptied, and what was in it is called. -/
inductive TickRounds (call : Caller) : Nat → World → List Tick → World → Prop
  | none (w : World) : TickRounds call 0 w [] w
  | next {rounds : Nat} {w w₁ w₂ : World} {ticks later : List Tick} : w.queue ≠ [] →
    ticks.map Tick.callback = w.queue → Ticks call w.emptied ticks w₁ →
    TickRounds call rounds w₁ later w₂ → TickRounds call (rounds + 1) w (ticks ++ later) w₂

section

variable {call : Caller} {w w' : World}

/-- Calls put what they queue behind what is queued, in their order. -/
theorem Ticks.queue_eq {ticks : List Tick} (h : Ticks call w ticks w') :
    w'.queue = w.queue ++ ticks.flatMap Tick.queued := by
  induction h with
  | none w => exact (List.append_nil _).symm
  | next _ hqueued _ ih => rw [ih, hqueued, List.append_assoc, List.flatMap_cons]

/-- What has been called, and behind it what still waits, is what was queued at first and behind it
what the calls have queued. -/
theorem TickRounds.in_order {rounds : Nat} {ticks : List Tick}
    (h : TickRounds call rounds w ticks w') :
    ticks.map Tick.callback ++ w'.queue = w.queue ++ ticks.flatMap Tick.queued := by
  induction h with
  | none w => simp
  | @next rounds w w₁ w₂ ticks later _ hcalled hticks _ ih =>
    have hqueue : w₁.queue = ticks.flatMap Tick.queued := hticks.queue_eq
    rw [List.map_append, List.append_assoc, ih, hcalled, hqueue, List.flatMap_append]

/-- Complete rounds are over, and of the callbacks taken for the next one some have been called
while the others wait. -/
inductive Underway (call : Caller) : Nat → World → List Tick → List Value → World → Prop
  | intro {rounds : Nat} {w w₁ w₂ : World} {earlier ticks : List Tick} {waiting : List Value} :
    TickRounds call rounds w earlier w₁ → w₁.queue = ticks.map Tick.callback ++ waiting →
    Ticks call w₁.emptied ticks w₂ → Underway call rounds w (earlier ++ ticks) waiting w₂

/-- One complete round more, before all others. -/
theorem Underway.next {rounds : Nat} {w₁ : World} {ticks later : List Tick} {waiting : List Value}
    (h : Underway call rounds w₁ later waiting w') (hne : w.queue ≠ [])
    (hcalled : ticks.map Tick.callback = w.queue) (hticks : Ticks call w.emptied ticks w₁) :
    Underway call (rounds + 1) w (ticks ++ later) waiting w' := by
  cases h with
  | intro hrounds hqueue hlater =>
    rw [← List.append_assoc]
    exact .intro (.next hne hcalled hticks hrounds) hqueue hlater

/-- In the middle of a round too, what has been called, what waits and what is queued stand in the order
in which they came. -/
theorem Underway.in_order {rounds : Nat} {ticks : List Tick} {waiting : List Value}
    (h : Underway call rounds w ticks waiting w') :
    ticks.map Tick.callback ++ (waiting ++ w'.queue) = w.queue ++ ticks.flatMap Tick.queued := by
  cases h with
  | @intro w₁ _ earlier ticks _ hrounds hqueue hticks =>
    have hqueued : w'.queue = ticks.flatMap Tick.queued := hticks.queue_eq
    calc (earlier ++ ticks).map Tick.callback ++ (waiting ++ w'.queue)
        = (earlier.map Tick.callback ++ w₁.queue) ++ w'.queue := by simp [hqueue]
      _ = w.queue ++ (earlier ++ ticks).flatMap Tick.queued := by
        rw [hrounds.in_order, hqueued, List.append_assoc, List.flatMap_append]

/-! ### Calling what has been taken -/

/-- After calls that return, the rest is called. -/
theorem Ticks.callAll {ticks : List Tick} (h : Ticks call w ticks w') (rest : List Value) :
    Action.callAll call (ticks.map Tick.callback ++ rest) w = Action.callAll call rest w' := by
  induction h with
  | none w => rfl
  | @next w w₁ w₂ f v queued later hcall _ _ ih =>
    have hdiscard : (discard (call f .undefined []) : Action PUnit) w = .ok () w₁ := by
      change (call f .undefined [] >>= fun _ ↦ pure PUnit.unit) w = _
      rw [Action.bind_apply, hcall]
      rfl
    change (discard (call f .undefined []) >>= fun _ ↦
      Action.callAll call (later.map Tick.callback ++ rest)) w = _
    rw [Action.bind_apply, hdiscard]
    exact ih

/-- A call that fails ends them all. -/
theorem callAll_of_call_error {f : Value} {rest : List Value} {e : Failure}
    (h : call f .undefined [] w = .error e w') :
    Action.callAll call (f :: rest) w = .error e w' := by
  change (discard (call f .undefined []) >>= fun _ ↦ Action.callAll call rest) w = _
  have hdiscard : (discard (call f .undefined []) : Action PUnit) w = .error e w' := by
    change (call f .undefined [] >>= fun _ ↦ pure PUnit.unit) w = _
    rw [Action.bind_apply, h]
  rw [Action.bind_apply, hdiscard]

/-- All callbacks are called, or one fails and those behind it are not. -/
theorem exists_ticks (hqueues : ∀ f self args, (call f self args).Queues)
    (callbacks : List Value) : ∀ w : World,
    (∃ ticks w', ticks.map Tick.callback = callbacks ∧ Ticks call w ticks w') ∨
    ∃ ticks f waiting w₁ e w', ticks.map Tick.callback ++ f :: waiting = callbacks ∧
      Ticks call w ticks w₁ ∧ call f .undefined [] w₁ = .error e w' := by
  induction callbacks with
  | nil => exact fun w ↦ .inl ⟨[], w, rfl, .none w⟩
  | cons f rest ih =>
    intro w
    cases hcall : call f .undefined [] w with
    | error e w' => exact .inr ⟨[], f, rest, w, e, w', rfl, .none w, hcall⟩
    | ok v w₁ =>
      have hqueued := (hqueues f .undefined [] w).grows
      rw [hcall] at hqueued
      obtain ⟨queued, hqueued⟩ := hqueued
      have hnext {later : List Tick} {w₂ : World} (h : Ticks call w₁ later w₂) :
          Ticks call w (⟨f, queued⟩ :: later) w₂ := .next hcall hqueued.symm h
      obtain ⟨later, w', rfl, hlater⟩ | ⟨later, g, waiting, w₂, e, w', rfl, hlater, hfail⟩ := ih w₁
      · exact .inl ⟨_, w', rfl, hnext hlater⟩
      · exact .inr ⟨_, g, waiting, w₂, e, w', rfl, hnext hlater, hfail⟩

/-! ### Flushing -/

theorem Action.takeTicks_apply (w : World) : Action.takeTicks w = .ok w.queue w.emptied := rfl

/-- With nothing queued a flush is over. -/
theorem flushRounds_of_queue_eq_nil (rounds : Nat) (h : w.queue = []) :
    Action.flushRounds call rounds w = .ok () w := by
  have htake : Action.takeTicks w = .ok [] w := by
    rw [Action.takeTicks_apply, World.emptied_of_queue_eq_nil h, h]
  cases rounds with
  | zero => rw [Action.flushRounds, Action.bind_apply, htake]; rfl
  | succ rounds => rw [Action.flushRounds, Action.bind_apply, htake]; rfl

/-- When the rounds are over, something queued is an error, and is dropped. -/
theorem flushRounds_zero (h : w.queue ≠ []) :
    Action.flushRounds call 0 w = .error (.raised .requeueing) w.emptied := by
  rw [Action.flushRounds, Action.bind_apply, Action.takeTicks_apply]
  cases hqueue : w.queue with
  | nil => exact absurd hqueue h
  | cons f rest => rfl

/-- A round takes the queue, calls what was in it, and goes on with what was queued by then. -/
theorem flushRounds_succ (rounds : Nat) (h : w.queue ≠ []) :
    Action.flushRounds call (rounds + 1) w =
      (Action.callAll call w.queue >>= fun _ ↦ Action.flushRounds call rounds) w.emptied := by
  rw [Action.flushRounds, Action.bind_apply, Action.takeTicks_apply]
  cases hqueue : w.queue with
  | nil => exact absurd hqueue h
  | cons f rest => rfl

/-- Where a round can be completed, the flush completes it and goes on. -/
theorem flushRounds_of_ticks {ticks : List Tick} (rounds : Nat) (h : w.queue ≠ [])
    (hcalled : ticks.map Tick.callback = w.queue) (hticks : Ticks call w.emptied ticks w') :
    Action.flushRounds call (rounds + 1) w = Action.flushRounds call rounds w' := by
  have hall : Action.callAll call w.queue w.emptied = .ok () w' := by
    rw [← hcalled, ← List.append_nil (ticks.map Tick.callback), hticks.callAll]
    rfl
  rw [flushRounds_succ rounds h, Action.bind_apply, hall]

/-- Where a callback fails in a round, so does the flush. -/
theorem flushRounds_of_call_error {ticks : List Tick} {f : Value} {waiting : List Value}
    {w₁ : World} {e : Failure} (rounds : Nat)
    (hqueue : w.queue = ticks.map Tick.callback ++ f :: waiting)
    (hticks : Ticks call w.emptied ticks w₁) (hfail : call f .undefined [] w₁ = .error e w') :
    Action.flushRounds call (rounds + 1) w = .error e w' := by
  have hne : w.queue ≠ [] := by
    rw [hqueue]
    simp
  rw [flushRounds_succ rounds hne, Action.bind_apply, hqueue, hticks.callAll,
    callAll_of_call_error hfail]

/-- Complete rounds, then the rest of the flush. -/
theorem TickRounds.flushRounds {rounds : Nat} {ticks : List Tick}
    (h : TickRounds call rounds w ticks w') (more : Nat) :
    Action.flushRounds call (rounds + more) w = Action.flushRounds call more w' := by
  induction h with
  | none w => rw [Nat.zero_add]
  | @next rounds w w₁ w₂ ticks later hne hcalled hticks _ ih =>
    rw [Nat.add_right_comm, flushRounds_of_ticks _ hne hcalled hticks, ih]

/-- A flush fails with the first callback that does. -/
theorem Underway.flushRounds {rounds : Nat} {ticks : List Tick} {f : Value} {waiting : List Value}
    {w₁ : World} {e : Failure} (h : Underway call rounds w ticks (f :: waiting) w₁)
    (hfail : call f .undefined [] w₁ = .error e w') (more : Nat) :
    Action.flushRounds call (rounds + (more + 1)) w = .error e w' := by
  cases h with
  | intro hrounds hqueue hticks =>
    rw [hrounds.flushRounds, flushRounds_of_call_error more hqueue hticks hfail]

/-- How a flush of at most so many rounds ends: the queue runs empty, or some callback still waits
when the rounds are over, or a callback fails. -/
inductive FlushEnds (call : Caller) (limit : Nat) (w : World) : Outcome Unit → Prop
  | returns {rounds : Nat} {ticks : List Tick} {w' : World} : rounds ≤ limit →
    TickRounds call rounds w ticks w' → w'.queue = [] → FlushEnds call limit w (.ok () w')
  | givesUp {ticks : List Tick} {w₁ : World} : TickRounds call limit w ticks w₁ → w₁.queue ≠ [] →
    FlushEnds call limit w (.error (.raised .requeueing) w₁.emptied)
  | breaks {rounds : Nat} {ticks : List Tick} {f : Value} {waiting : List Value} {w₁ w' : World}
    {e : Failure} : rounds < limit → Underway call rounds w ticks (f :: waiting) w₁ →
    call f .undefined [] w₁ = .error e w' → FlushEnds call limit w (.error e w')

/-- What a flush is said to come to is what it comes to. -/
theorem FlushEnds.flushRounds {limit : Nat} {r : Outcome Unit} (h : FlushEnds call limit w r) :
    Action.flushRounds call limit w = r := by
  cases h with
  | @returns rounds ticks w' hle hrounds hempty =>
    have hrest := hrounds.flushRounds (limit - rounds)
    rw [Nat.add_sub_cancel' hle] at hrest
    exact hrest.trans (flushRounds_of_queue_eq_nil _ hempty)
  | givesUp hrounds hne => exact (hrounds.flushRounds 0).trans (flushRounds_zero hne)
  | @breaks rounds ticks f waiting w₁ w' e hlt hunderway hfail =>
    obtain ⟨more, rfl⟩ := Nat.exists_eq_add_of_lt hlt
    exact hunderway.flushRounds hfail more

/-- A complete round before a flush of the others. -/
theorem FlushEnds.next {limit : Nat} {w₁ : World} {ticks : List Tick} {r : Outcome Unit}
    (h : FlushEnds call limit w₁ r) (hne : w.queue ≠ [])
    (hcalled : ticks.map Tick.callback = w.queue) (hticks : Ticks call w.emptied ticks w₁) :
    FlushEnds call (limit + 1) w r := by
  cases h with
  | returns hle hrounds hempty =>
    exact .returns (Nat.succ_le_succ hle) (.next hne hcalled hticks hrounds) hempty
  | givesUp hrounds hwaiting => exact .givesUp (.next hne hcalled hticks hrounds) hwaiting
  | breaks hlt hunderway hfail =>
    exact .breaks (Nat.succ_lt_succ hlt) (hunderway.next hne hcalled hticks) hfail

/-- Every flush ends in one of the three ways. -/
theorem exists_flushEnds (hqueues : ∀ f self args, (call f self args).Queues) (limit : Nat) :
    ∀ w : World, ∃ r, FlushEnds call limit w r := by
  induction limit with
  | zero =>
    intro w
    by_cases hqueue : w.queue = []
    · exact ⟨_, .returns (Nat.le_refl 0) (.none w) hqueue⟩
    · exact ⟨_, .givesUp (.none w) hqueue⟩
  | succ limit ih =>
    intro w
    by_cases hqueue : w.queue = []
    · exact ⟨_, .returns (Nat.zero_le _) (.none w) hqueue⟩
    obtain ⟨ticks, w₁, hcalled, hticks⟩ | ⟨ticks, f, waiting, w₁, e, w', hcalled, hticks, hfail⟩ :=
      exists_ticks hqueues w.queue w.emptied
    · obtain ⟨r, hends⟩ := ih w₁
      exact ⟨r, hends.next hqueue hcalled hticks⟩
    · exact ⟨_, .breaks (Nat.succ_pos limit) (.intro (.none w) hcalled.symm hticks) hfail⟩

/-- The three ways in which a flush ends are exact. -/
theorem flushEnds_iff (hqueues : ∀ f self args, (call f self args).Queues) (limit : Nat)
    (r : Outcome Unit) : FlushEnds call limit w r ↔ Action.flushRounds call limit w = r := by
  refine ⟨FlushEnds.flushRounds, fun h ↦ ?_⟩
  obtain ⟨r', hends⟩ := exists_flushEnds hqueues limit w
  rwa [← h, hends.flushRounds]

end

/-- A flush returns when the queue has run empty, in at most a hundred rounds; it gives up when a
hundred rounds are over and some callback still waits; or it ends as the callback did that failed. In
every case the callbacks called so far and behind them those that wait are those queued at first and
behind them those queued since. So all of them have been called, each of them once and in their order,
if the flush returns, and none behind the one that failed if it does not. -/
theorem flushTicks_in_order (n : Nat) (w : World) :
    (∀ w', Action.flushTicks (machineWithin n).call w = .ok () w' ↔
      w'.queue = [] ∧ ∃ rounds ticks, rounds ≤ 100 ∧
        TickRounds (machineWithin n).call rounds w ticks w' ∧
        ticks.map Tick.callback = w.queue ++ ticks.flatMap Tick.queued) ∧
    (∀ w', Action.flushTicks (machineWithin n).call w = .error (.raised .requeueing) w' ↔
      w'.queue = [] ∧ ∃ ticks w₁, TickRounds (machineWithin n).call 100 w ticks w₁ ∧
        w₁.queue ≠ [] ∧ w' = w₁.emptied ∧
        ticks.map Tick.callback ++ w₁.queue = w.queue ++ ticks.flatMap Tick.queued) ∧
    ∀ e w', Action.flushTicks (machineWithin n).call w = .error e w' ∧ e ≠ .raised .requeueing ↔
      ∃ rounds ticks f waiting w₁, rounds < 100 ∧
        Underway (machineWithin n).call rounds w ticks (f :: waiting) w₁ ∧
        (machineWithin n).call f .undefined [] w₁ = .error e w' ∧
        ticks.map Tick.callback ++ (f :: waiting ++ w₁.queue) =
          w.queue ++ ticks.flatMap Tick.queued := by
  have hqueues (f self : Value) (args : List Value) : ((machineWithin n).call f self args).Queues :=
    Action.Queues.run n (.call f self args)
  have hiff (r : Outcome Unit) : FlushEnds (machineWithin n).call 100 w r ↔
      Action.flushTicks (machineWithin n).call w = r := flushEnds_iff hqueues 100 r
  have hfails {f : Value} {e : Failure} {w₁ w' : World}
      (h : (machineWithin n).call f .undefined [] w₁ = .error e w') : e ≠ .raised .requeueing := by
    have hqueued := hqueues f .undefined [] w₁
    rw [h] at hqueued
    cases hqueued with
    | error _ he => exact he
  refine ⟨fun w' ↦ ?returns, fun w' ↦ ?givesUp, fun e w' ↦ ?breaks⟩
  case returns =>
    constructor
    · intro h
      cases (hiff _).2 h with
      | @returns rounds ticks _ hle hrounds hempty =>
        have horder := hrounds.in_order
        rw [hempty, List.append_nil] at horder
        exact ⟨hempty, rounds, ticks, hle, hrounds, horder⟩
    · rintro ⟨hempty, rounds, ticks, hle, hrounds, -⟩
      exact (hiff _).1 (.returns hle hrounds hempty)
  case givesUp =>
    constructor
    · intro h
      cases (hiff _).2 h with
      | @givesUp ticks w₁ hrounds hne =>
        exact ⟨rfl, ticks, w₁, hrounds, hne, rfl, hrounds.in_order⟩
      | breaks _ _ hfail => exact absurd rfl (hfails hfail)
    · rintro ⟨-, ticks, w₁, hrounds, hne, rfl, -⟩
      exact (hiff _).1 (.givesUp hrounds hne)
  case breaks =>
    constructor
    · rintro ⟨h, he⟩
      cases (hiff _).2 h with
      | givesUp => exact absurd rfl he
      | @breaks rounds ticks f waiting w₁ _ _ hlt hunderway hfail =>
        exact ⟨rounds, ticks, f, waiting, w₁, hlt, hunderway, hfail, hunderway.in_order⟩
    · rintro ⟨rounds, ticks, f, waiting, w₁, hlt, hunderway, hfail, -⟩
      exact ⟨(hiff _).1 (.breaks hlt hunderway hfail), hfails hfail⟩

end Nodecraft.Sandbox
