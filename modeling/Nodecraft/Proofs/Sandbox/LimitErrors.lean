import Nodecraft.Proofs.Sandbox.Escape

/-!
# What becomes of limit errors

A script cannot catch the errors of a run that goes beyond its limits, but a finalizer may end in
its own way instead. An error of the step budget survives this: no finalizer gets a statement done
any more, so a run that has used up its budget ends at it. An error of the call depth does not
survive a finalizer that returns, breaks, continues or raises another error, since the finalizer
makes its own calls from a smaller depth, and the same goes for the error of a native stack without
room for another entry. So a run that is refused a call or an entry (`Refusal`) and does not end with
the error that tells so is a run that comes to such a finalizer (`run_ends_at_limit`).
-/

set_option autoImplicit false

namespace Nodecraft.Sandbox

open Script Evaluation

/-! ### Limits and finalizers as reasons to stop -/

/-- Errors of the step budget. -/
def Failure.IsBudget : Failure → Prop
  | .raised (.stepBudget _) => True
  | _ => False

/-- What a run may be refused although it has steps left. -/
inductive Refusal
  /-- A call beyond the depth. -/
  | call
  /-- An entry that the native stack has no room for. -/
  | entry

/-- The error that tells of a refusal. -/
def Refusal.tells : Refusal → ScriptError → Bool
  | .call, .callDepth _ => true
  | .entry, .stackExhausted => true
  | _, _ => false

/-- The errors that tell of a refusal, as failures of a run. -/
def Refusal.IsError (refusal : Refusal) : Failure → Prop
  | .raised e => refusal.tells e
  | _ => False

instance (refusal : Refusal) : DecidablePred refusal.IsError
  | .raised e => inferInstanceAs (Decidable (refusal.tells e = true))
  | .unfinished => isFalse id
  | .overlap => isFalse id

/-- No handler sees the error of the budget. -/
theorem Failure.uncatchable_isBudget : Uncatchable Failure.IsBudget := by
  intro e h
  cases e with
  | stepBudget b => rfl
  | _ => exact h.elim

/-- No handler sees the error of a refused call or entry. -/
theorem Refusal.uncatchable (refusal : Refusal) : Uncatchable refusal.IsError := by
  intro e h
  cases refusal with
  | call =>
    cases e with
    | callDepth limit => rfl
    | _ => cases h
  | entry =>
    cases e with
    | stackExhausted => rfl
    | _ => cases h

/-- Running out of steps is no refusal. -/
theorem Refusal.not_stepBudget (refusal : Refusal) (limit : Nat) :
    ¬refusal.IsError (.raised (.stepBudget limit)) := by
  cases refusal <;> exact Bool.false_ne_true

/-- Staying within the budget is ending otherwise than at it. -/
theorem inBudget_iff {α : Type} {r : Outcome α} :
    InBudget r ↔ Finished r ∧ ¬EndsWith Failure.IsBudget r := by
  cases r with
  | ok a w => exact iff_of_true trivial ⟨trivial, not_endsWith_ok⟩
  | error e w =>
    rw [endsWith_error]
    cases e with
    | raised e =>
      cases e with
      | stepBudget b => exact iff_of_false id fun h ↦ h.2 trivial
      | _ => exact iff_of_true trivial ⟨trivial, id⟩
    | unfinished => exact iff_of_false id And.left
    | overlap => exact iff_of_true trivial ⟨trivial, id⟩

/-- Stops at a step that the budget does not allow. -/
def Stop.budget : Stop
  | .step, w => w.run.noStepLeft
  | _, _ => false

/-- Stops at a call that would be too deep, or at an entry that there is no room for. -/
def Stop.refused (refusal : Refusal) : Stop
  | .invoke _ _ _, w =>
    match refusal with
    | .call => w.run.limits.maxCallDepth ≤ w.run.depth
    | .entry => false
  | .room, w =>
    match refusal with
    | .call => false
    | .entry => !w.run.hasRoom
  | _, _ => false

/-- A finalizer that ends in this way leaves nothing of an error that tells of the refusal. -/
def Refusal.overrules (refusal : Refusal) : Outcome Completion → Bool
  | .ok .normal _ => false
  | .ok _ _ => true
  | .error (.raised e) _ => !refusal.tells e
  | .error .unfinished _ => false
  | .error .overlap _ => true

/-- Stops where a finalizer ends in its own way after a guarded part that was refused something. -/
def Stop.overruled (refusal : Refusal) : Stop
  | .finish (.error (.raised e) _) r', _ => refusal.tells e && refusal.overrules r'
  | _, _ => false

namespace Stop

variable {q : Query} {refusal : Refusal} {r r' : Outcome Completion} {w : World}

theorem not_budget (hq : q.IsPlain) (w : World) : ¬Stop.budget q w := by
  cases q with
  | step => exact hq.elim
  | _ => exact Bool.false_ne_true

theorem not_refused (hq : q.IsPlain) (w : World) : ¬Stop.refused refusal q w := by
  cases q with
  | room => exact hq.elim
  | invoke f self args => exact hq.elim
  | _ => exact Bool.false_ne_true

theorem not_overruled (hq : q.IsPlain) (w : World) : ¬Stop.overruled refusal q w := by
  cases q with
  | finish r r' => exact hq.elim
  | _ => exact Bool.false_ne_true

/-- Only an error of the refusal is overruled. -/
theorem endsWith_of_overruled (h : Stop.overruled refusal (.finish r r') w) :
    EndsWith refusal.IsError r := by
  cases r with
  | ok c w' => cases h
  | error e w' =>
    cases e with
    | raised e => exact endsWith_error.2 (Bool.and_eq_true_iff.1 h).1
    | unfinished => cases h
    | overlap => cases h

/-- A finalizer that does not overrule passes the error on: it ends normally or with such an error
of its own. -/
theorem endsWith_finishing (h : ¬Stop.overruled refusal (.finish r r') w)
    (hr : EndsWith refusal.IsError r) (hfin : Finished (finishing r r')) :
    EndsWith refusal.IsError (finishing r r') := by
  have hnot : ¬refusal.overrules r' := by
    obtain ⟨e, w₁, rfl, he⟩ := hr
    cases e with
    | raised e => exact fun h' ↦ h (Bool.and_eq_true_iff.2 ⟨he, h'⟩)
    | _ => exact he.elim
  cases r' with
  | ok c w' =>
    cases c with
    | normal => exact (endsWith_mapWorld (fun _ ↦ w') r).2 hr
    | _ => exact absurd rfl hnot
  | error e w' =>
    cases e with
    | raised e =>
      refine endsWith_error.2 (Classical.byContradiction fun htells ↦ hnot ?_)
      exact Bool.not_eq_true' _ ▸ Bool.eq_false_iff.2 htells
    | unfinished => exact hfin.elim
    | overlap => exact absurd rfl hnot

end Stop

/-! ### Runs that stay within their limits -/

/-- A run that has its steps left does not end at its budget. -/
theorem Probing.avoids_budget :
    Probing (fun _ x y ↦ x.Avoids Failure.IsBudget y) Stop.budget Stop.never := by
  have hR := Congruence.avoids Failure.uncatchable_isBudget
  exact {
    toCongruence := hR
    step := .stopping (fun _ ↦ Bool.false_ne_true) fun w hw _ ↦ by
      rw [Action.step_of_stepLeft hw]
      exact ⟨rfl, not_endsWith_ok⟩
    room := .stopping_of_not (.room id) fun _ ↦ Bool.false_ne_true
    finalize := fun hxy hfg _ _ ↦ .finalizing hxy hfg (fun _ _ _ ↦ Bool.false_ne_true)
      fun _ _ _ h ↦ absurd h Bool.false_ne_true
    erase := fun target key ↦ .stopping_of_not
      (.of_neutral Failure.uncatchable_isBudget (.deleteProperty target key))
      fun _ ↦ Bool.false_ne_true
    watches := fun _ _ hcall _ hc args ↦ hR.watches hcall
      (fun w ↦ .of_neutral Failure.uncatchable_isBudget (.addWatcher w)) hc args
    stopping := fun q x y _ hxy ↦ hxy.stopping_of_not fun _ ↦ Bool.false_ne_true
    calling := fun id self args x y hxy ↦
      .stopping_of_not (hxy.calling fun _ h ↦ h) fun _ ↦ Bool.false_ne_true
    performing := fun id self args f g hfg hf hg ↦ by
      have h := hR.performing (.overlap fun h ↦ h) id self args (fun fn _ ↦ hfg fn) hf hg
      exact h.stopping_of_not fun _ ↦ Bool.false_ne_true
    unfinished := fun _ h ↦ h.elim }

/-- A run that is refused nothing has nothing for a finalizer to overrule. -/
theorem Probing.avoids_refusal (refusal : Refusal) :
    Probing (fun _ x y ↦ x.Avoids refusal.IsError y) (Stop.refused refusal)
      (Stop.overruled refusal) := by
  have hR := Congruence.avoids refusal.uncatchable
  exact {
    toCongruence := hR
    step := .stopping_of_not (.step refusal.not_stepBudget) fun _ ↦ Bool.false_ne_true
    room := by
      cases refusal with
      | call => exact .stopping_of_not (.room Bool.false_ne_true) fun _ ↦ Bool.false_ne_true
      | entry =>
        refine .stopping (fun _ ↦ Bool.false_ne_true) fun w hw _ ↦ ?_
        rw [Action.room_of_hasRoom (Bool.of_not_eq_false fun h ↦ hw (by rw [Stop.refused, h]; rfl))]
        exact ⟨rfl, not_endsWith_ok⟩
    finalize := fun hxy hfg _ _ ↦ .finalizing hxy hfg (fun _ _ _ ↦ Bool.false_ne_true)
      fun _ _ _ ↦ Stop.endsWith_of_overruled
    erase := fun target key ↦ .stopping_of_not
      (.of_neutral refusal.uncatchable (.deleteProperty target key)) fun _ ↦ Bool.false_ne_true
    watches := fun _ _ hcall _ hc args ↦ hR.watches hcall
      (fun w ↦ .of_neutral refusal.uncatchable (.addWatcher w)) hc args
    stopping := fun q x y hq hxy ↦ hxy.stopping_of_not (Stop.not_overruled hq)
    calling := fun id self args x y hxy ↦ by
      cases refusal with
      | call =>
        refine .stopping (fun _ ↦ Bool.false_ne_true) fun w hw hfin ↦ ?_
        exact hxy.calling_of_lt (Nat.lt_of_not_le fun hle ↦ hw (decide_eq_true hle)) hfin
      | entry =>
        exact .stopping_of_not (hxy.calling fun _ ↦ Bool.false_ne_true) fun _ ↦ Bool.false_ne_true
    performing := fun id self args f g hfg hf hg ↦ by
      have h := hR.performing (.overlap fun h ↦ h) id self args (fun fn _ ↦ hfg fn) hf hg
      exact h.stopping_of_not fun _ ↦ Bool.false_ne_true
    unfinished := fun _ h ↦ h.elim }

/-! ### Runs that go beyond their limits -/

/-- A run that has used up its budget ends at it: once this is so, a finalizer ends normally or
with the same error. -/
theorem Probing.keeps_budget :
    Probing (fun _ x y ↦ x.Metered 1 ∧ x.Balanced ∧ x.Keeps Failure.IsBudget 1 y)
      Stop.never Stop.budget := by
  have hR := Congruence.metered.and (.keeps Failure.uncatchable_isBudget 1)
  exact {
    toCongruence := hR
    step := by
      refine ⟨by rw [Action.stopping_never]; exact .step, .stopping .step _,
        .stopping fun w _ _ _ ↦ ?_⟩
      by_cases hw : w.run.noStepLeft
      · obtain ⟨b, hstep⟩ := Action.step_of_noStepLeft hw
        rw [hstep]
        exact .inl (endsWith_error.2 trivial)
      · exact .inr ⟨hw, rfl⟩
    room := ⟨by rw [Action.stopping_never]; exact .room, .stopping .room _,
      .stopping_of_not (.refl _) fun _ ↦ Bool.false_ne_true⟩
    finalize := fun {x y f g} hxy hfg hxf _ ↦ by
      refine ⟨by rw [Action.finalizingUnless_never]; exact hxy.1.finalizing hfg.1 hxf,
        hxy.2.1.finalizingUnless hfg.2.1 _, .finalizing hxy.2.1 hxy.2.2 hfg.2.2
          (fun _ _ _ ↦ Bool.false_ne_true) fun w hn hs hends _ hfin ↦ ?_⟩
      refine Classical.byContradiction fun hnot ↦ ?_
      have hx := Action.Metered.inBudget_of_finalizing hxy.1 hxf hn hs
        (inBudget_iff.2 ⟨hfin, hnot⟩)
      exact (inBudget_iff.1 hx).2 hends
    erase := fun target key ↦
      ⟨by rw [Action.stopping_never]; exact .of_neutral (.deleteProperty target key),
        .stopping (.of_neutral (.deleteProperty target key)) _,
        .stopping_of_not (.refl _) fun _ ↦ Bool.false_ne_true⟩
    watches := fun _ _ hcall _ hc args ↦ hR.watches hcall (fun w ↦
      ⟨.of_neutral (.addWatcher w), .of_neutral (.addWatcher w), .refl _⟩) hc args
    stopping := fun q x y hq hxy ↦ ⟨by rw [Action.stopping_never]; exact hxy.1,
      hxy.2.1.stopping _, hxy.2.2.stopping_of_not (Stop.not_budget hq)⟩
    calling := fun id self args x y hxy ↦ ⟨by rw [Action.stopping_never]; exact hxy.1.calling,
      hxy.2.1.calling.stopping _, .stopping_of_not (.calling hxy.2.2) fun _ ↦ Bool.false_ne_true⟩
    performing := fun id self args f g hfg hf hg ↦ by
      have h := hR.performing ⟨.overlap, .failure _, .refl _⟩ id self args (fun fn _ ↦ hfg fn) hf hg
      exact ⟨by rw [Action.stopping_never]; exact h.1, h.2.1.stopping _,
        h.2.2.stopping_of_not fun _ ↦ Bool.false_ne_true⟩
    unfinished := ⟨.unfinished, .failure _, .refl _⟩ }

/-- Where no finalizer overrules an error that tells of a refusal, a run that is refused something ends
with one. -/
theorem Probing.keeps_refusal (refusal : Refusal) :
    Probing (fun _ x y ↦ x.Balanced ∧ x.Keeps refusal.IsError 0 y)
      (Stop.overruled refusal) (Stop.refused refusal) := by
  have hR := Congruence.keeps refusal.uncatchable 0
  exact {
    toCongruence := hR
    step := ⟨.stopping .step _, .stopping_of_not (.refl _) fun _ ↦ Bool.false_ne_true⟩
    room := by
      refine ⟨.stopping .room _, .stopping fun w _ _ _ ↦ ?_⟩
      cases refusal with
      | call => exact .inr ⟨Bool.false_ne_true, rfl⟩
      | entry =>
        by_cases hroom : w.run.hasRoom
        · exact .inr ⟨by rw [Stop.refused, hroom]; exact Bool.false_ne_true, rfl⟩
        · rw [Action.room_of_not hroom]
          exact .inl (endsWith_error.2 rfl)
    finalize := fun hxy hfg _ _ ↦
      ⟨hxy.1.finalizingUnless hfg.1 _, .finalizing hxy.1 hxy.2 hfg.2
        (fun _ _ _ ↦ Bool.false_ne_true) fun _ _ _ hends hq hfin ↦
          Stop.endsWith_finishing hq hends hfin⟩
    erase := fun target key ↦ ⟨.stopping (.of_neutral (.deleteProperty target key)) _,
      .stopping_of_not (.refl _) fun _ ↦ Bool.false_ne_true⟩
    watches := fun _ _ hcall _ hc args ↦
      hR.watches hcall (fun w ↦ ⟨.of_neutral (.addWatcher w), .refl _⟩) hc args
    stopping := fun q x y hq hxy ↦
      ⟨hxy.1.stopping _, hxy.2.stopping_of_not (Stop.not_refused hq)⟩
    calling := fun id self args x y hxy ↦ by
      refine ⟨hxy.1.calling.stopping _, ?_⟩
      cases refusal with
      | call =>
        refine .stopping fun w hn _ hfin ↦ ?_
        by_cases hdepth : w.run.depth < w.run.limits.maxCallDepth
        · rcases hxy.2.calling_of_lt hn hdepth hfin with h | h
          · exact .inl h
          · exact .inr ⟨fun hle ↦ Nat.not_le_of_lt hdepth (of_decide_eq_true hle), h⟩
        · rw [Action.calling_of_le _ (Nat.le_of_not_lt hdepth)]
          exact .inl (endsWith_error.2 rfl)
      | entry => exact .stopping_of_not (.calling hxy.2) fun _ ↦ Bool.false_ne_true
    performing := fun id self args f g hfg hf hg ↦ by
      have h := hR.performing ⟨.failure _, .refl _⟩ id self args (fun fn _ ↦ hfg fn) hf hg
      exact ⟨h.1.stopping _, h.2.stopping_of_not fun _ ↦ Bool.false_ne_true⟩
    unfinished := ⟨.failure _, .refl _⟩ }

/-! ### Runs -/

/-- A run that does not end at its budget does not come to a step beyond it. -/
theorem Entry.keeps_budget (entry : Entry) (n : Nat) :
    (entry.run (machineWithin n)).Keeps Failure.IsBudget 0
      (entry.run (probe Stop.budget n)) := by
  have h (n : Nat) := Probing.keeps_budget.related n
  simp only [probe_never] at h
  have hnested (n : Nat) {α : Type} {x y : Action α} (hxy : x.Keeps Failure.IsBudget 1 y) :
      ((machineWithin n).nested x).Keeps Failure.IsBudget 0 ((probe Stop.budget n).nested y) := by
    have hroom : (probe Stop.budget n).room = Action.room := by
      rw [probe_room]
      funext w
      exact Action.stopping_of_not Bool.false_ne_true
    unfold Machine.nested
    rw [hroom]
    exact .bind .room (.refl _) fun _ ↦ hxy.entering (Nat.le_refl _)
  cases entry with
  | program s body =>
    have hblock := (h n _).block s body (Nat.le_refl _)
    refine .bind (.bind .room fun _ ↦ hblock.2.1.entering) (hnested n hblock.2.2) fun c ↦ ?_
    cases c <;> exact .refl _
  | call f self args =>
    cases f with
    | function id => exact hnested n ((h n 0).invoke id self args).2.2
    | _ => exact .refl _
  | eval s e =>
    cases n with
    | zero => exact .refl _
    | succ n =>
      have hexpr := ((h n _).expression s e (Nat.le_refl _)).2.2
      have hprobe : (probe Stop.budget (n + 1)).eval s e =
          (probe Stop.budget n).nested (expression (probe Stop.budget n) s e) := by
        funext w
        exact Action.stopping_of_not (Stop.not_budget (q := .eval s e) trivial w)
      change Action.Keeps _ _ _ ((probe Stop.budget (n + 1)).eval s e)
      rw [hprobe]
      exact hnested n hexpr

/-- A run ends with an error of the step budget exactly if it comes to a step that the budget does
not allow. A run that ends in another way than with an error of the call depth has come to a call
beyond the depth exactly if it comes to a finalizer that ends in its own way after such an error, and
so for the entries that the native stack has no room for and the error of the stack. -/
theorem run_ends_at_limit (entry : Entry) (n : Nat) (w : World)
    (h : Finished (entry.run (machineWithin n) w)) :
    (entry.Reaches Stop.budget n w ↔
      EndsWith Failure.IsBudget (entry.run (machineWithin n) w)) ∧
    ∀ refusal : Refusal, ¬EndsWith refusal.IsError (entry.run (machineWithin n) w) →
      (entry.Reaches (Stop.refused refusal) n w ↔ entry.Reaches (Stop.overruled refusal) n w) := by
  refine ⟨⟨fun hreach ↦ ?_, fun hends ↦ ⟨h, fun hfin ↦ ?_⟩⟩, fun refusal hends ↦
    ⟨fun hreach ↦ ⟨h, fun hfin ↦ ?_⟩, fun hreach ↦ ⟨h, fun hfin ↦ ?_⟩⟩⟩
  · rcases entry.keeps_budget n w (Nat.zero_le _) h with hends | hprobe
    · exact hends
    · exact absurd (hprobe ▸ h) hreach.2
  · have havoids := Machine.Related.run (Probing.avoids_budget.related n) entry w hfin
    rw [probe_never] at havoids
    exact havoids.2 (havoids.1 ▸ hends)
  · have hrun := entry.run_probe (Stop.overruled refusal) n hfin
    have hkeeps := Machine.Related.run ((Probing.keeps_refusal refusal).related n) entry
    rcases hkeeps.2 w (Nat.zero_le _) hfin with hends' | hprobe
    · exact hends (hrun ▸ hends')
    · exact hreach.2 (hprobe ▸ hfin)
  · have havoids := Machine.Related.run ((Probing.avoids_refusal refusal).related n) entry w hfin
    exact hreach.2 (havoids.1 ▸ hfin)

/-- A call where no call is allowed, and a finalizer that returns. -/
def returningFinalizer : Entry :=
  let tooDeep := Stmt.expr (.call (.function (.make none [] none [] false)) [] false)
  .program ⟨0⟩ [.tryCatch [tooDeep] none none (some [.return (some (.literal (.bool true)))])]

/-- A world of a run that may not call anything. -/
def World.withoutCalls : World :=
  ⟨Heap.empty, Run.start ⟨0, some 100, fun _ _ ↦ true⟩ .undefined⟩

/-- A world of a run whose native stack has room for four entries. -/
def World.ofFourEntries : World :=
  ⟨Heap.empty, Run.start ⟨100, some 100, fun entries _ ↦ entries < 4⟩ .undefined⟩

theorem returningFinalizer_ends :
    (returningFinalizer.Reaches (Stop.refused .call) 6 .withoutCalls ↔
      returningFinalizer.Reaches (Stop.overruled .call) 6 .withoutCalls) ∧
    (returningFinalizer.Reaches (Stop.refused .entry) 6 .ofFourEntries ↔
      returningFinalizer.Reaches (Stop.overruled .entry) 6 .ofFourEntries) :=
  ⟨(run_ends_at_limit returningFinalizer 6 .withoutCalls (by decide +kernel)).2 .call
      (by decide +kernel),
    (run_ends_at_limit returningFinalizer 6 .ofFourEntries (by decide +kernel)).2 .entry
      (by decide +kernel)⟩

/-- The call is too deep, and yet the run returns a value. So it does without room for an entry. -/
theorem returningFinalizer_overrules :
    (returningFinalizer.Reaches (Stop.refused .call) 6 .withoutCalls ∧
      (match returningFinalizer.run (machineWithin 6) .withoutCalls with
        | .ok (.bool b) _ => b
        | _ => false) = true) ∧
    returningFinalizer.Reaches (Stop.refused .entry) 6 .ofFourEntries ∧
      (match returningFinalizer.run (machineWithin 6) .ofFourEntries with
        | .ok (.bool b) _ => b
        | _ => false) = true := by
  decide +kernel

end Nodecraft.Sandbox
