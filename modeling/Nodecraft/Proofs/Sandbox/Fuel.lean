import Nodecraft.Proofs.Sandbox.Probe

/-!
# Outcomes do not depend on the bound on nesting

The machine bounds how deep evaluations nest and how often loops go round. A run that ends by
itself ends in the same way under every larger bound, and a run that a probe does not break off
ends as the probe says (`probe_refines`). Both are one relation between actions: the second does
whatever the first does, unless the first is broken off.
-/

set_option autoImplicit false

namespace Nodecraft.Sandbox

open Script Evaluation

/-- The action came to an end by itself. -/
def Finished {α : Type} : Outcome α → Prop
  | .error .unfinished _ => False
  | _ => True

instance {α : Type} : ∀ r : Outcome α, Decidable (Finished r)
  | .ok _ _ => isTrue trivial
  | .error (.raised _) _ => isTrue trivial
  | .error .unfinished _ => isFalse id
  | .error .overlap _ => isTrue trivial

theorem Finished.of_mapWorld {α : Type} {f : World → World} {r : Outcome α}
    (h : Finished (mapWorld f r)) : Finished r := by
  cases r with
  | ok a w => exact trivial
  | error e w => cases e <;> exact h

theorem Finished.mapWorld {α : Type} {r : Outcome α} (h : Finished r) (f : World → World) :
    Finished (mapWorld f r) := by
  cases r with
  | ok a w => exact trivial
  | error e w => cases e <;> exact h

/-- Whether a failed action came to an end depends on the failure only. -/
theorem Finished.of_error {α β : Type} {e : Failure} {w w' : World}
    (h : Finished (.error e w : Outcome α)) : Finished (.error e w' : Outcome β) := by
  cases e <;> exact h

theorem Settled.finished {α : Type} {r : Outcome α} (h : Settled r) : Finished r := by
  cases r with
  | ok a w => exact trivial
  | error e w =>
    cases e with
    | raised e => exact trivial
    | unfinished => exact h
    | overlap => exact trivial

/-- Without an end of the finalizer there is none of the whole. -/
theorem Finished.of_finishing {r r' : Outcome Completion} (h : Finished (finishing r r')) :
    Finished r' := by
  cases r' with
  | ok c w => exact trivial
  | error e w => exact h

theorem Finished.finishing {r r' : Outcome Completion} (h : Finished r) (h' : Finished r') :
    Finished (finishing r r') := by
  cases r' with
  | ok c w =>
    cases c with
    | normal => exact h.mapWorld _
    | _ => exact trivial
  | error e w => exact h'

/-- The second action does what the first does, unless the first is broken off. -/
def Action.Refines {α : Type} (x y : Action α) : Prop :=
  ∀ w, Finished (x w) → y w = x w

namespace Action.Refines

variable {α β : Type}

theorem refl (x : Action α) : x.Refines x := fun _ _ ↦ rfl

theorem trans {x y z : Action α} (hxy : x.Refines y) (hyz : y.Refines z) : x.Refines z := by
  intro w hw
  have hy : y w = x w := hxy w hw
  rw [hyz w (by rwa [hy]), hy]

theorem of_unfinished (y : Action α) : (throw .unfinished : Action α).Refines y :=
  fun _ h ↦ h.elim

/-- Less fuel for the parts is less fuel for the whole. -/
theorem bind {x y : Action α} {f g : α → Action β} (hxy : x.Refines y)
    (hfg : ∀ a, (f a).Refines (g a)) : (x >>= f).Refines (y >>= g) := by
  intro w hw
  rw [Action.bind_apply] at hw
  rw [Action.bind_apply, Action.bind_apply]
  cases hx : x w with
  | ok a w' =>
    rw [hx] at hw
    rw [hxy w (by rw [hx]; trivial), hx]
    exact hfg a w' hw
  | error e w' =>
    rw [hx] at hw
    rw [hxy w (by rw [hx]; exact hw.of_error), hx]

/-- More fuel inside of an entry. -/
theorem entering {x y : Action α} (hxy : x.Refines y) :
    (Action.entering x).Refines (Action.entering y) := by
  intro w hw
  rw [Action.entering_apply] at hw
  rw [Action.entering_apply, Action.entering_apply, hxy _ hw.of_mapWorld]

theorem calling {x y : Action α} (hxy : x.Refines y) :
    (Action.calling x).Refines (Action.calling y) := by
  intro w hw
  by_cases hdepth : w.run.depth < w.run.limits.maxCallDepth
  · rw [Action.calling_of_lt _ hdepth] at hw
    rw [Action.calling_of_lt _ hdepth, Action.calling_of_lt _ hdepth, hxy _ hw.of_mapWorld]
  · rw [Action.calling_of_le _ (Nat.le_of_not_lt hdepth),
      Action.calling_of_le _ (Nat.le_of_not_lt hdepth)]

/-- An error that is caught with less fuel is caught with more. -/
theorem catching {x y : Action α} {f g : ScriptError → Action α} (hxy : x.Refines y)
    (hfg : ∀ e, e.isCatchable = true → (f e).Refines (g e)) :
    (Action.catching x f).Refines (Action.catching y g) := by
  intro w hw
  by_cases hc : Catchable (x w)
  · obtain ⟨e, w', hx, he⟩ := hc
    have hy : y w = .error (.raised e) w' := by rw [hxy w (by rw [hx]; trivial), hx]
    rw [Action.catching_of_catchable hx he] at hw
    rw [Action.catching_of_catchable hx he, Action.catching_of_catchable hy he, hfg e he w' hw]
  · rw [Action.catching_of_not hc] at hw
    have hy : y w = x w := hxy w hw
    rw [Action.catching_of_not hc, Action.catching_of_not (by rwa [hy]), hy]

/-- What stops less often refines what stops more often. -/
theorem stopping {stop stop' : World → Bool} (hstop : ∀ w, stop' w → stop w) {x y : Action α}
    (hxy : x.Refines y) : (Action.stopping stop x).Refines (Action.stopping stop' y) := by
  intro w hw
  by_cases hs : stop w
  · rw [Action.stopping_of hs] at hw
    exact hw.elim
  · rw [Action.stopping_of_not hs] at hw
    rw [Action.stopping_of_not hs, Action.stopping_of_not fun h ↦ hs (hstop w h)]
    exact hxy w hw

/-- A block and a finalizer that stop less often. -/
theorem finalizingUnless {stop stop' : Stop} (hstop : ∀ q w, stop' q w → stop q w)
    {x y f g : Action Completion} (hxy : x.Refines y) (hfg : f.Refines g) :
    (Action.finalizingUnless stop x f).Refines (Action.finalizingUnless stop' y g) := by
  intro w hw
  rcases settled_or_failure (x w) with hs | ⟨e, w', hx, he⟩
  · have hy : y w = x w := hxy w hs.finished
    by_cases hq : stop (.finish (x w) (f (finalWorld (x w)))) w
    · rw [Action.finalizingUnless_of hs hq] at hw
      exact hw.elim
    · rw [Action.finalizingUnless_of_not hs hq] at hw
      have hg : g (finalWorld (x w)) = f (finalWorld (x w)) := hfg _ hw.of_finishing
      have hq' : ¬stop' (.finish (y w) (g (finalWorld (y w)))) w := by
        rw [hy, hg]
        exact fun h ↦ hq (hstop _ w h)
      rw [Action.finalizingUnless_of_not hs hq, Action.finalizingUnless_of_not (by rwa [hy]) hq',
        hy, hg]
  · rw [Action.finalizingUnless_of_failure hx he] at hw
    have hy : y w = .error e w' := by rw [hxy w (by rwa [hx]), hx]
    rw [Action.finalizingUnless_of_failure hx he, Action.finalizingUnless_of_failure hy he]

end Action.Refines

/-- A probe refines the probes that stop at fewer queries. -/
theorem Probing.refines {stop stop' : Stop} (hstop : ∀ q w, stop' q w → stop q w) :
    Probing (fun _ x y ↦ x.Refines y) stop stop' := by
  have hR : Congruence (fun _ x y ↦ x.Refines y) fun _ ↦ True :=
    .ofNeutral (fun _ ↦ .refl _) .bind .entering .catching
  exact {
    toCongruence := hR
    step := .stopping (hstop .step) (.refl _)
    room := .stopping (hstop .room) (.refl _)
    finalize := fun hxy hfg _ _ ↦ .finalizingUnless hstop hxy hfg
    erase := fun target key ↦ .stopping (hstop (.erase target key)) (.refl _)
    watches := fun _ _ hcall _ hc args ↦ hR.watches hcall (fun _ ↦ .refl _) hc args
    stopping := fun q _ _ _ h ↦ .stopping (hstop q) h
    calling := fun _ _ _ _ _ h ↦ .stopping (hstop _) (.calling h)
    performing := fun id self args _ _ hfg hf hg ↦ .stopping (hstop _)
      (hR.performing (.refl _) id self args (fun fn _ ↦ hfg fn) hf hg)
    unfinished := .refl _ }

/-- A probe refines the probes that nest as deep and stop at fewer queries. -/
theorem probe_refines {stop stop' : Stop} (hstop : ∀ q w, stop' q w → stop q w) (n : Nat) :
    ∀ n', n ≤ n' → ∀ size, Machine.Related (fun _ x y ↦ x.Refines y) (fun _ ↦ True) size
      (probe stop n) (probe stop' n') := by
  have hR := Probing.refines hstop
  induction n with
  | zero =>
    intro n' _ size
    have hroom : (probe stop 0).room.Refines (probe stop' n').room := by
      rw [probe_room, probe_room]
      exact hR.room
    exact {
      toCongruence := hR.toCongruence
      admits := fun _ _ ↦ trivial
      step := by rw [probe_step, probe_step]; exact hR.step
      room := hroom
      finalize := by rw [probe_finalize, probe_finalize]; exact hR.finalize
      erase := fun target key ↦ by rw [probe_erase, probe_erase]; exact hR.erase target key
      watches := hR.watches 0 n' (hR.machineCall hroom fun _ _ _ ↦ .of_unfinished _)
      eval := fun _ _ _ ↦ .of_unfinished _
      link := fun _ _ _ ↦ .of_unfinished _
      exec := fun _ _ _ ↦ .of_unfinished _
      pattern := fun _ _ _ _ _ ↦ .of_unfinished _
      invoke := fun _ _ _ ↦ .of_unfinished _
      loop := fun _ _ ↦ .of_unfinished _
      halts := probe_halts stop 0
      halts' := probe_halts stop' n' }
  | succ n ih =>
    intro n' hn
    obtain ⟨k, rfl⟩ : ∃ k, n' = k + 1 := ⟨n' - 1, by omega⟩
    exact Machine.Related.probing hR (ih k (by omega))

/-- A machine that nests deeper does what a machine does that nests less deep. -/
theorem machineWithin_refines {n n' : Nat} (hn : n ≤ n') (size : Nat) :
    Machine.Related (fun _ x y ↦ x.Refines y) (fun _ ↦ True) size (machineWithin n)
      (machineWithin n') := by
  rw [← probe_never, ← probe_never]
  exact probe_refines (fun _ _ h ↦ h) n n' hn size

/-! ### Runs -/

/-- A run that ended under one bound on nesting ends in the same way under every larger one. -/
theorem Entry.run_of_le (entry : Entry) {w : World} {n n' : Nat} (hn : n ≤ n')
    (h : Finished (entry.run (machineWithin n) w)) :
    entry.run (machineWithin n') w = entry.run (machineWithin n) w :=
  Machine.Related.run (machineWithin_refines hn) entry w h

/-- A run that comes to a query at which a probe stops. -/
def Entry.Reaches (entry : Entry) (stop : Stop) (n : Nat) (w : World) : Prop :=
  Finished (entry.run (machineWithin n) w) ∧ ¬Finished (entry.run (probe stop n) w)

instance (entry : Entry) (stop : Stop) (n : Nat) (w : World) :
    Decidable (entry.Reaches stop n w) :=
  inferInstanceAs (Decidable (_ ∧ _))

/-- A run that does not come to a query to stop at is what the probe does. -/
theorem Entry.run_probe (entry : Entry) (stop : Stop) (n : Nat) {w : World}
    (h : Finished (entry.run (probe stop n) w)) :
    entry.run (machineWithin n) w = entry.run (probe stop n) w := by
  have hstop (q : Query) (w : World) : Stop.never q w → stop q w := fun h ↦ nomatch h
  rw [← probe_never]
  exact Machine.Related.run (probe_refines hstop n n (Nat.le_refl n)) entry w h

end Nodecraft.Sandbox
