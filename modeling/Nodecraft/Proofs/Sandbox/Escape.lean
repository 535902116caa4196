import Nodecraft.Proofs.Sandbox.Budget

/-!
# Failures that end a run

Some failures pass through everything a script can put around them. For a kind of such failures
there are two relations between an action and a second one that a probe may break off. `Avoids`:
if the first is not broken off, it does not end with such a failure and the second does the same.
`Keeps`: if the first is not broken off, it ends with such a failure or the second does the same.
The first says that a run which comes to no query of the probe does not fail in this way, the
second that a run which comes to one does.
-/

set_option autoImplicit false

namespace Nodecraft.Sandbox

open Script Evaluation

/-- The action ended with a failure of the given kind. -/
def EndsWith (kind : Failure → Prop) {α : Type} (r : Outcome α) : Prop :=
  ∃ e w, r = .error e w ∧ kind e

theorem not_endsWith_ok {kind : Failure → Prop} {α : Type} {a : α} {w : World} :
    ¬EndsWith kind (.ok a w) := by
  rintro ⟨e, w', h, -⟩
  exact nomatch h

@[simp] theorem endsWith_error {kind : Failure → Prop} {α : Type} {e : Failure} {w : World} :
    EndsWith kind (.error e w : Outcome α) ↔ kind e := by
  constructor
  · rintro ⟨e', w', h, hkind⟩
    cases h
    exact hkind
  · exact fun hkind ↦ ⟨e, w, rfl, hkind⟩

instance {kind : Failure → Prop} [DecidablePred kind] {α : Type} :
    ∀ r : Outcome α, Decidable (EndsWith kind r)
  | .ok _ _ => isFalse not_endsWith_ok
  | .error _ _ => decidable_of_iff _ endsWith_error.symm

/-- Failures that no script catches. -/
def Uncatchable (kind : Failure → Prop) : Prop :=
  ∀ e : ScriptError, kind (.raised e) → e.isCatchable = false

section

variable {kind : Failure → Prop} {α β : Type}

/-- Whether a failure is of the kind is not a matter of its world. -/
theorem EndsWith.error {e : Failure} {w w' : World}
    (h : EndsWith kind (.error e w : Outcome α)) : EndsWith kind (.error e w' : Outcome β) :=
  endsWith_error.2 (endsWith_error.1 h)

@[simp] theorem endsWith_mapWorld (f : World → World) (r : Outcome α) :
    EndsWith kind (mapWorld f r) ↔ EndsWith kind r := by
  cases r with
  | ok a w => exact iff_of_false not_endsWith_ok not_endsWith_ok
  | error e w => exact endsWith_error.trans endsWith_error.symm

/-- What no script catches reaches no handler. -/
theorem EndsWith.not_catchable (hkind : Uncatchable kind) {r : Outcome α}
    (h : EndsWith kind r) : ¬Catchable r := by
  rintro ⟨e, w, rfl, he⟩
  rw [hkind e (endsWith_error.1 h)] at he
  exact nomatch he

/-- A step fails only at the budget. -/
theorem EndsWith.of_step {w : World} (h : EndsWith kind (Action.step w)) :
    ∃ b, kind (.raised (.stepBudget b)) := by
  by_cases hleft : w.run.noStepLeft
  · obtain ⟨b, hstep⟩ := Action.step_of_noStepLeft hleft
    rw [hstep] at h
    exact ⟨b, endsWith_error.1 h⟩
  · rw [Action.step_of_stepLeft hleft] at h
    exact absurd h not_endsWith_ok

/-- An entry is refused only for want of room. -/
theorem EndsWith.of_room {w : World} (h : EndsWith kind (Action.room w)) :
    kind (.raised .stackExhausted) := by
  by_cases hroom : w.run.hasRoom
  · rw [Action.room_of_hasRoom hroom] at h
    exact absurd h not_endsWith_ok
  · rw [Action.room_of_not hroom] at h
    exact endsWith_error.1 h

/-- A finalizer that ends with the failure passes it on. -/
theorem EndsWith.finishing {r r' : Outcome Completion} (h : EndsWith kind r') :
    EndsWith kind (finishing r r') := by
  obtain ⟨e, w, rfl, he⟩ := h
  exact ⟨e, w, rfl, he⟩

/-- Neutral actions fail only with errors that scripts can catch. -/
theorem Action.Neutral.not_endsWith {x : Action α} (hx : x.Neutral fun _ ↦ True)
    (hkind : Uncatchable kind) (w : World) : ¬EndsWith kind (x w) := by
  rintro ⟨e, w', h, hk⟩
  obtain ⟨s, rfl, hs⟩ := hx.failure h
  rw [hkind s hk] at hs
  exact nomatch hs

end

/-! ### What a probe does not break off -/

/-- If the first action is not broken off, then it does not end with a failure of the kind, and the
second action does the same. -/
def Action.Avoids (kind : Failure → Prop) {α : Type} (x y : Action α) : Prop :=
  ∀ w, Finished (x w) → y w = x w ∧ ¬EndsWith kind (x w)

namespace Action.Avoids

variable {kind : Failure → Prop} {α β : Type}

theorem of_neutral (hkind : Uncatchable kind) {x : Action α}
    (hx : x.Neutral fun _ ↦ True) : x.Avoids kind x :=
  fun w _ ↦ ⟨rfl, hx.not_endsWith hkind w⟩

/-- The first action is not broken off, and so the second begins. -/
theorem bind {x y : Action α} {f g : α → Action β} (hxy : x.Avoids kind y)
    (hfg : ∀ a, (f a).Avoids kind (g a)) : (x >>= f).Avoids kind (y >>= g) := by
  intro w hw
  rw [Action.bind_apply] at hw ⊢
  rw [Action.bind_apply]
  cases hx : x w with
  | ok a w' =>
    rw [hx] at hw
    rw [(hxy w (by rw [hx]; trivial)).1, hx]
    exact hfg a w' hw
  | error e w' =>
    rw [hx] at hw
    have h := hxy w (by rw [hx]; exact hw.of_error)
    rw [h.1, hx]
    refine ⟨rfl, fun hends ↦ h.2 ?_⟩
    rw [hx]
    exact hends.error

/-- An entry keeps the failure and adds none. -/
theorem entering {x y : Action α} (hxy : x.Avoids kind y) :
    (Action.entering x).Avoids kind (Action.entering y) := by
  intro w hw
  rw [Action.entering_apply] at hw
  have h := hxy w.enter hw.of_mapWorld
  rw [Action.entering_apply, Action.entering_apply, h.1, endsWith_mapWorld]
  exact ⟨rfl, h.2⟩

/-- A call that is not refused. -/
theorem calling_of_lt {x y : Action α} (hxy : x.Avoids kind y) {w : World}
    (hdepth : w.run.depth < w.run.limits.maxCallDepth) (hw : Finished (Action.calling x w)) :
    Action.calling y w = Action.calling x w ∧ ¬EndsWith kind (Action.calling x w) := by
  rw [Action.calling_of_lt _ hdepth] at hw
  have h := hxy w.descend hw.of_mapWorld
  rw [Action.calling_of_lt _ hdepth, Action.calling_of_lt _ hdepth, h.1, endsWith_mapWorld]
  exact ⟨rfl, h.2⟩

/-- A kind of failures that a call does not have for its depth. -/
theorem calling (hdeep : ∀ limit, ¬kind (.raised (.callDepth limit))) {x y : Action α}
    (hxy : x.Avoids kind y) : (Action.calling x).Avoids kind (Action.calling y) := by
  intro w hw
  by_cases hdepth : w.run.depth < w.run.limits.maxCallDepth
  · exact hxy.calling_of_lt hdepth hw
  · rw [Action.calling_of_le _ (Nat.le_of_not_lt hdepth),
      Action.calling_of_le _ (Nat.le_of_not_lt hdepth)]
    exact ⟨rfl, fun h ↦ hdeep _ (endsWith_error.1 h)⟩

/-- No handler sees a failure of the kind, and a handler that runs avoids it too. -/
theorem catching {x y : Action α} {f g : ScriptError → Action α} (hxy : x.Avoids kind y)
    (hfg : ∀ e, e.isCatchable = true → (f e).Avoids kind (g e)) :
    (Action.catching x f).Avoids kind (Action.catching y g) := by
  intro w hw
  by_cases hc : Catchable (x w)
  · obtain ⟨e, w', hx, he⟩ := hc
    have hy : y w = .error (.raised e) w' := by rw [(hxy w (by rw [hx]; trivial)).1, hx]
    rw [Action.catching_of_catchable hx he] at hw
    rw [Action.catching_of_catchable hx he, Action.catching_of_catchable hy he]
    exact hfg e he w' hw
  · rw [Action.catching_of_not hc] at hw
    have h := hxy w hw
    rw [Action.catching_of_not hc, Action.catching_of_not (by rwa [h.1])]
    exact h

/-- Steps that fail in other ways. -/
theorem step (hbudget : ∀ b, ¬kind (.raised (.stepBudget b))) :
    Action.step.Avoids kind Action.step :=
  fun _ _ ↦ ⟨rfl, fun h ↦ h.of_step.elim hbudget⟩

/-- Room that is refused in other ways. -/
theorem room (hstack : ¬kind (.raised .stackExhausted)) : Action.room.Avoids kind Action.room :=
  fun _ _ ↦ ⟨rfl, fun h ↦ hstack h.of_room⟩

theorem overlap (hkind : ¬kind .overlap) :
    (throw .overlap : Action α).Avoids kind (throw .overlap) :=
  fun _ _ ↦ ⟨rfl, fun h ↦ hkind (endsWith_error.1 h)⟩

/-- A finalizer hides failures and adds its own. -/
theorem finishing {r r' : Outcome Completion} (hr : ¬EndsWith kind r)
    (hr' : ¬EndsWith kind r') : ¬EndsWith kind (finishing r r') := by
  cases r' with
  | ok c w =>
    cases c with
    | normal =>
      rw [show Sandbox.finishing r (.ok .normal w) = mapWorld (fun _ ↦ w) r from rfl,
        endsWith_mapWorld]
      exact hr
    | _ => exact hr'
  | error e w => exact hr'

/-- No finalizer overrules a failure that did not occur. -/
theorem finalizing {stop stop' : Stop} {x y f g : Action Completion} (hxy : x.Avoids kind y)
    (hfg : f.Avoids kind g) (hstop : ∀ r r' w, ¬stop (.finish r r') w)
    (hstop' : ∀ r r' w, stop' (.finish r r') w → EndsWith kind r) :
    (Action.finalizingUnless stop x f).Avoids kind (Action.finalizingUnless stop' y g) := by
  intro w hw
  rcases settled_or_failure (x w) with hs | ⟨e, w', hx, he⟩
  · have h := hxy w hs.finished
    rw [Action.finalizingUnless_of_not hs (hstop _ _ w)] at hw
    have h' := hfg _ hw.of_finishing
    rw [Action.finalizingUnless_of_not hs (hstop _ _ w), Action.finalizingUnless_of_not
      (by rwa [h.1]) fun hq ↦ h.2 (h.1 ▸ hstop' _ _ w hq), h.1, h'.1]
    exact ⟨rfl, finishing h.2 h'.2⟩
  · rw [Action.finalizingUnless_of_failure hx he] at hw
    have h := hxy w (by rwa [hx])
    rw [Action.finalizingUnless_of_failure hx he,
      Action.finalizingUnless_of_failure (h.1.trans hx) he, ← hx]
    exact ⟨rfl, h.2⟩

theorem stopping {stop stop' : World → Bool} {x y : Action α}
    (hstop' : ∀ w, ¬stop' w)
    (hxy : ∀ w, ¬stop w → Finished (x w) → y w = x w ∧ ¬EndsWith kind (x w)) :
    (Action.stopping stop x).Avoids kind (Action.stopping stop' y) := by
  intro w hw
  by_cases hs : stop w
  · rw [Action.stopping_of hs] at hw
    exact hw.elim
  · rw [Action.stopping_of_not hs] at hw
    rw [Action.stopping_of_not hs, Action.stopping_of_not (hstop' w)]
    exact hxy w hs hw

theorem stopping_of_not {stop stop' : World → Bool} {x y : Action α} (hxy : x.Avoids kind y)
    (hstop' : ∀ w, ¬stop' w) :
    (Action.stopping stop x).Avoids kind (Action.stopping stop' y) :=
  .stopping hstop' fun w _ ↦ hxy w

end Action.Avoids

/-- If the first action is not broken off, then it ends with a failure of the kind, or the second
action does the same. Inside fewer than the given number of entries, this says nothing. -/
def Action.Keeps (kind : Failure → Prop) (entries : Nat) {α : Type} (x y : Action α) : Prop :=
  ∀ w : World, entries ≤ w.run.nesting → Finished (x w) → EndsWith kind (x w) ∨ y w = x w

namespace Action.Keeps

variable {kind : Failure → Prop} {entries : Nat} {α β : Type}

theorem refl (x : Action α) : x.Keeps kind entries x := fun _ _ _ ↦ .inr rfl

theorem bind {x y : Action α} {f g : α → Action β} (hx : x.Balanced)
    (hxy : x.Keeps kind entries y) (hfg : ∀ a, (f a).Keeps kind entries (g a)) :
    (x >>= f).Keeps kind entries (y >>= g) := by
  intro w hn hw
  rw [Action.bind_apply] at hw ⊢
  rw [Action.bind_apply]
  cases hxw : x w with
  | ok a w' =>
    have hframe := hx.of_ok hxw
    rw [hxw] at hw
    rcases hxy w hn (by rw [hxw]; trivial) with h | hy
    · rw [hxw] at h
      exact absurd h not_endsWith_ok
    · rw [hy, hxw]
      exact hfg a w' (by rwa [hframe.nesting]) hw
  | error e w' =>
    rw [hxw] at hw
    rcases hxy w hn (by rw [hxw]; exact hw.of_error) with h | hy
    · rw [hxw] at h
      exact .inl h.error
    · rw [hy, hxw]
      exact .inr rfl

theorem entering {x y : Action α} {inner : Nat} (hxy : x.Keeps kind inner y)
    (hinner : inner ≤ entries + 1) :
    (Action.entering x).Keeps kind entries (Action.entering y) := by
  intro w hn hw
  have hle : inner ≤ w.enter.run.nesting := Nat.le_trans hinner (Nat.succ_le_succ hn)
  rw [Action.entering_apply] at hw
  rw [Action.entering_apply, Action.entering_apply, endsWith_mapWorld]
  rcases hxy w.enter hle hw.of_mapWorld with h | hy
  · exact .inl h
  · rw [hy]
    exact .inr rfl

theorem calling_of_lt {x y : Action α} (hxy : x.Keeps kind entries y) {w : World}
    (hn : entries ≤ w.run.nesting) (hdepth : w.run.depth < w.run.limits.maxCallDepth)
    (hw : Finished (Action.calling x w)) :
    EndsWith kind (Action.calling x w) ∨ Action.calling y w = Action.calling x w := by
  rw [Action.calling_of_lt _ hdepth] at hw
  rw [Action.calling_of_lt _ hdepth, Action.calling_of_lt _ hdepth, endsWith_mapWorld]
  rcases hxy w.descend hn hw.of_mapWorld with h | hy
  · exact .inl h
  · rw [hy]
    exact .inr rfl

theorem calling {x y : Action α} (hxy : x.Keeps kind entries y) :
    (Action.calling x).Keeps kind entries (Action.calling y) := by
  intro w hn hw
  by_cases hdepth : w.run.depth < w.run.limits.maxCallDepth
  · exact hxy.calling_of_lt hn hdepth hw
  · rw [Action.calling_of_le _ (Nat.le_of_not_lt hdepth),
      Action.calling_of_le _ (Nat.le_of_not_lt hdepth)]
    exact .inr rfl

theorem catching (hkind : Uncatchable kind) {x y : Action α}
    {f g : ScriptError → Action α} (hx : x.Balanced) (hxy : x.Keeps kind entries y)
    (hfg : ∀ e, e.isCatchable = true → (f e).Keeps kind entries (g e)) :
    (Action.catching x f).Keeps kind entries (Action.catching y g) := by
  intro w hn hw
  by_cases hc : Catchable (x w)
  · obtain ⟨e, w', hxw, he⟩ := hc
    have hframe := hx.of_error hxw
    rw [Action.catching_of_catchable hxw he] at hw
    rcases hxy w hn (by rw [hxw]; trivial) with h | hy
    · exact absurd ⟨e, w', hxw, he⟩ (h.not_catchable hkind)
    · rw [Action.catching_of_catchable hxw he, Action.catching_of_catchable (hy.trans hxw) he]
      exact hfg e he w' (by rwa [hframe.nesting]) hw
  · rw [Action.catching_of_not hc] at hw
    rw [Action.catching_of_not hc]
    rcases hxy w hn hw with h | hy
    · exact .inl h
    · rw [Action.catching_of_not (by rwa [hy])]
      exact .inr hy

theorem stopping {stop stop' : World → Bool} {x y : Action α}
    (hxy : ∀ w : World, entries ≤ w.run.nesting → ¬stop w → Finished (x w) →
      EndsWith kind (x w) ∨ ¬stop' w ∧ y w = x w) :
    (Action.stopping stop x).Keeps kind entries (Action.stopping stop' y) := by
  intro w hn hw
  by_cases hs : stop w
  · rw [Action.stopping_of hs] at hw
    exact hw.elim
  · rw [Action.stopping_of_not hs] at hw
    rw [Action.stopping_of_not hs]
    rcases hxy w hn hs hw with h | ⟨hs', hy⟩
    · exact .inl h
    · rw [Action.stopping_of_not hs']
      exact .inr hy

theorem stopping_of_not {stop stop' : World → Bool} {x y : Action α}
    (hxy : x.Keeps kind entries y) (hstop' : ∀ w, ¬stop' w) :
    (Action.stopping stop x).Keeps kind entries (Action.stopping stop' y) := by
  refine .stopping fun w hn _ hfin ↦ ?_
  rcases hxy w hn hfin with h | h
  · exact .inl h
  · exact .inr ⟨hstop' w, h⟩

/-- What is kept by a guarded part and its finalizer is kept by both, if the finalizer does not get
rid of a failure of the guarded part. -/
theorem finalizing {stop stop' : Stop} {x y f g : Action Completion} (hx : x.Balanced)
    (hxy : x.Keeps kind entries y) (hfg : f.Keeps kind entries g)
    (hstop' : ∀ r r' w, ¬stop' (.finish r r') w)
    (hpass : ∀ w : World, entries ≤ w.run.nesting → Settled (x w) → EndsWith kind (x w) →
      ¬stop (.finish (x w) (f (finalWorld (x w)))) w →
      Finished (finishing (x w) (f (finalWorld (x w)))) →
      EndsWith kind (finishing (x w) (f (finalWorld (x w))))) :
    (Action.finalizingUnless stop x f).Keeps kind entries
      (Action.finalizingUnless stop' y g) := by
  intro w hn hw
  rcases settled_or_failure (x w) with hs | ⟨e, w', hxw, he⟩
  · by_cases hq : stop (.finish (x w) (f (finalWorld (x w)))) w
    · rw [Action.finalizingUnless_of hs hq] at hw
      exact hw.elim
    · rw [Action.finalizingUnless_of_not hs hq] at hw ⊢
      rcases hxy w hn hs.finished with hends | hy
      · exact .inl (hpass w hn hs hends hq hw)
      · have hframe := hx w
        rcases hfg (finalWorld (x w)) (by rwa [hframe.nesting]) hw.of_finishing with h | hg
        · exact .inl h.finishing
        · rw [Action.finalizingUnless_of_not (by rwa [hy]) (hstop' _ _ w), hy, hg]
          exact .inr rfl
  · rw [Action.finalizingUnless_of_failure hxw he] at hw ⊢
    rcases hxy w hn (by rwa [hxw]) with h | hy
    · rw [hxw] at h
      exact .inl h
    · rw [Action.finalizingUnless_of_failure (hy.trans hxw) he]
      exact .inr rfl

end Action.Keeps

/-! ### Failures that no script catches -/

/-- The rule for every part of the syntax and every method. -/
theorem Congruence.avoids {kind : Failure → Prop} (hkind : Uncatchable kind) :
    Congruence (fun _ x y ↦ x.Avoids kind y) fun _ ↦ True :=
  .ofNeutral (.of_neutral hkind) .bind .entering .catching

/-- The same for actions that end with the failure or do the same. -/
theorem Congruence.keeps {kind : Failure → Prop} (hkind : Uncatchable kind) (entries : Nat) :
    Congruence (fun _ x y ↦ x.Balanced ∧ x.Keeps kind entries y) fun _ ↦ True :=
  .ofNeutral (fun hx ↦ ⟨.of_neutral hx, .refl _⟩)
    (fun hxy hfg ↦ ⟨hxy.1.bind fun a ↦ (hfg a).1, hxy.2.bind hxy.1 fun a ↦ (hfg a).2⟩)
    (fun h ↦ ⟨h.1.entering, h.2.entering (Nat.le_succ entries)⟩)
    (fun hxy hfg ↦ ⟨hxy.1.catching fun e he ↦ (hfg e he).1,
      hxy.2.catching hkind hxy.1 fun e he ↦ (hfg e he).2⟩)

end Nodecraft.Sandbox
