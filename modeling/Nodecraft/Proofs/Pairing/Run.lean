import Nodecraft.Proofs.Pairing.Rules
import Nodecraft.Proofs.Sandbox.Counters

/-!
# Runs in worlds that are alike

The recursion is tied by induction on the depth of nested evaluations: machines of the same depth
are alike (`machine_alike`). With them everything an interpreter is asked to do is alike: programs,
calls, single evaluations and deferred callbacks (`Task.Alike.run`).

The machine on the left may be a probe. It does the same as long as no two worlds that are alike
give it a reason to stop (`Stop.Quiet`), so pairings also show what a run does not come to.
-/

set_option autoImplicit false

namespace Nodecraft.Sandbox

open Script Evaluation

variable {p : Pairing}

/-! ### Probes -/

/-- There is no reason to stop at code that may run where it is, in worlds that are alike. -/
structure Stop.Quiet (p : Pairing) (stop : Stop) : Prop where
  step (w : World) : stop .step w = false
  room (w : World) : stop .room w = false
  erase (target : Value) (key : String) (w : World) : stop (.erase target key) w = false
  eval {q : Pairing} {s s' : ScopeId} {e : Expr} {w w' : World} : p ≤ q →
    q.Runs s s' e.mentions → World.Alike q w w' → stop (.eval s e) w = false
  link {q : Pairing} {s s' : ScopeId} {e : Expr} {w w' : World} : p ≤ q →
    q.Runs s s' e.mentions → World.Alike q w w' → stop (.link s e) w = false
  exec {q : Pairing} {s s' : ScopeId} {stmt : Stmt} {w w' : World} : p ≤ q →
    q.Runs s s' stmt.mentions → World.Alike q w w' → stop (.exec s stmt) w = false
  bind {q : Pairing} {kind : DeclKind} {s s' : ScopeId} {target : Pattern} {v : Value}
    {w w' : World} : p ≤ q → q.Runs s s' target.mentions → World.Alike q w w' →
    stop (.bind kind s target v) w = false
  invoke (f : FunctionId) (self : Value) (args : List Value) (w : World) :
    stop (.invoke f self args) w = false
  apply (f : FunctionId) (self : Value) (args : List Value) (w : World) :
    stop (.apply f self args) w = false
  finish (guarded finalizer : Outcome Completion) (w : World) :
    stop (.finish guarded finalizer) w = false

theorem Stop.quiet_never : Stop.Quiet p Stop.never where
  step _ := rfl
  room _ := rfl
  erase _ _ _ := rfl
  eval _ _ _ := rfl
  link _ _ _ := rfl
  exec _ _ _ := rfl
  bind _ _ _ := rfl
  invoke _ _ _ _ := rfl
  apply _ _ _ _ := rfl
  finish _ _ _ := rfl

theorem Stop.Quiet.mono {stop : Stop} (h : Stop.Quiet p stop) {q : Pairing} (hle : p ≤ q) :
    Stop.Quiet q stop where
  step := h.step
  room := h.room
  erase := h.erase
  eval hq := h.eval (Pairing.le_trans hle hq)
  link hq := h.link (Pairing.le_trans hle hq)
  exec hq := h.exec (Pairing.le_trans hle hq)
  bind hq := h.bind (Pairing.le_trans hle hq)
  invoke := h.invoke
  apply := h.apply
  finish := h.finish

namespace Action.Alike

theorem stopping {α β : Type} {Q : Pairing → α → β → Prop} {x : Action α} {y : Action β}
    (hx : Action.Alike p Q x y) {stop : World → Bool}
    (hstop : ∀ q, p ≤ q → ∀ w w', World.Alike q w w' → stop w = false) :
    Action.Alike p Q (Action.stopping stop x) y := by
  intro q hq w w' hw
  rw [Action.stopping_of_not (Bool.eq_false_iff.1 (hstop q hq w w' hw))]
  exact hx q hq w w' hw

theorem finalizing {x y f g : Action Completion} (hx : Action.Alike p Completion.Alike x y)
    (hf : Action.Alike p Completion.Alike f g) :
    Action.Alike p Completion.Alike (finalizing x f) (finalizing y g) := by
  intro q hq w w' hw
  obtain ⟨r, hg, hr⟩ := hx q hq w w' hw
  have hle : Pairing.Le p r := Pairing.le_trans hq hg.le
  rcases settled_or_failure (x w) with hs | ⟨e, w₁, he, hne⟩
  · rw [finalizing_of_settled hs, finalizing_of_settled (hr.settled_iff.1 hs)]
    obtain ⟨t, ht, hrt⟩ := hf r hle _ _ hr.finalWorld
    refine ⟨t, by rw [finalWorld_finishing]; exact hg.trans ht, ?_⟩
    generalize f (finalWorld (x w)) = left, g (finalWorld (y w')) = right at ht hrt ⊢
    cases hrt with
    | error he hw₁ => exact .error he hw₁
    | ok hc hw₁ =>
      cases hc with
      | normal =>
        generalize x w = left, y w' = right at hr ⊢
        cases hr with
        | ok hc _ => exact .ok (Stable.mono ht.le hc) hw₁
        | error he _ => exact .error (Stable.mono ht.le he) hw₁
      | «return» hv => exact .ok (.return hv) hw₁
      | «break» => exact .ok .break hw₁
      | «continue» => exact .ok .continue hw₁
  · have hne' : ∃ e' w₂, y w' = .error e' w₂ ∧ (∀ s, e' ≠ .raised s) ∧
        Failure.Alike r e e' ∧ World.Alike r w₁ w₂ := by
      rw [he] at hr
      generalize y w' = right at hr ⊢
      cases hr with
      | error hee hw₁ =>
        refine ⟨_, _, rfl, ?_, hee, hw₁⟩
        cases hee with
        | raised _ => exact absurd rfl (hne _)
        | unfinished => exact nofun
        | overlap => exact nofun
    obtain ⟨e', w₂, he', hne', hee, hw₁⟩ := hne'
    rw [finalizing_of_failure he hne, finalizing_of_failure he' hne']
    rw [he] at hg
    exact ⟨r, hg, .error hee hw₁⟩

theorem finalizingUnless {x y f g : Action Completion}
    (hx : Action.Alike p Completion.Alike x y) (hf : Action.Alike p Completion.Alike f g)
    {stop : Stop} (hstop : Stop.Quiet p stop) :
    Action.Alike p Completion.Alike (Action.finalizingUnless stop x f)
      (Evaluation.finalizing y g) :=
  (hx.finalizing hf).stopping fun _ _ w _ _ ↦ by
    rw [hstop.finish, Bool.and_false]

end Action.Alike

/-! ### Machines -/

/-- The rules over two machines that are alike, with a probe on the left. -/
theorem Machine.Alike.probing {m m' : Machine} (h : Machine.Alike p m m') {stop : Stop}
    (hstop : Stop.Quiet p stop) :
    Machine.Alike p (m.probing stop) (m'.probing Stop.never) where
  rounds := congrArg (· + 1) h.rounds
  step := h.step
  room := h.room
  finalize := h.finalize
  erase := h.erase
  eval hq _ _ e hs := ((h.mono hq).nested ((h.mono hq).expression e hs)).stopping
    fun _ hr _ _ hw ↦ hstop.eval (Pairing.le_trans hq hr) (hs.mono hr) hw
  link hq _ _ e hs := ((h.mono hq).chainLink e hs).stopping
    fun _ hr _ _ hw ↦ hstop.link (Pairing.le_trans hq hr) (hs.mono hr) hw
  exec hq _ _ stmt hs := ((h.mono hq).nested ((h.mono hq).statement stmt hs)).stopping
    fun _ hr _ _ hw ↦ hstop.exec (Pairing.le_trans hq hr) (hs.mono hr) hw
  bind hq kind _ _ target _ _ hs hv := ((h.mono hq).bindPattern kind target hs hv).stopping
    fun _ hr _ _ hw ↦ hstop.bind (Pairing.le_trans hq hr) (hs.mono hr) hw
  invoke hq f _ self _ args _ hf hself hargs :=
    (Action.Alike.calling (((h.mono hq).apply hf hself hargs).stopping
      fun _ _ w _ _ ↦ hstop.apply f self args w)).stopping fun _ _ w _ _ ↦
        hstop.invoke f self args w

theorem probe_alike {stop : Stop} (hstop : Stop.Quiet p stop) (n : Nat) :
    Machine.Alike p (probe stop n) (machineWithin n) := by
  rw [← probe_never]
  induction n with
  | zero =>
    exact {
      rounds := rfl
      step := .stopping .step fun _ _ w _ _ ↦ hstop.step w
      room := .stopping .room fun _ _ w _ _ ↦ hstop.room w
      finalize := fun hq _ _ _ _ hx hf ↦ by
        rw [probe_finalize, probe_finalize, Action.finalizingUnless_never]
        exact hx.finalizingUnless hf (hstop.mono hq)
      erase := fun _ target _ key htarget ↦
        (Action.Alike.deleteProperty htarget key).stopping fun _ _ w _ _ ↦ hstop.erase target key w
      eval := fun _ _ _ _ _ ↦ .failure .unfinished
      link := fun _ _ _ _ _ ↦ .failure .unfinished
      exec := fun _ _ _ _ _ ↦ .failure .unfinished
      bind := fun _ _ _ _ _ _ _ _ _ ↦ .failure .unfinished
      invoke := fun _ _ _ _ _ _ _ _ _ _ ↦ .failure .unfinished }
  | succ n ih => exact ih.probing hstop

/-- Machines of the same depth do the same in worlds that are alike. -/
theorem machine_alike (p : Pairing) (n : Nat) :
    Machine.Alike p (machineWithin n) (machineWithin n) := by
  have h := probe_alike (p := p) Stop.quiet_never n
  rwa [probe_never] at h

/-! ### Tasks -/

/-- The same request to an interpreter. -/
inductive Entry.Alike (p : Pairing) : Entry → Entry → Prop
  | program {s s' : ScopeId} {body : Block} : p.Runs s s' (blockMentions body) →
    Entry.Alike p (.program s body) (.program s' body)
  | call {f f' self self' : Value} {args args' : List Value} : Value.Alike p f f' →
    Value.Alike p self self' → ListAlike Value.Alike p args args' →
    Entry.Alike p (.call f self args) (.call f' self' args')
  | eval {s s' : ScopeId} {e : Expr} : p.Runs s s' e.mentions →
    Entry.Alike p (.eval s e) (.eval s' e)

inductive Task.Alike (p : Pairing) : Task → Task → Prop
  | enter {entry entry' : Entry} : Entry.Alike p entry entry' →
    Task.Alike p (.enter entry) (.enter entry')
  | flushTicks : Task.Alike p .flushTicks .flushTicks

theorem Action.Alike.takeTicks :
    Action.Alike p (ListAlike Value.Alike) Action.takeTicks Action.takeTicks := by
  refine .readRun fun q _ r r' hr ↦ ?_
  have hempty : Action.Alike q Same (Action.modifyRun fun r ↦ { r with ticks := #[] })
      (Action.modifyRun fun r ↦ { r with ticks := #[] }) :=
    .modifyRun fun _ _ _ _ hr ↦ { hr with ticks := List.Forall₂.nil }
  exact hempty.bindSame fun _ hq _ ↦ .pure (Stable.mono (Q := ListAlike Value.Alike) hq hr.ticks)

namespace Machine.Alike

variable {m m' : Machine} (h : Machine.Alike p m m')

include h

theorem callAll {queued queued' : List Value} (hq : ListAlike Value.Alike p queued queued') :
    ∀ {q : Pairing}, p ≤ q →
    Action.Alike q Same (Action.callAll m.call queued) (Action.callAll m'.call queued') := by
  induction hq with
  | nil => intro q _; exact .pure rfl
  | cons hf _ ih =>
    intro q hq
    exact (h.call q hq _ _ _ _ _ _ (Stable.mono hq hf) .undefined .nil).discard.bindSame
      fun r hr _ ↦ ih (Pairing.le_trans hq hr)

theorem flushTicks :
    Action.Alike p Same (Action.flushTicks m.call) (Action.flushTicks m'.call) := by
  have hrounds (rounds : Nat) : ∀ {q : Pairing}, p ≤ q →
      Action.Alike q Same (Action.flushRounds m.call rounds)
        (Action.flushRounds m'.call rounds) := by
    induction rounds with
    | zero =>
      intro q _
      refine Action.Alike.takeTicks.bind fun r _ queued queued' hqueued ↦ ?_
      cases hqueued with
      | nil => exact .pure rfl
      | cons _ _ => exact .typeError _
    | succ rounds ih =>
      intro q hq
      refine Action.Alike.takeTicks.bind fun r hr queued queued' hqueued ↦ ?_
      have hle := Pairing.le_trans hq hr
      have hall := (h.mono hle).callAll hqueued (Pairing.le_refl r)
      have hnext := hall.bindSame fun t ht _ ↦ ih (Pairing.le_trans hle ht)
      cases hqueued with
      | nil => exact .pure rfl
      | cons _ _ => exact hnext
  exact hrounds _ (Pairing.le_refl p)

theorem enter {entry entry' : Entry} (he : Entry.Alike p entry entry') :
    Action.Alike p Value.Alike (entry.run m) (entry'.run m') := by
  cases he with
  | program hs => exact h.program _ hs
  | call hf hself hargs => exact h.call p (Pairing.le_refl p) _ _ _ _ _ _ hf hself hargs
  | eval hs => exact h.value _ hs

theorem run {task task' : Task} (ht : Task.Alike p task task') :
    Action.Alike p (OptionAlike Value.Alike) (task.run m) (task'.run m') := by
  cases ht with
  | enter he => exact (h.enter he).map fun _ _ _ _ hv ↦ .some hv
  | flushTicks => exact h.flushTicks.bindSame fun _ _ _ ↦ .pure .none

end Machine.Alike

end Nodecraft.Sandbox
