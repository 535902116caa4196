import Nodecraft.Proofs.Sandbox.Overlap

/-!
# Runs with a budget of steps end

Evaluation goes down in three ways. Inside a call it goes down to parts of the construct it is at;
with a call it goes up to the code of some function, but has one call less left; and a loop goes
round only as long as there are steps left. So evaluations nest no deeper than `nestingBound`
says, which counts the size of the construct, the size of the largest code once for every call
that is left, and the budget. `Machine.ends` is the induction, and `run_ends` its consequence for
whole runs.

No code is ever larger than the code that is there at the beginning, since functions are created
from parts of code only.
-/

set_option autoImplicit false

namespace Nodecraft.Sandbox

open Script Evaluation

/-- Code whose size, counted twice, is within a bound. -/
def FunctionDef.SmallerThan (bound : Nat) (code : FunctionDef) : Prop :=
  2 * SizeOf.sizeOf code ≤ bound

/-- A world in the middle of a run that has a budget, at most so many calls left, and no code
beyond a bound. -/
structure World.Bounded (budget bound calls : Nat) (w : World) : Prop where
  entered : 0 < w.run.nesting
  budget : w.run.limits.maxSteps = some budget
  calls : w.run.limits.maxCallDepth ≤ w.run.depth + calls
  code : w.heap.Within (FunctionDef.SmallerThan bound)

variable {budget bound calls : Nat}

/-- Bounds are kept by what keeps the frame and the sizes of the functions. -/
theorem World.Bounded.of_frame {w w' : World} (h : w.Bounded budget bound calls)
    (hframe : w.SameFrame w') (hcode : w'.heap.Within (FunctionDef.SmallerThan bound)) :
    w'.Bounded budget bound calls where
  entered := by rw [hframe.nesting]; exact h.entered
  budget := by rw [hframe.limits]; exact h.budget
  calls := by rw [hframe.limits, hframe.depth]; exact h.calls
  code := hcode

/-- What holds after an action that started in a bounded world: it came to an end by itself, left
the frame as it was, added no larger code and took back no step. -/
structure Ended (bound : Nat) {α : Type} (w : World) (r : Outcome α) : Prop where
  finished : Finished r
  frame : w.SameFrame (finalWorld r)
  code : (finalWorld r).heap.Within (FunctionDef.SmallerThan bound)
  steps : w.run.steps ≤ (finalWorld r).run.steps

namespace Ended

variable {α β : Type} {w w' : World}

/-- The world of an action that has ended is bounded as before. -/
theorem bounded {r : Outcome α} (h : Ended bound w r) (hw : w.Bounded budget bound calls) :
    (finalWorld r).Bounded budget bound calls :=
  hw.of_frame h.frame h.code

/-- What follows an action starts where the action ended. -/
theorem trans {r : Outcome α} {r' : Outcome β} (h : Ended bound w r)
    (h' : Ended bound (finalWorld r) r') : Ended bound w r' :=
  ⟨h'.finished, h.frame.trans h'.frame, h'.code, Nat.le_trans h.steps h'.steps⟩

/-- Only the world in the end matters, and that there is an end. -/
theorem of_final {r : Outcome α} {r' : Outcome β} (h : Ended bound w r) (hfin : Finished r')
    (hfinal : finalWorld r' = finalWorld r) : Ended bound w r' :=
  ⟨hfin, by rw [hfinal]; exact h.frame, by rw [hfinal]; exact h.code,
    by rw [hfinal]; exact h.steps⟩

end Ended

/-- An action that ends wherever it is started in a bounded world. -/
def Action.Ends (budget bound calls : Nat) {α : Type} (x : Action α) : Prop :=
  ∀ w : World, w.Bounded budget bound calls → Ended bound w (x w)

namespace Action.Ends

variable {α β : Type}

/-- Actions of the store end at once. -/
theorem of_neutral {x : Action α} (hx : x.Neutral (FunctionDef.SmallerThan bound)) :
    x.Ends budget bound calls := by
  intro w hw
  have hcounters := hx.counters w
  refine ⟨?_, .of_counters hcounters, hx.within hw.code,
    Nat.le_of_eq (congrArg Counters.steps hcounters).symm⟩
  cases h : x w with
  | ok a w' => trivial
  | error e w' =>
    obtain ⟨s, rfl, -⟩ := hx.failure h
    trivial

theorem overlap : (throw .overlap : Action α).Ends budget bound calls :=
  fun w hw ↦ ⟨trivial, .refl w, hw.code, Nat.le_refl _⟩

theorem step : Action.step.Ends budget bound calls := by
  intro w hw
  have htick : Ended bound w (.ok () w.tick : Outcome Unit) :=
    ⟨trivial, ⟨rfl, rfl, rfl⟩, hw.code, Nat.le_succ _⟩
  by_cases h : w.run.noStepLeft
  · obtain ⟨b, hstep⟩ := Action.step_of_noStepLeft h
    rw [hstep]
    exact htick.of_final trivial rfl
  · rw [Action.step_of_stepLeft h]
    exact htick

theorem room : Action.room.Ends budget bound calls := by
  intro w hw
  have hsame : Ended bound w (.ok () w : Outcome Unit) := ⟨trivial, .refl w, hw.code, Nat.le_refl _⟩
  by_cases h : w.run.hasRoom
  · rw [Action.room_of_hasRoom h]
    exact hsame
  · rw [Action.room_of_not h]
    exact hsame.of_final trivial rfl

/-- One after the other, both come to an end, the second under what the first has left of the budget. -/
theorem bind {x : Action α} {f : α → Action β} (hx : x.Ends budget bound calls)
    (hf : ∀ a, (f a).Ends budget bound calls) : (x >>= f).Ends budget bound calls := by
  intro w hw
  have hend := hx w hw
  rw [Action.bind_apply]
  cases h : x w with
  | ok a w' =>
    rw [h] at hend
    exact hend.trans (hf a w' (hend.bounded hw))
  | error e w' =>
    rw [h] at hend
    exact hend.of_final hend.finished.of_error rfl

/-- The code of a function that is read is within the bound. -/
theorem function (id : FunctionId) {f : Function → Action β}
    (hf : ∀ fn, fn.Within (FunctionDef.SmallerThan bound) → (f fn).Ends budget bound calls) :
    (Action.heap >>= fun h ↦ f (h.function id)).Ends budget bound calls :=
  fun w hw ↦ hf _ (hw.code.function id) w hw

/-- Entries inside of a run share its budget. -/
theorem entering {x : Action α} (hx : x.Ends budget bound calls) :
    (Action.entering x).Ends budget bound calls := by
  intro w hw
  have hsteps : w.enter.run.steps = w.run.steps := if_neg (Nat.pos_iff_ne_zero.1 hw.entered)
  have hend := hx w.enter ⟨Nat.succ_pos _, hw.budget, hw.calls, hw.code⟩
  rw [Action.entering_apply]
  refine ⟨hend.finished.mapWorld _, ?_, ?_, ?_⟩
  · rw [finalWorld_mapWorld]
    exact hend.frame.leave
  · rw [finalWorld_mapWorld]
    exact hend.code
  · rw [finalWorld_mapWorld, ← hsteps]
    exact hend.steps

/-- A call that is made has one call less left. -/
theorem calling {x : Action α} (hx : ∀ less, calls = less + 1 → x.Ends budget bound less) :
    (Action.calling x).Ends budget bound calls := by
  intro w hw
  by_cases hdepth : w.run.depth < w.run.limits.maxCallDepth
  · obtain ⟨less, rfl⟩ : ∃ less, calls = less + 1 := by
      have hcalls := hw.calls
      exact ⟨calls - 1, by omega⟩
    have hcalls : w.descend.run.limits.maxCallDepth ≤ w.descend.run.depth + less := by
      have hcalls := hw.calls
      change w.run.limits.maxCallDepth ≤ w.run.depth + 1 + less
      omega
    have hend := hx less rfl w.descend ⟨hw.entered, hw.budget, hcalls, hw.code⟩
    rw [Action.calling_of_lt _ hdepth]
    refine ⟨hend.finished.mapWorld _, ?_, ?_, ?_⟩
    · rw [finalWorld_mapWorld]
      exact hend.frame.ascend
    · rw [finalWorld_mapWorld]
      exact hend.code
    · rw [finalWorld_mapWorld]
      exact hend.steps
  · rw [Action.calling_of_le _ (Nat.le_of_not_lt hdepth)]
    exact ⟨trivial, .refl w, hw.code, Nat.le_refl _⟩

/-- A handler begins with what is left of the budget. -/
theorem catching {x : Action α} {f : ScriptError → Action α} (hx : x.Ends budget bound calls)
    (hf : ∀ e, e.isCatchable = true → (f e).Ends budget bound calls) :
    (Action.catching x f).Ends budget bound calls := by
  intro w hw
  have hend := hx w hw
  by_cases hc : Catchable (x w)
  · obtain ⟨e, w', h, he⟩ := hc
    rw [Action.catching_of_catchable h he]
    rw [h] at hend
    exact hend.trans (hf e he w' (hend.bounded hw))
  · rw [Action.catching_of_not hc]
    exact hend

/-- A finalizer begins with what is left of the budget. -/
theorem finalizing {x f : Action Completion} (hx : x.Ends budget bound calls)
    (hf : f.Ends budget bound calls) : (Evaluation.finalizing x f).Ends budget bound calls := by
  intro w hw
  have hend := hx w hw
  rcases settled_or_failure (x w) with hs | ⟨e, w', h, he⟩
  · have hend' := hf _ (hend.bounded hw)
    rw [finalizing_of_settled hs]
    refine (hend.trans hend').of_final ?_ (finalWorld_finishing _ _)
    exact hend.finished.finishing hend'.finished
  · rw [finalizing_of_failure h he]
    rwa [h] at hend

/-! ### Loops -/

section

variable {again : Action Bool} {round : Action (Option Completion)}
  (hagain : again.Ends budget bound calls) (hround : round.Ends budget bound calls)

include hagain hround

/-- A loop ends if it does after another round, which takes a step that is left. -/
theorem repeatRounds_succ (n : Nat) {w : World} (hw : w.Bounded budget bound calls)
    (hrest : ∀ w' : World, w'.Bounded budget bound calls → w.run.steps < w'.run.steps →
      w.run.steps < budget →
      Ended bound w' (Evaluation.repeatRounds Action.step again round n w')) :
    Ended bound w (Evaluation.repeatRounds Action.step again round (n + 1) w) := by
  have hend := hagain w hw
  rw [Evaluation.repeatRounds, Action.bind_apply]
  cases h : again w with
  | error e w₁ =>
    rw [h] at hend
    exact hend.of_final hend.finished.of_error rfl
  | ok b w₁ =>
    rw [h] at hend
    have hw₁ : w₁.Bounded budget bound calls := hend.bounded hw
    cases b with
    | false => exact hend.of_final trivial rfl
    | true =>
      refine hend.trans ?_
      change Ended bound w₁ ((Action.step >>= _) w₁)
      rw [Action.bind_apply]
      have hstep := Action.Ends.step w₁ hw₁
      by_cases hleft : w₁.run.noStepLeft
      · obtain ⟨b, hs⟩ := Action.step_of_noStepLeft hleft
        rw [hs] at hstep ⊢
        exact hstep.of_final trivial rfl
      · have hlt : w₁.run.steps < budget := by
          unfold Run.noStepLeft at hleft
          rw [hw₁.budget] at hleft
          exact Nat.lt_of_not_le fun hle ↦ hleft (decide_eq_true hle)
        rw [Action.step_of_stepLeft hleft] at hstep ⊢
        refine hstep.trans ?_
        have hround' := hround w₁.tick (hstep.bounded hw₁)
        change Ended bound w₁.tick ((round >>= _) w₁.tick)
        rw [Action.bind_apply]
        cases h' : round w₁.tick with
        | error e w₂ =>
          rw [h'] at hround'
          exact hround'.of_final hround'.finished.of_error rfl
        | ok c w₂ =>
          rw [h'] at hround'
          cases c with
          | some c => exact hround'.of_final trivial rfl
          | none =>
            refine hround'.trans (hrest w₂ (hround'.bounded (hstep.bounded hw₁)) ?_ ?_)
            · exact Nat.lt_of_le_of_lt hend.steps hround'.steps
            · exact Nat.lt_of_le_of_lt hend.steps hlt

/-- A loop that may go round more often than there are steps left comes to its end before. -/
theorem repeatRounds (n : Nat) : ∀ w : World, w.Bounded budget bound calls →
    budget ≤ w.run.steps + n →
    Ended bound w (Evaluation.repeatRounds Action.step again round (n + 1) w) := by
  induction n with
  | zero =>
    intro w hw hle
    exact repeatRounds_succ hagain hround 0 hw fun _ _ _ hlt ↦ absurd hlt (Nat.not_lt_of_le hle)
  | succ n ih =>
    intro w hw hle
    exact repeatRounds_succ hagain hround (n + 1) hw fun w' hw' hlt _ ↦ ih w' hw' (by omega)

end

end Action.Ends

/-! ### The measure -/

/-- How deep evaluations may nest below a construct of a size, twice its own size counted, with so
many calls left. -/
def nestingBound (budget bound calls size : Nat) : Nat :=
  size + calls * (bound + 1) + budget + 1

/-- A machine that may nest deep enough ends whatever it is asked to do. -/
theorem Machine.ends (budget bound : Nat) (n : Nat) : ∀ calls size, size ≤ bound + 1 →
    nestingBound budget bound calls size ≤ n →
    Machine.Related (fun _ x _ ↦ x.Ends budget bound calls) (FunctionDef.SmallerThan bound) size
      (machineWithin n) (machineWithin n) := by
  induction n with
  | zero => exact fun _ _ _ h ↦ nomatch h
  | succ n ih =>
    intro calls size hsize hn
    have hR : Congruence (fun _ x _ ↦ x.Ends budget bound calls)
        (FunctionDef.SmallerThan bound) :=
      .ofNeutralWithin .of_neutral .bind (fun id _ _ h ↦ .function id h) .entering .catching
    unfold nestingBound at hn ih
    have hbelow (size' : Nat) (h : size' < size) := ih calls size' (by omega) (by omega)
    have hinvoke (id : FunctionId) (self : Value) (args : List Value) :
        ((machineWithin (n + 1)).invoke id self args).Ends budget bound calls := by
      refine .calling fun less hless ↦ ?_
      rw [hless, Nat.succ_mul] at hn
      have hcode (size' : Nat) (h : size' ≤ bound) := ih less size' (by omega) (by omega)
      have hless := hcode 0 (Nat.zero_le _)
      exact hless.performing .overlap id self args (f := perform (machineWithin n) self args)
        (g := perform (machineWithin n) self args)
        (hless.perform (fun code h ↦ hcode _ h) self args) rfl rfl
    have hcall : Caller.Related (fun _ x _ ↦ x.Ends budget bound calls)
        (machineWithin (n + 1)).call (machineWithin (n + 1)).call  :=
      hR.machineCall .room hinvoke
    have hnested {α : Type} {x : Action α} (hx : x.Ends budget bound calls) :
        ((machineWithin n).nested x).Ends budget bound calls := .bind .room fun _ ↦ .entering hx
    exact {
      toCongruence := hR
      admits := fun code h ↦ by
        unfold FunctionDef.SmallerThan
        omega
      step := .step
      room := .room
      finalize := fun hx hf _ _ ↦ .finalizing hx hf
      erase := fun target key ↦ .of_neutral (.deleteProperty target key)
      watches := hR.watches hcall fun w ↦ .of_neutral (.addWatcher w)
      eval := fun s e h ↦ hnested ((hbelow _ h).expression s e (Nat.le_refl _))
      link := fun s e h ↦ (hbelow _ h).chainLink s e (Nat.le_refl _)
      exec := fun s stmt h ↦ hnested ((hbelow _ h).statement s stmt (Nat.le_refl _))
      pattern := fun kind s p v h ↦ (hbelow _ h).asked.bindPattern kind s v p (Nat.le_refl _)
      invoke := hinvoke
      loop := fun ha hr w hw ↦ Action.Ends.repeatRounds ha hr n w hw (by omega)
      halts := machine_halts (n + 1)
      halts' := machine_halts (n + 1) }

/-! ### Runs -/

/-- A larger bound holds as well. -/
theorem Function.Within.mono {bound' : Nat} (hle : bound ≤ bound') {fn : Function}
    (h : fn.Within (FunctionDef.SmallerThan bound)) :
    fn.Within (FunctionDef.SmallerThan bound') := by
  cases fn with
  | closure code s => exact Nat.le_trans h hle
  | _ => exact trivial

/-- Some bound holds for all code of a heap. -/
theorem Heap.exists_bound (h : Heap) (least : Nat) :
    ∃ bound, least ≤ bound ∧ h.Within (FunctionDef.SmallerThan bound) := by
  have hlist (fns : List Function) :
      ∃ bound, least ≤ bound ∧ ∀ fn ∈ fns, fn.Within (FunctionDef.SmallerThan bound) := by
    induction fns with
    | nil => exact ⟨least, Nat.le_refl _, fun _ hfn ↦ nomatch hfn⟩
    | cons fn rest ih =>
      obtain ⟨bound, hleast, hrest⟩ := ih
      obtain ⟨size, hfn⟩ : ∃ size, fn.Within (FunctionDef.SmallerThan size) := by
        cases fn with
        | closure code s => exact ⟨2 * SizeOf.sizeOf code, Nat.le_refl _⟩
        | _ => exact ⟨0, trivial⟩
      refine ⟨max bound size, Nat.le_trans hleast (Nat.le_max_left _ _), fun other hother ↦ ?_⟩
      rcases List.mem_cons.1 hother with rfl | hmem
      · exact hfn.mono (Nat.le_max_right _ _)
      · exact (hrest other hmem).mono (Nat.le_max_left _ _)
  obtain ⟨bound, hleast, hall⟩ := hlist h.functions.toList
  exact ⟨bound, hleast, fun fn hfn ↦ hall fn (Array.mem_toList_iff.2 hfn)⟩

/-- The size of what an entry evaluates itself. -/
noncomputable def Entry.size : Entry → Nat
  | .program _ body => 2 * SizeOf.sizeOf body
  | .call _ _ _ => 0
  | .eval _ e => 2 * SizeOf.sizeOf e

/-- An entry of its own ends, since its action does and a refused entry ends at once. -/
theorem Action.Ends.finished_nested {α : Type} {x : Action α} (hx : x.Ends budget bound calls)
    {w : World} (hw : w.enter.Bounded budget bound calls) (n : Nat) :
    Finished ((machineWithin n).nested x w) := by
  by_cases hroom : w.run.hasRoom
  · rw [nested_of_hasRoom n x hroom]
    exact (hx w.enter hw).finished.mapWorld _
  · rw [nested_of_not n x hroom]
    exact trivial

/-- With fuel beyond the bound on the nesting, a run comes to an end. -/
theorem Entry.finished (entry : Entry) {w : World} (hw : w.enter.Bounded budget bound calls)
    (hsize : entry.size ≤ bound) {n : Nat}
    (hn : nestingBound budget bound calls (bound + 1) < n) :
    Finished (entry.run (machineWithin n) w) := by
  have h (n : Nat) (hn : nestingBound budget bound calls (bound + 1) ≤ n) :=
    Machine.ends budget bound n calls (bound + 1) (Nat.le_refl _) hn
  cases entry with
  | program s body =>
    have hblock := (h n (Nat.le_of_lt hn)).block s body (Nat.le_succ_of_le hsize)
    have hfin := hblock.finished_nested hw n
    change Finished (((machineWithin n).nested (block (machineWithin n) s body) >>= _) w)
    rw [Action.bind_apply]
    cases hrun : (machineWithin n).nested (block (machineWithin n) s body) w with
    | ok c w' => cases c <;> exact trivial
    | error e w' =>
      rw [hrun] at hfin
      exact hfin.of_error
  | call f self args =>
    cases f with
    | function id => exact ((h n (Nat.le_of_lt hn)).invoke id self args).finished_nested hw n
    | _ => exact trivial
  | eval s e =>
    obtain ⟨n, rfl⟩ : ∃ n', n = n' + 1 := ⟨n - 1, by omega⟩
    have hexpr := (h n (Nat.le_of_lt_succ hn)).expression s e (Nat.le_succ_of_le hsize)
    exact hexpr.finished_nested hw n

/-- A run that has come to an end is settled unless it has overlapped. -/
theorem settled_iff {α : Type} {r : Outcome α} (h : Finished r) :
    Settled r ↔ ¬EndsWith Failure.IsOverlap r := by
  cases r with
  | ok a w => exact iff_of_true trivial not_endsWith_ok
  | error e w =>
    rw [endsWith_error]
    cases e with
    | raised e => exact iff_of_true trivial fun heq ↦ nomatch heq
    | unfinished => exact h.elim
    | overlap => exact iff_of_false id fun hnot ↦ hnot rfl

/-- A run with a budget of steps ends, however deep it may nest above some bound, and always in
the same way. It ends with a value or an error of the script, unless it comes to a call of
`splice` that overlaps itself. -/
theorem run_ends (entry : Entry) (w : World) (budget : Nat)
    (hbudget : w.run.limits.maxSteps = some budget) :
    ∃ enough, ∀ n, enough ≤ n →
      Finished (entry.run (machineWithin n) w) ∧
      entry.run (machineWithin n) w = entry.run (machineWithin enough) w ∧
      (Settled (entry.run (machineWithin n) w) ↔ ¬entry.Reaches Stop.overlapping n w) := by
  obtain ⟨bound, hsize, hcode⟩ := w.heap.exists_bound entry.size
  have hw : w.enter.Bounded budget bound w.run.limits.maxCallDepth :=
    ⟨Nat.succ_pos _, hbudget, Nat.le_add_left _ _, hcode⟩
  refine ⟨nestingBound budget bound w.run.limits.maxCallDepth (bound + 1) + 1, fun n hn ↦ ?_⟩
  have hfin := entry.finished hw hsize hn
  refine ⟨hfin, entry.run_of_le hn (entry.finished hw hsize (Nat.lt_succ_self _)), ?_⟩
  rw [settled_iff hfin, entry.overlap_iff_reaches n hfin]

/-- A loop without an end, under a budget of a hundred steps. -/
theorem run_ends_endlessLoop :
    let entry := Entry.program ⟨0⟩ [.whileLoop (.literal (.bool true)) .empty]
    let w : World := ⟨Heap.empty, Run.start ⟨256, some 100, fun _ _ ↦ true⟩ .undefined⟩
    w.run.limits.maxSteps = some 100 ∧
    ∃ enough, ∀ n, enough ≤ n →
      Finished (entry.run (machineWithin n) w) ∧
      entry.run (machineWithin n) w = entry.run (machineWithin enough) w ∧
      (Settled (entry.run (machineWithin n) w) ↔ ¬entry.Reaches Stop.overlapping n w) :=
  ⟨rfl, run_ends _ _ 100 rfl⟩

/-- An empty array that is spliced with itself as the first count. -/
theorem selfSplice_overlaps :
    let entry := Entry.call (.function ⟨0⟩) (.array ⟨0⟩) [.array ⟨0⟩]
    let heap := ((Heap.empty.newArray #[]).2.newFunction (.native (.array .splice))).2
    let w : World := ⟨heap, Run.start Limits.standard .undefined⟩
    Finished (entry.run (machineWithin 1) w) ∧ ¬Settled (entry.run (machineWithin 1) w) ∧
      entry.Reaches Stop.overlapping 1 w := by
  decide +kernel

end Nodecraft.Sandbox
