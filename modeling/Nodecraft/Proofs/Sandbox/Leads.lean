import Nodecraft.Proofs.Sandbox.Counters
import Nodecraft.Proofs.Sandbox.Writing

/-!
# What scripts do to a world

A run of scripts takes the world from one state to the next by a few kinds of changes, and
`World.Leads` lists them with the conditions under which they happen: objects are written unless they
are frozen, a key of component state is not written over while it holds a cell, and a watcher is
registered with what its source read as. An invariant of these changes is an invariant of all runs.

Properties are removed only where the machine is not to stop, so the same relation describes the runs
that do not remove certain properties.
-/

set_option autoImplicit false

namespace Nodecraft.Sandbox

open Script Evaluation

/-- Registers a watcher whose source has been read. -/
def Action.observe (source : WatchSource) (callback last : Value) : Action Value := do
  let watcher ← newWatcher source callback last
  let stop ← newNative (.stop (some watcher.switch))
  addWatcher watcher
  return stop

/-- The changes that scripts make to a world, one after the other, on machines that stop at certain
queries. -/
inductive World.Leads (stop : Stop) : World → World → Prop
  | refl (w : World) : World.Leads stop w w
  | trans {w w₁ w₂ : World} : World.Leads stop w w₁ → World.Leads stop w₁ w₂ →
    World.Leads stop w w₂
  /-- Calls, steps and entries are counted. -/
  | count (w : World) (depth steps nesting : Nat) : World.Leads stop w
    { w with run := { w.run with depth := depth, steps := steps, nesting := nesting } }
  | queue (w : World) (ticks : Array Value) :
    World.Leads stop w { w with run := { w.run with ticks := ticks } }
  | extend {w : World} {h : Heap} : w.heap.Extends h → World.Leads stop w { w with heap := h }
  | newFunction (w : World) (fn : Function) :
    World.Leads stop w { w with heap := (w.heap.newFunction fn).2 }
  /-- A field is written, but not over a cell in component state. -/
  | insert {w : World} {o : ObjectId} {key : String} (v : Value) :
    (w.heap.object o).frozen = false →
    ((w.heap.object o).kind = .state → ∀ c, w.heap.own? o key = some (.object c) →
      (w.heap.object c).kind.isCell = false) →
    World.Leads stop w { w with heap := w.heap.insertField o key v }
  | erase {w : World} {o : ObjectId} {key : String} : (w.heap.object o).frozen = false →
    stop (.erase (.object o) key) w = false →
    World.Leads stop w { w with heap := w.heap.eraseField o key }
  | addHook (w : World) (hook : LifecycleHook) (callback : Value) :
    World.Leads stop w (finalWorld (Action.addHook hook callback w))
  /-- A watcher is registered when its source has been read. -/
  | observe {w w₁ : World} {n : Nat} {source : WatchSource} {last : Value} (callback : Value) :
    Action.readSource (probe stop n).call source w = .ok last w₁ → World.Leads stop w w₁ →
    World.Leads stop w (finalWorld (Action.observe source callback last w₁))

/-- The action makes only changes that scripts make. -/
def Action.Leads (stop : Stop) {α : Type} (x : Action α) : Prop :=
  ∀ w : World, w.Leads stop (finalWorld (x w))

namespace Action.Leads

variable {stop : Stop} {α β : Type}

theorem pure (a : α) : (Pure.pure a : Action α).Leads stop := fun w ↦ .refl w

theorem failure (e : Failure) : (throw e : Action α).Leads stop := fun w ↦ .refl w

theorem read {f : Heap → Action β} (hf : ∀ h, (f h).Leads stop) :
    (Action.heap >>= f).Leads stop :=
  fun w ↦ hf w.heap w

/-- What one action leads to, the next one leads on from. -/
theorem bind {x : Action α} {f : α → Action β} (hx : x.Leads stop) (hf : ∀ a, (f a).Leads stop) :
    (x >>= f).Leads stop := by
  intro w
  have hw := hx w
  rw [Action.bind_apply]
  cases h : x w with
  | ok a w₁ =>
    rw [h] at hw
    exact hw.trans (hf a w₁)
  | error e w₁ =>
    rw [h] at hw
    exact hw

/-- Changes that keep what is there. -/
theorem modifyHeap {f : Heap → Heap} (hf : ∀ h : Heap, h.Extends (f h)) :
    (Action.modifyHeap f).Leads stop :=
  fun w ↦ .extend (hf w.heap)

/-- Allocations keep what is there. -/
theorem allocate {f : Heap → α × Heap} (hf : ∀ h : Heap, h.Extends (f h).2) :
    (Action.allocate f).Leads stop :=
  fun w ↦ .extend (hf w.heap)

theorem newObject (kind : ObjectKind) (fields : Fields Value) :
    (Action.newObject kind fields).Leads stop :=
  allocate fun h ↦ .newObject h fun _ ↦ rfl

theorem newFunction (fn : Function) : (Action.newFunction fn).Leads stop := fun w ↦ .newFunction w fn

theorem nextTick (callback : Value) : (Action.nextTick callback).Leads stop := by
  cases callback with
  | function f => exact fun w ↦ .queue w _
  | _ => exact pure _

theorem takeTicks : Action.takeTicks.Leads stop := fun w ↦ .queue w _

theorem step : Action.step.Leads stop := by
  intro w
  have htick : w.Leads stop w.tick := .count w w.run.depth (w.run.steps + 1) w.run.nesting
  rw [Action.step_apply]
  cases w.run.limits.maxSteps with
  | none => exact htick
  | some b =>
    dsimp only
    split
    · exact htick
    · exact htick

theorem room : Action.room.Leads stop := by
  intro w
  rw [finalWorld_room]
  exact .refl w

/-- What is done inside of an entry. -/
theorem entering {x : Action α} (hx : x.Leads stop) : (Action.entering x).Leads stop := by
  intro w
  rw [Action.entering_apply, finalWorld_mapWorld]
  exact .trans (.count w _ _ _) (.trans (hx w.enter) (.count _ _ _ _))

theorem calling {x : Action α} (hx : x.Leads stop) : (Action.calling x).Leads stop := by
  intro w
  by_cases h : w.run.depth < w.run.limits.maxCallDepth
  · rw [Action.calling_of_lt _ h, finalWorld_mapWorld]
    exact .trans (.count w _ _ _) (.trans (hx w.descend) (.count _ _ _ _))
  · rw [Action.calling_of_le _ (Nat.le_of_not_lt h)]
    exact .refl w

/-- The handler leads on from what the failure left. -/
theorem catching {x : Action α} {f : ScriptError → Action α} (hx : x.Leads stop)
    (hf : ∀ e, e.isCatchable = true → (f e).Leads stop) : (Action.catching x f).Leads stop := by
  intro w
  by_cases hc : Catchable (x w)
  · obtain ⟨e, w₁, h, he⟩ := hc
    have hw := hx w
    rw [h] at hw
    rw [Action.catching_of_catchable h he]
    exact hw.trans (hf e he w₁)
  · rw [Action.catching_of_not hc]
    exact hx w

theorem stopping {x : Action α} {stops : World → Bool} (hx : x.Leads stop) :
    (Action.stopping stops x).Leads stop := by
  intro w
  by_cases h : stops w
  · rw [Action.stopping_of h]
    exact .refl w
  · rw [Action.stopping_of_not h]
    exact hx w

/-- The finalizer leads on from what its block left. -/
theorem finalizing {x f : Action Completion} (hx : x.Leads stop) (hf : f.Leads stop) :
    (Evaluation.finalizing x f).Leads stop := by
  intro w
  have hw := hx w
  rcases settled_or_failure (x w) with hs | ⟨e, w₁, h, he⟩
  · rw [finalizing_of_settled hs, finalWorld_finishing]
    exact hw.trans (hf _)
  · rw [finalizing_of_failure h he]
    rwa [h] at hw

/-! ### Objects -/

section

variable {call : Caller} (hcall : ∀ f self args, (call f self args).Leads stop)

include hcall

/-- Objects other than component state are written unless they are frozen. -/
theorem writePlain {o : ObjectId} (key : String) (v : Value) {w : World}
    (hkind : (w.heap.object o).kind ≠ .state) :
    w.Leads stop (finalWorld (Action.writePlain call o key v w)) := by
  cases hfrozen : (w.heap.object o).frozen with
  | true =>
    rw [writePlain_of_frozen hfrozen]
    exact .refl w
  | false =>
    have hinsert (hkey : (w.heap.object o).kind.isComputed = true → key ≠ "value") :
        w.Leads stop (finalWorld (Action.writePlain call o key v w)) := by
      rw [writePlain_field hfrozen hkey]
      exact .insert v hfrozen fun hstate ↦ absurd hstate hkind
    by_cases hkey : key = "value"
    · subst hkey
      cases hk : (w.heap.object o).kind with
      | computed getter setter =>
        cases setter with
        | none =>
          rw [writePlain_readonly hfrozen hk]
          exact .refl w
        | some f =>
          rw [writePlain_setter hfrozen hk]
          exact (bind (hcall _ _ _) fun _ ↦ pure _) w
      | _ => exact hinsert fun h ↦ by rw [hk] at h; cases h
    · exact hinsert fun _ ↦ hkey

/-- A write keeps what is there, also when it goes through a setter. -/
theorem writeObject (o : ObjectId) (key : String) (v : Value) :
    (Action.writeObject call o key v).Leads stop := by
  intro w
  by_cases hkind : (w.heap.object o).kind = .state
  · cases hfrozen : (w.heap.object o).frozen with
    | true =>
      rw [writeObject_of_frozen hkind hfrozen]
      exact .refl w
    | false =>
      by_cases hcell : ∃ c, w.heap.own? o key = some (.object c) ∧
          (w.heap.object c).kind.isCell = true
      · -- The cell is written, and a cell is no component state.
        obtain ⟨c, hown, hcell⟩ := hcell
        rw [writeObject_cell hkind hfrozen hown hcell]
        refine writePlain hcall "value" v fun hstate ↦ ?_
        rw [hstate] at hcell
        cases hcell
      · have hno (c : ObjectId) (hc : w.heap.own? o key = some (.object c)) :
            (w.heap.object c).kind.isCell = false :=
          Bool.eq_false_iff.2 fun h ↦ hcell ⟨c, hc, h⟩
        rw [writeObject_field hkind hfrozen hno]
        exact .insert v hfrozen fun _ ↦ hno
  · rw [writeObject_of_ne_state hkind]
    exact writePlain hcall key v hkind

end

theorem deleteProperty (target : Value) (key : String) :
    (Action.stopping (stop (.erase target key)) (Action.deleteProperty target key)).Leads stop := by
  cases target with
  | object o =>
    intro w
    by_cases hstop : stop (.erase (.object o) key) w
    · rw [Action.stopping_of hstop]
      exact .refl w
    · rw [Action.stopping_of_not hstop]
      change w.Leads stop (finalWorld ((if (w.heap.object o).frozen then _ else _ : Action Unit) w))
      split
      · exact .refl w
      · exact .erase (Bool.eq_false_iff.2 ‹_›) (Bool.eq_false_iff.2 hstop)
  | array a =>
    refine stopping ?_
    unfold Action.deleteProperty
    dsimp only
    split
    · exact modifyHeap fun h ↦ .modifyArray h a _
    · exact pure _
  | _ => exact stopping (pure _)

end Action.Leads

/-! ### Machines -/

/-- The rule for every part of the syntax and every method. -/
theorem Congruence.leads (stop : Stop) : Congruence (fun _ x _ ↦ x.Leads stop) fun _ ↦ True where
  pure a := .pure a
  bind hx hf := .bind hx hf
  raise e _ := .failure (.raised e)
  read hf := .read hf
  function id _ _ hf := fun w ↦ hf (w.heap.function id) (Function.within_true _) w
  modifyHeap _ hf := .modifyHeap hf
  allocate _ hf := .allocate hf
  writeObject hcall o key v := .writeObject hcall o key v
  newFunction fn _ := .bind (.newFunction fn) fun _ ↦ .pure _
  isRegistering := fun w ↦ .refl w
  addHook hook callback := fun w ↦ .addHook w hook callback
  nextTick callback := .nextTick callback
  properties := fun w ↦ .refl w
  entering hx := .entering hx
  catching hx hf := .catching hx hf

namespace Action.Leads

variable {stop : Stop} {n : Nat} (hcall : ∀ f self args, ((probe stop n).call f self args).Leads stop)

include hcall

/-- A source is read and its watcher registered before anything else happens. -/
theorem observing (source : WatchSource) (callback : Value) (rest : Value → Value → Action Value)
    (hrest : ∀ last handle, (rest last handle).Leads stop) :
    (Action.readSource (probe stop n).call source >>= fun last ↦
      Action.observe source callback last >>= rest last).Leads stop := by
  intro w
  have hrelated : Caller.Related (fun _ x _ ↦ x.Leads stop) (probe stop n).call (probe stop n).call :=
    hcall
  have hread := (Congruence.leads stop).readSource hrelated source w
  rw [Action.bind_apply]
  cases hsource : Action.readSource (probe stop n).call source w with
  | error e w₁ =>
    rw [hsource] at hread
    exact hread
  | ok last w₁ =>
    rw [hsource] at hread
    exact (World.Leads.observe callback hsource hread).trans (hrest last _ _)

theorem watch (source callback options : Value) :
    (Action.watch (probe stop n).call source callback options).Leads stop := by
  have hR := Congruence.leads stop
  unfold Action.watch
  split
  · exact hR.typeError _ (.of_ne (by decide))
  · refine bind (hR.watchSource source) fun source ↦ bind hR.isRegistering fun b ↦ ?_
    split
    · exact hR.newNative _
    · refine observing hcall source callback (fun last handle ↦ do
        if isImmediate (← Action.heap) options then
          discard ((probe stop n).call callback .undefined [last, .undefined])
        return handle) fun last handle ↦ read fun h ↦ ?_
      split
      · exact bind (bind (hcall _ _ _) fun _ ↦ pure _) fun _ ↦ pure handle
      · exact pure handle

theorem watchEffect (effect : Value) : (Action.watchEffect (probe stop n).call effect).Leads stop := by
  have hR := Congruence.leads stop
  unfold Action.watchEffect
  split
  · exact hR.typeError _ (.of_ne (by decide))
  · refine bind hR.isRegistering fun b ↦ ?_
    split
    · exact hR.newNative _
    · refine bind (bind (hcall _ _ _) fun _ ↦ pure _) fun _ w ↦ ?_
      have hread : Action.readSource (probe stop n).call (.effect effect) w = .ok .undefined w := rfl
      exact .observe effect hread (.refl w)

end Action.Leads

theorem Probing.leads (stop stop' : Stop) : Probing (fun _ x _ ↦ x.Leads stop) stop stop' := by
  have hR := Congruence.leads stop
  exact {
    toCongruence := hR
    step := .stopping .step
    room := .stopping .room
    finalize := fun hx hf _ _ ↦ .stopping (.finalizing hx hf)
    erase := .deleteProperty
    watches := fun _ _ hcall _ hc args ↦ by
      rcases hc with rfl | rfl
      · exact .watch hcall _ _ _
      · exact .watchEffect hcall _
    stopping := fun _ _ _ _ hx ↦ .stopping hx
    calling := fun _ _ _ _ _ hx ↦ .stopping (.calling hx)
    performing := fun id self args _ _ hfg hf hg ↦
      .stopping (hR.performing (.failure .overlap) id self args (fun fn _ ↦ hfg fn) hf hg)
    unfinished := .failure .unfinished }

namespace Action.Leads

variable {stop : Stop} (n : Nat)

/-- Whatever a probe is asked to run, it makes only changes that scripts make. -/
theorem run (entry : Entry) : (entry.run (probe stop n)).Leads stop :=
  Machine.Related.run ((Probing.leads stop stop).related n) entry

theorem flushTicks : (Action.flushTicks (probe stop n).call).Leads stop :=
  (((Probing.leads stop stop).related n) 0).flushTicks .takeTicks (.failure _)

/-! ### On the machine itself -/

/-- What a run leaves is led to from where it began. -/
theorem run_machine (entry : Entry) : (entry.run machine).Leads Stop.never := by
  have hrun : (entry.run (probe Stop.never patience)).Leads Stop.never := run patience entry
  rwa [probe_never] at hrun

/-- What a call leaves is led to from where it began. -/
theorem call_machine (f self : Value) (args : List Value) :
    (Action.call f self args).Leads Stop.never :=
  run_machine (.call f self args)

/-- What a flush leaves is led to from where it began. -/
theorem flushTicks_machine : (Action.flushTicks Action.call).Leads Stop.never := by
  have hflush : (Action.flushTicks (probe Stop.never patience).call).Leads Stop.never :=
    flushTicks patience
  rwa [probe_never] at hflush

end Action.Leads

end Nodecraft.Sandbox
