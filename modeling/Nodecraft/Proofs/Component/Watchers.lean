import Nodecraft.Proofs.Component.Commands
import Nodecraft.Proofs.Component.Lasting

/-!
# Watchers and their turns

A watcher is registered with what its source has just read as, both the watchers that setup asks for and
those of the options (`Watcher.RegisteredIn`). Its switch stays on the heap, and once it is off, nothing
turns it on again (`Heap.KeepsOff`).

What happens when a watcher has its turn depends on the instance alone (`Instance.turn`), and the turn
is taken by one call at most, which is made when the watcher has already reported
(`Instance.runWatcher_eq`).

Between mounting and the end of an instance, all that its operations change is the world, what its
watchers have last reported, and, by rendering, the handlers of its view. A relation that outlasts
changes of the first two kinds (`Instance.Frame`) holds between an instance and what an operation
leaves of it, however the operation ends.
-/

set_option autoImplicit false

namespace Nodecraft

open Sandbox

/-! ### Switches -/

/-- Switches that are off stay off. -/
structure Sandbox.Heap.KeepsOff (h h₁ : Heap) : Prop where
  size_le : h.switches.size ≤ h₁.switches.size
  off {s : SwitchId} : s.index < h.switches.size → h.switch s = false → h₁.switch s = false

namespace Sandbox.Heap.KeepsOff

variable {h h₁ h₂ : Heap}

theorem of_switches (hswitches : h₁.switches = h.switches) : h.KeepsOff h₁ where
  size_le := Nat.le_of_eq (congrArg Array.size hswitches.symm)
  off {s} _ hoff := by rwa [Heap.switch, hswitches, ← Heap.switch]

theorem refl (h : Heap) : h.KeepsOff h := of_switches rfl

theorem trans (hk : h.KeepsOff h₁) (hk' : h₁.KeepsOff h₂) : h.KeepsOff h₂ where
  size_le := Nat.le_trans hk.size_le hk'.size_le
  off hs hoff := hk'.off (Nat.lt_of_lt_of_le hs hk.size_le) (hk.off hs hoff)

theorem of_extends (he : h.Extends h₁) : h.KeepsOff h₁ := ⟨he.switches_le, he.off⟩

end Sandbox.Heap.KeepsOff

def Sandbox.World.KeepsOff (w w₁ : World) : Prop := w.heap.KeepsOff w₁.heap

/-- Whatever scripts do, a stopped watcher stays stopped. -/
theorem Sandbox.World.Leads.keepsOff {stop : Stop} {w w₁ : World} (hw : w.Leads stop w₁) :
    w.KeepsOff w₁ := by
  induction hw with
  | refl w => exact .refl _
  | trans _ _ ih ih' => exact Heap.KeepsOff.trans ih ih'
  | count w _ _ _ => exact .refl _
  | queue w _ => exact .refl _
  | extend he => exact .of_extends he
  | newFunction w fn => exact .of_switches rfl
  | insert _ _ _ => exact .of_switches rfl
  | erase _ _ => exact .of_switches rfl
  | addHook w hook callback => exact .refl _
  | @observe w w₁ _ _ _ _ _ _ ih =>
    have hnew : w₁.heap.KeepsOff w₁.heap.newSwitch.2 := .of_extends (.newSwitch w₁.heap)
    exact Heap.KeepsOff.trans ih (hnew.trans (.of_switches rfl))

/-- A watcher that is stopped has its switch off from then on. -/
theorem Sandbox.switch_of_stop (call : Caller) (s : SwitchId) (self : Value) (args : List Value)
    (w : World) :
    (finalWorld (Action.native call (.stop (some s)) self args w)).heap.switch s = false := by
  change (w.heap.switchOff s).switch s = false
  refine (Cells.getD_modify _ _ _ _ _).trans ?_
  split
  · rfl
  · rename_i hlt
    exact Cells.getD_of_le (Nat.le_of_not_lt fun hs ↦ hlt ⟨rfl, hs⟩) false

/-! ### Registration -/

/-- The watcher was made when its source had been read, with what it read as, and its switch is on the
heap. -/
structure Sandbox.Watcher.RegisteredIn (w : Watcher) (h : Heap) : Prop where
  reads : ∃ (n : Nat) (before after made : World),
    Action.readSource (machineWithin n).call w.source before = .ok w.last after ∧
      Action.newWatcher w.source w.callback w.last after = .ok w made
  switch_lt : w.switch.index < h.switches.size

/-- A watcher registered stays registered. -/
theorem Sandbox.Watcher.RegisteredIn.mono {w : Watcher} {h h₁ : Heap} (hw : w.RegisteredIn h)
    (hk : h.KeepsOff h₁) : w.RegisteredIn h₁ :=
  ⟨hw.reads, Nat.lt_of_lt_of_le hw.switch_lt hk.size_le⟩

/-- So it is for every watcher in the registry that scripts fill, if there is one. -/
def Sandbox.World.HasRegistered (w : World) : Prop :=
  ∀ r, w.run.hooks = some r → ∀ watcher ∈ r.watchers, watcher.RegisteredIn w.heap

theorem Sandbox.World.HasRegistered.keep {w w₁ : World} (hw : w.HasRegistered)
    (hhooks : w₁.run.hooks = w.run.hooks) (hk : w.heap.KeepsOff w₁.heap) : w₁.HasRegistered :=
  fun r hr watcher hmem ↦ (hw r (hhooks ▸ hr) watcher hmem).mono hk

/-- Hooks are not watchers. -/
theorem Sandbox.World.HasRegistered.addHook {w : World} (hw : w.HasRegistered) (hook : LifecycleHook)
    (callback : Value) : (finalWorld (Action.addHook hook callback w)).HasRegistered := by
  intro r hr watcher hmem
  change w.run.hooks.map _ = some r at hr
  obtain ⟨r₁, hr₁, rfl⟩ := Option.map_eq_some_iff.1 hr
  exact hw r₁ hr₁ watcher hmem

/-- A new watcher is registered with what its source read as. -/
theorem Sandbox.World.HasRegistered.observe {before after : World} (hw : after.HasRegistered) {n : Nat}
    {source : WatchSource} {last : Value} (callback : Value)
    (hread : Action.readSource (machineWithin n).call source before = .ok last after) :
    (finalWorld (Action.observe source callback last after)).HasRegistered := by
  intro r hr watcher hmem
  have hnew : after.heap.KeepsOff (finalWorld (Action.observe source callback last after)).heap :=
    Heap.KeepsOff.trans (.of_extends (.newSwitch after.heap)) (.of_switches rfl)
  change after.run.hooks.map _ = some r at hr
  obtain ⟨r₁, hr₁, rfl⟩ := Option.map_eq_some_iff.1 hr
  rcases Array.mem_push.1 hmem with hmem | rfl
  · exact (hw r₁ hr₁ watcher hmem).mono hnew
  · refine ⟨⟨n, before, after, _, hread, rfl⟩, ?_⟩
    exact Nat.lt_of_lt_of_eq (Nat.lt_succ_self _) (Array.size_push _).symm

/-- Whatever scripts do, all watchers are registered. -/
theorem Sandbox.World.Leads.hasRegistered {w w₁ : World} (hw : w.Leads Stop.never w₁) :
    w.HasRegistered → w₁.HasRegistered := by
  induction hw with
  | refl w => exact id
  | trans _ _ ih ih' => exact fun h ↦ ih' (ih h)
  | count w _ _ _ => exact fun h ↦ h.keep rfl (.refl _)
  | queue w _ => exact fun h ↦ h.keep rfl (.refl _)
  | extend he => exact fun h ↦ h.keep rfl (.of_extends he)
  | newFunction w fn => exact fun h ↦ h.keep rfl (.of_switches rfl)
  | insert _ _ _ => exact fun h ↦ h.keep rfl (.of_switches rfl)
  | erase _ _ => exact fun h ↦ h.keep rfl (.of_switches rfl)
  | addHook w hook callback => exact fun h ↦ h.addHook hook callback
  | observe callback hread _ ih =>
    rw [probe_never] at hread
    exact fun h ↦ (ih h).observe callback hread

namespace Instance

/-- The watchers of the instance are as they were registered. -/
def HasRegistered (i : Instance) : Prop :=
  ∀ watcher ∈ i.hooks.watchers, watcher.RegisteredIn i.world.heap

/-- What an instance has is kept while switches are. -/
theorem HasRegistered.inWorld {i : Instance} (hi : i.HasRegistered) {w : World}
    (hk : i.world.KeepsOff w) : (i.inWorld w).HasRegistered :=
  fun watcher hmem ↦ (hi watcher hmem).mono hk

/-- What scripts cannot undo, no command undoes. -/
theorem outlasts_keepsOff (stop : Stop) : Outlasts stop World.KeepsOff where
  leads := World.Leads.keepsOff
  trans := Heap.KeepsOff.trans
  strip _ _ := .of_switches rfl

/-- What setup has registered. -/
theorem hasRegistered_registering {α : Type} {x : Action α} (hx : x.Leads Stop.never)
    {w w₁ : World} {a : α} {hooks : HookRegistry} (h : registering x w = .ok (a, hooks) w₁) :
    ∀ watcher ∈ hooks.watchers, watcher.RegisteredIn w₁.heap := by
  let w₀ : World := { w with run := { w.run with hooks := some .empty } }
  have hempty : w₀.HasRegistered := by
    intro r hr watcher hmem
    obtain rfl : HookRegistry.empty = r := Option.some.inj hr
    exact absurd hmem (Array.not_mem_empty watcher)
  have hrun := (hx w₀).hasRegistered hempty
  change (x >>= fun a ↦ _) w₀ = _ at h
  rw [Action.bind_apply] at h
  cases hok : x w₀ with
  | error e w₂ =>
    rw [hok] at h
    cases h
  | ok a₁ w₂ =>
    rw [hok] at h hrun
    change (EStateM.Result.ok (a₁, w₂.run.hooks.getD .empty) _ : Outcome _) = _ at h
    obtain ⟨hpair, rfl⟩ := EStateM.Result.ok.inj h
    obtain ⟨rfl, rfl⟩ := Prod.mk.inj hpair
    intro watcher hmem
    cases hhooks : w₂.run.hooks with
    | none =>
      rw [hhooks] at hmem
      exact absurd hmem (Array.not_mem_empty watcher)
    | some r =>
      rw [hhooks] at hmem
      exact hrun r hhooks watcher hmem

/-- Mounting registers all watchers it adds. -/
theorem mounts_hasRegistered :
    Mounts (fun _ i x _ ↦ i.HasRegistered → (left (x i)).HasRegistered)
      (fun _ x _ ↦ ∀ w : World, w.KeepsOff (finalWorld (x w))) machine machine where
  toRespects := by
    have hserves := (outlasts_keepsOff Stop.never).works_machine.toServes
    exact .ofPreorder (R := fun i j ↦ i.HasRegistered → j.HasRegistered) hserves
      (fun _ ↦ id) (fun hij hjk hi ↦ hjk (hij hi)) fun i _ _ hx hi ↦ hi.inWorld (hx i.world)
  define i key v hi := hi.inWorld (.of_switches rfl)
  setup setup w := by
    have hkeeps := (leads_callSetup setup
      { w with run := { w.run with hooks := some .empty } }).keepsOff
    unfold World.KeepsOff
    rwa [heap_registering]
  hooks {i j setup r} hsetup _ := by
    obtain ⟨w, hok, rfl⟩ := lift_eq_ok hsetup
    exact hasRegistered_registering (leads_callSetup setup) hok
  watch {i j k getter callback current watcher} hcurrent hwatcher hk := by
    obtain ⟨w, hread, rfl⟩ := lift_eq_ok hcurrent
    obtain ⟨w₁, hmade, rfl⟩ := lift_eq_ok hwatcher
    intro other hmem
    rcases Array.mem_push.1 hmem with hmem | rfl
    · exact hk other hmem
    · obtain ⟨rfl, rfl⟩ := EStateM.Result.ok.inj hmade
      exact ⟨⟨patience, i.world, w, _, hread, rfl⟩,
        Nat.lt_of_lt_of_eq (Nat.lt_succ_self _) (Array.size_push _).symm⟩

end Instance

end Nodecraft

namespace Nodecraft.Instance

open Sandbox

/-- An instance in which a watcher has reported. -/
def reported (i : Instance) (index : Nat) (w : Watcher) (current : Value) (snapshot : Json) :
    Instance :=
  { i with hooks := { i.hooks with
      watchers := i.hooks.watchers.setIfInBounds index
        { w with last := current, snapshot := snapshot } } }

/-- What a watcher does in its turn. -/
inductive Turn
  /-- There is no such watcher, or it has been stopped. -/
  | skips
  | runsEffect (f : Value)
  /-- The source cannot be read. -/
  | fails (failure : Failure) (w : World)
  /-- The source reads as at the last report. -/
  | rests (w : World)
  /-- The source reads as another value, or its content is another one. -/
  | callsBack (watcher : Watcher) (current : Value) (snapshot : Json) (w : World)

/-- What a watcher does that observes a source. -/
def sourceTurn (i : Instance) (watcher : Watcher) : Turn :=
  match Action.readSource machine.call watcher.source i.world with
  | .error failure w => .fails failure w
  | .ok current w =>
    if watcher.hasChanged current (w.heap.document current) then
      .callsBack watcher current (w.heap.document current) w
    else .rests w

def turn (i : Instance) (index : Nat) : Turn :=
  match i.hooks.watchers[index]? with
  | none => .skips
  | some watcher =>
    if i.world.heap.switch watcher.switch then
      match watcher.source with
      | .effect f => .runsEffect f
      | _ => i.sourceTurn watcher
    else .skips

/-- A turn is taken. A callback gets the current value and the one of the last report, and is called
when the current one has been reported. -/
def take (i : Instance) (index : Nat) : Turn → EStateM.Result Failure Instance Unit
  | .skips => .ok () i
  | .runsEffect f => discard (call f .undefined []) i
  | .fails failure w => .error failure (i.inWorld w)
  | .rests w => .ok () (i.inWorld w)
  | .callsBack watcher current snapshot w =>
    discard (call watcher.callback i.stateValue [current, watcher.last])
      ((i.inWorld w).reported index watcher current snapshot)

/-- Reading the source of a watcher, then its turn. -/
theorem take_sourceTurn (i : Instance) (index : Nat) (watcher : Watcher) :
    (do
      let current ← lift (Action.readSource machine.call watcher.source)
      let snapshot := (← heap).document current
      if watcher.hasChanged current snapshot then
        report index watcher current snapshot
        discard (callOn machine watcher.callback (← ownState) [current, watcher.last]) : Op Unit) i =
      i.take index (i.sourceTurn watcher) := by
  unfold sourceTurn
  cases hread : Action.readSource machine.call watcher.source i.world with
  | error failure w => exact bind_of_error (lift_of_error hread)
  | ok current w =>
    have hheap : heap (i.inWorld w) = .ok w.heap (i.inWorld w) := rfl
    refine (bind_of_ok (lift_of_ok hread)).trans ((bind_of_ok hheap).trans ?_)
    dsimp only
    split
    · rfl
    · rfl

/-- A watcher takes the turn that its instance has for it. -/
theorem runWatcher_eq (i : Instance) (index : Nat) :
    runWatcherOn machine index i = i.take index (i.turn index) := by
  unfold runWatcherOn turn
  refine (bind_of_ok (get_eq i)).trans ?_
  cases hw : i.hooks.watchers[index]? with
  | none => rfl
  | some watcher =>
    dsimp only
    split
    · cases hsource : watcher.source with
      | effect f => rfl
      | getter f =>
        rw [← take_sourceTurn]
        simp only [hsource]
      | cell v =>
        rw [← take_sourceTurn]
        simp only [hsource]
      | value v =>
        rw [← take_sourceTurn]
        simp only [hsource]
    · rfl

section

variable {i : Instance} {index : Nat} {watcher : Watcher} {current : Value} {snapshot : Json}
  {w : World}

/-- A watcher calls back if it runs, and its source reads as another value or as one of another
content than at its last report. -/
structure CallsBack (i : Instance) (index : Nat) (watcher : Watcher) (current : Value)
    (snapshot : Json) (w : World) : Prop where
  exists_watcher : i.hooks.watchers[index]? = some watcher
  runs : i.world.heap.switch watcher.switch = true
  observes (f : Value) : watcher.source ≠ .effect f
  reads : Action.readSource machine.call watcher.source i.world = .ok current w
  changed : watcher.hasChanged current snapshot = true
  content : snapshot = w.heap.document current

/-- When a turn calls back: the watcher is on, its source reads, and it sees a change. -/
theorem callsBack_iff :
    i.turn index = .callsBack watcher current snapshot w ↔
      CallsBack i index watcher current snapshot w := by
  constructor
  · intro h
    unfold turn at h
    split at h
    · cases h
    · rename_i other hother
      split at h
      · rename_i hswitch
        have hsource : i.sourceTurn other = .callsBack watcher current snapshot w ∧
            ∀ f, other.source ≠ .effect f := by
          split at h
          · cases h
          · rename_i heffect
            exact ⟨h, heffect⟩
        obtain ⟨hturn, heffect⟩ := hsource
        unfold sourceTurn at hturn
        split at hturn
        · cases hturn
        · rename_i hreads
          split at hturn
          · rename_i hchanged
            cases hturn
            exact ⟨hother, hswitch, heffect, hreads, hchanged, rfl⟩
          · cases hturn
      · cases h
  · rintro ⟨hwatcher, hswitch, hsource, hreads, hchanged, rfl⟩
    have hturn : i.sourceTurn watcher =
        .callsBack watcher current (w.heap.document current) w := by
      unfold sourceTurn
      rw [hreads]
      exact if_pos hchanged
    unfold turn
    rw [hwatcher]
    dsimp only
    rw [if_pos hswitch, ← hturn]
    cases hs : watcher.source with
    | effect f => exact absurd hs (hsource f)
    | _ => rfl

end

end Nodecraft.Instance

namespace Nodecraft.Instance

open Sandbox

/-- A relation that outlasts changes of the world and reports of watchers. -/
structure Frame (R : Instance → Instance → Prop) : Prop where
  refl (i : Instance) : R i i
  trans {i j k : Instance} : R i j → R j k → R i k
  world (i : Instance) (w : World) : R i (i.inWorld w)
  report {i : Instance} {index : Nat} {w : Watcher} (current : Value) (snapshot : Json) :
    i.hooks.watchers[index]? = some w → R i (i.reported index w current snapshot)

/-- What the machine does to a world is nothing that the relation does not outlast. -/
theorem Frame.respects {R : Instance → Instance → Prop} (h : Frame R) :
    Observes (fun _ i x _ ↦ R i (left (x i))) (fun _ _ _ ↦ True) machine machine where
  toRespects := .ofPreorder (Machine.Serves.all machine machine) h.refl h.trans
    fun i _ _ _ ↦ h.world i _
  report current snapshot hw := h.report current snapshot hw

section

variable {R : Instance → Instance → Prop} (h : Frame R)

include h

/-- A read of the state. -/
theorem Frame.get (key : String) : Op.Within R (get key) := fun i ↦ h.respects.getOn i key

theorem Frame.stateJson : Op.Within R stateJson := h.respects.stateJsonOn

/-- An event and the settling after it. -/
theorem Frame.trigger (id : Nat) (event : Json) : Op.Within R (trigger id event) := fun i ↦
  h.respects.triggerOn i id event

/-- A method and the settling after it. -/
theorem Frame.callMethod (name : String) (args : List Json) : Op.Within R (callMethod name args) :=
  fun i ↦ h.respects.callMethodOn i name args

end

end Nodecraft.Instance
