import Nodecraft.Proofs.Component.HeldCells
import Nodecraft.Proofs.Component.Turns

/-!
# Registration closes with setup

Hooks and watchers can be registered only while setup runs. Afterwards there is nowhere to register
them (`World.Sealed`), and no script opens a registry again (`World.Leads.carries`). So what an
instance has registered stays the same, but for the watchers that its options add while it is
mounted (`Instance.Adopts`), until it is ended and has nothing left (`Instance.Endures`). An
instance that has ended never has a turn of a watcher again, and whatever it is asked to do, it does
in the same way as if its options were others (`Instance.Silent`).
-/

set_option autoImplicit false

namespace Nodecraft

open Sandbox

namespace Sandbox

/-! ### Worlds in which nothing can be registered -/

/-- There is nowhere to register hooks and watchers. -/
def World.Sealed (w : World) : Prop := w.run.hooks = none

/-- Functions stay what they are, and what is closed for registration stays so. -/
structure World.Carries (w w₁ : World) : Prop where
  closed : w.Sealed → w₁.Sealed
  functions_le : w.heap.functions.size ≤ w₁.heap.functions.size
  function {f : FunctionId} : f.index < w.heap.functions.size →
    w₁.heap.function f = w.heap.function f

namespace World.Carries

variable {w w₁ w₂ : World}

/-- Where no function is new, only the registration matters. -/
theorem of_functions (hclosed : w.Sealed → w₁.Sealed)
    (hfunctions : w₁.heap.functions = w.heap.functions) : w.Carries w₁ where
  closed := hclosed
  functions_le := Nat.le_of_eq (congrArg Array.size hfunctions.symm)
  function _ := by rw [Heap.function, hfunctions, ← Heap.function]

theorem refl (w : World) : w.Carries w := of_functions id rfl

theorem trans (hc : w.Carries w₁) (hc' : w₁.Carries w₂) : w.Carries w₂ where
  closed hw := hc'.closed (hc.closed hw)
  functions_le := Nat.le_trans hc.functions_le hc'.functions_le
  function hf := (hc'.function (Nat.lt_of_lt_of_le hf hc.functions_le)).trans (hc.function hf)

/-- A new function is behind the others, which stay what they are. -/
theorem newFunction (hclosed : w.Sealed → w₁.Sealed) {fn : Function}
    (hfunctions : w₁.heap.functions = w.heap.functions.push fn) : w.Carries w₁ where
  closed := hclosed
  functions_le := by simp [hfunctions]
  function hf := by
    rw [Heap.function, hfunctions, Cells.getD_push, if_neg (Nat.ne_of_lt hf), ← Heap.function]

end World.Carries

/-- Whatever scripts do, a world that is sealed stays sealed, and functions stay what they are. -/
theorem World.Leads.carries {stop : Stop} {w w₁ : World} (hw : w.Leads stop w₁) : w.Carries w₁ := by
  have hmap {w : World} {f : HookRegistry → HookRegistry} (h : w.Sealed) :
      w.run.hooks.map f = none := by rw [h]; rfl
  induction hw with
  | refl w => exact .refl w
  | trans _ _ ih ih' => exact ih.trans ih'
  | count w _ _ _ => exact .of_functions id rfl
  | queue w _ => exact .of_functions id rfl
  | extend he => exact .of_functions id he.functions
  | newFunction w fn => exact .newFunction id rfl
  | insert _ _ _ => exact .of_functions id rfl
  | erase _ _ => exact .of_functions id rfl
  | addHook w hook callback => exact .of_functions hmap rfl
  | observe callback _ _ ih => exact ih.trans (.newFunction hmap rfl)

/-- Whether a capability registers hooks or watchers. -/
def Capability.registers : Capability → Bool
  | .watch => true
  | .watchEffect => true
  | .register _ => true
  | _ => false

/-- Everything can be watched: what is neither a function nor a cell is a source that never changes. -/
theorem Action.exists_watchSource (v : Value) (w : World) :
    ∃ source, Action.watchSource v w = .ok source w := by
  cases v <;> exact ⟨_, rfl⟩

/-- When nothing can be registered, asking for it makes a function that stops nothing, at most. -/
theorem Action.capability_of_sealed {c : Capability} (hc : c.registers = true) {w : World}
    (hw : w.Sealed) (call : Caller) (args : List Value) :
    finalWorld (Action.capability call c args w) = w ∨
      finalWorld (Action.capability call c args w) =
        { w with heap := (w.heap.newFunction (.native (.stop none))).2 } := by
  have hregistering : Action.isRegistering w = .ok false w := by
    change (EStateM.Result.ok w.run.hooks.isSome w : Outcome Bool) = _
    rw [hw]
    rfl
  cases c with
  | watch =>
    change finalWorld (Action.watch call _ _ _ w) = _ ∨ finalWorld (Action.watch call _ _ _ w) = _
    obtain ⟨source, hsource⟩ := Action.exists_watchSource (args.headD .undefined) w
    unfold Action.watch
    split
    · exact .inl rfl
    · rw [bind_of_ok hsource, bind_of_ok hregistering]
      exact .inr rfl
  | watchEffect =>
    change finalWorld (Action.watchEffect call _ w) = _ ∨
      finalWorld (Action.watchEffect call _ w) = _
    unfold Action.watchEffect
    split
    · exact .inl rfl
    · rw [bind_of_ok hregistering]
      exact .inr rfl
  | register hook =>
    change finalWorld (Action.register hook _ w) = _ ∨ _
    unfold Action.register
    split
    · exact .inl rfl
    · refine .inl ?_
      change { w with run := { w.run with hooks := w.run.hooks.map _ } } = w
      rw [hw]
      exact congrArg (fun hooks ↦ { w with run := { w.run with hooks := hooks } }) hw.symm
  | _ => cases hc

end Sandbox

namespace Instance

/-- What scripts cannot undo, no command undoes. -/
theorem outlasts_carries (stop : Stop) : Outlasts stop World.Carries where
  leads := World.Leads.carries
  trans := World.Carries.trans
  strip _ _ := .of_functions id rfl

/-! ### The end of setup -/

/-- The same registrations, in a world that has changed. -/
structure Stays (i j : Instance) : Prop where
  goes : i.Goes World.Carries j
  hooks : j.hooks = i.hooks
  mounted : j.mounted = i.mounted

theorem Stays.refl (i : Instance) : i.Stays i := ⟨⟨rfl, .refl _⟩, rfl, rfl⟩

theorem Stays.trans {i j k : Instance} (hij : i.Stays j) (hjk : j.Stays k) : i.Stays k :=
  ⟨⟨hjk.goes.state.trans hij.goes.state, hij.goes.world.trans hjk.goes.world⟩,
    hjk.hooks.trans hij.hooks, hjk.mounted.trans hij.mounted⟩

/-- What scripts do leaves the hooks and the watchers of the instance alone. -/
theorem Stays.lift {α : Type} {x : Action α} (hx : ∀ w : World, w.Carries (finalWorld (x w)))
    (i : Instance) : i.Stays (left (lift x i)) := by
  rw [left_lift]
  exact ⟨⟨rfl, hx i.world⟩, rfl, rfl⟩

/-- Binding the options leaves the hooks and the watchers alone. -/
theorem defines_stays : Defines (fun _ i x _ ↦ i.Stays (left (x i)))
    (fun _ x _ ↦ ∀ w : World, w.Carries (finalWorld (x w))) machine machine where
  toRespects := .ofPreorder (outlasts_carries Stop.never).works_machine.toServes Stays.refl
    Stays.trans fun i _ _ hx ↦ ⟨⟨rfl, hx i.world⟩, rfl, rfl⟩
  define _ _ _ := ⟨⟨rfl, .of_functions id rfl⟩, rfl, rfl⟩

/-- When setup has run, nothing can be registered any more. -/
theorem sealed_setupFields {c : Component} {w w₁ : World} {r : Fields Value × HookRegistry}
    (hw : w.Sealed) (h : c.setupFields w = .ok r w₁) : w₁.Sealed := by
  unfold Component.setupFields at h
  cases hsetup : c.options.setup with
  | none =>
    rw [hsetup] at h
    cases h
    exact hw
  | some setup =>
    rw [hsetup] at h
    obtain ⟨a, w₂, hregistering, h⟩ := bind_eq_ok h
    cases h
    obtain ⟨_, _, _, h⟩ := bind_eq_ok hregistering
    obtain ⟨_, _, _, h⟩ := bind_eq_ok h
    obtain ⟨_, _, _, h⟩ := bind_eq_ok h
    obtain ⟨_, _, hmodify, h⟩ := bind_eq_ok h
    cases hmodify
    cases h
    rfl

/-- An instance is prepared with what its setup has registered, and nothing can be registered from
then on. -/
theorem prepare_spec {c : Component} {w : World} (hw : w.Sealed) {state : ObjectId}
    {options : Component.Options} {i : Instance}
    (h : prepare (born c w state .empty) = .ok options i) :
    (∃ returned w₁, c.setupFields w = .ok (returned, i.hooks) w₁) ∧ i.world.Sealed ∧
      i.mounted = true ∧ i.state = state := by
  obtain ⟨_, i₁, hsetup, hbind⟩ := bind_eq_ok (prepare_eq ▸ h)
  have hrest := defines_stays.bindOptions i₁
  rw [hbind] at hrest
  rw [runSetup_eq] at hsetup
  cases hfields : c.setupFields w with
  | error e w₁ =>
    rw [hfields] at hsetup
    cases hsetup
  | ok r w₁ =>
    rw [hfields] at hsetup
    have hmerge := defines_stays.mergeSetup r.1 (born c w₁ state r.2)
    have hsetup : mergeSetup r.1 (born c w₁ state r.2) = .ok () i₁ := hsetup
    rw [hsetup] at hmerge
    have hstays : (born c w₁ state r.2).Stays i := Stays.trans hmerge hrest
    refine ⟨⟨r.1, w₁, ?_⟩, hstays.goes.world.closed (sealed_setupFields hw hfields), hstays.mounted,
      hstays.goes.state⟩
    rw [hstays.hooks]
    rfl

/-! ### Watchers of the options -/

/-- The watcher watches a path of a state, through a function that no script has. -/
def FollowsPath (h : Heap) (state : Value) (path : String) (w : Watcher) : Prop :=
  ∃ f : FunctionId, w.source = .getter (.function f) ∧ f.index < h.functions.size ∧
    h.function f = .native (.path state (Text.splitOn "." path))

/-- Nothing has been registered but watchers of some of the given options, in their order. -/
structure Adopts (watch : Fields Value) (i j : Instance) : Prop where
  goes : i.Goes World.Carries j
  mounted : j.mounted = i.mounted
  hooks : j.hooks.hooks = i.hooks.hooks
  watchers : ∃ (followed : Fields Value) (added : List Watcher), followed.Sublist watch ∧
    List.Forall₂ (fun f w ↦ FollowsPath j.world.heap i.stateValue f.1 w) followed added ∧
    j.hooks.watchers = i.hooks.watchers ++ added.toArray

/-- A watcher of an option goes on following its path. -/
theorem FollowsPath.mono {w w₁ : World} (hc : w.Carries w₁) {state : Value} {path : String}
    {watcher : Watcher} (h : FollowsPath w.heap state path watcher) :
    FollowsPath w₁.heap state path watcher := by
  obtain ⟨f, hsource, hlt, hf⟩ := h
  exact ⟨f, hsource, Nat.lt_of_lt_of_le hlt hc.functions_le, (hc.function hlt).trans hf⟩

namespace Adopts

variable {a b : Fields Value} {i j k : Instance}

/-- Where nothing is added, there is nothing of the options. -/
theorem of_stays (h : i.Stays j) : Adopts [] i j where
  goes := h.goes
  mounted := h.mounted
  hooks := congrArg HookRegistry.hooks h.hooks
  watchers := ⟨[], [], List.Sublist.refl _, .nil, by rw [h.hooks]; simp⟩

theorem mono (h : Adopts a i j) (hab : a.Sublist b) : Adopts b i j where
  goes := h.goes
  mounted := h.mounted
  hooks := h.hooks
  watchers := by
    obtain ⟨followed, added, hsub, hrest⟩ := h.watchers
    exact ⟨followed, added, hsub.trans hab, hrest⟩

theorem trans (h : Adopts a i j) (h' : Adopts b j k) : Adopts (a ++ b) i k where
  goes := ⟨h'.goes.state.trans h.goes.state, h.goes.world.trans h'.goes.world⟩
  mounted := h'.mounted.trans h.mounted
  hooks := h'.hooks.trans h.hooks
  watchers := by
    obtain ⟨followed, added, hsub, hadded, hwatchers⟩ := h.watchers
    obtain ⟨followed', added', hsub', hadded', hwatchers'⟩ := h'.watchers
    have hstate : j.stateValue = i.stateValue := congrArg Value.object h.goes.state
    rw [hstate] at hadded'
    refine ⟨followed ++ followed', added ++ added', hsub.append hsub',
      List.rel_append (hadded.imp fun _ _ hf ↦ hf.mono h'.goes.world) hadded', ?_⟩
    rw [hwatchers', hwatchers, Array.append_assoc]
    exact congrArg (i.hooks.watchers ++ ·) (List.append_toArray _ _)

/-- One operation after another. -/
theorem bind {α β : Type} {x : Op α} {f : α → Op β} (hx : Adopts a i (left (x i)))
    (hf : ∀ v j, x i = .ok v j → Adopts b j (left (f v j))) :
    Adopts (a ++ b) i (left ((x >>= f) i)) := by
  cases hr : x i with
  | ok v j =>
    rw [hr] at hx
    rw [bind_of_ok hr]
    exact hx.trans (hf v j hr)
  | error e j =>
    rw [hr] at hx
    rw [bind_of_error hr]
    exact hx.mono (List.sublist_append_left a b)

/-- What registers nothing does not count. -/
theorem after {α β : Type} {x : Op α} {f : α → Op β} (hx : i.Stays (left (x i)))
    (hf : ∀ v j, x i = .ok v j → Adopts b j (left (f v j))) : Adopts b i (left ((x >>= f) i)) :=
  bind (.of_stays hx) hf

end Adopts

/-- A getter of a path that has just been made reads this path. -/
theorem reads_of_new {path : String} {self getter : Value} {i j : Instance}
    (h : lift (Action.newNative (.path self (Text.splitOn "." path))) i = .ok getter j) :
    ∃ f : FunctionId, getter = .function f ∧ f.index < j.world.heap.functions.size ∧
      j.world.heap.function f = .native (.path self (Text.splitOn "." path)) := by
  obtain ⟨w, hmade, rfl⟩ := lift_eq_ok h
  obtain ⟨rfl, rfl⟩ := EStateM.Result.ok.inj hmade
  refine ⟨⟨i.world.heap.functions.size⟩, rfl, ?_, (Cells.getD_push _ _ _ _).trans (if_pos rfl)⟩
  exact Nat.lt_of_lt_of_eq (Nat.lt_succ_self _) (Array.size_push _).symm

/-- An entry of the options adds one watcher at most, and it follows the entry's path. -/
theorem adopts_addOptionWatcher (path : String) (definition : Value) (i : Instance) :
    Adopts [(path, definition)] i (left (addOptionWatcherOn machine path definition i)) := by
  have hstays := defines_stays.toRespects
  refine Adopts.after (hstays.heap i) fun heap j _ ↦ ?_
  generalize watchParts heap definition = parts
  refine Adopts.after (hstays.watchCallbackOn j parts.1) fun callback k _ ↦ ?_
  split
  · refine Adopts.after (hstays.ownState k) fun self k hself ↦ ?_
    refine Adopts.after (.lift (hstays.newFunction _) k) fun getter l hgetter ↦ ?_
    have hcall := hstays.callOn l getter .undefined []
    refine Adopts.after hcall fun current n hcurrent ↦ ?_
    have hnew := hstays.newWatcher (.getter getter) callback current
    refine Adopts.after (.lift hnew n) fun watcher o hwatcher ↦ ?_
    refine Adopts.bind (a := [(path, definition)]) (b := []) ?_ fun _ q _ ↦ .of_stays ?_
    · cases hself
      rw [hcurrent] at hcall
      have hlater := Stays.lift hnew n
      rw [hwatcher] at hlater
      have hstate : o.stateValue = k.stateValue := by
        obtain ⟨w, -, rfl⟩ := lift_eq_ok hgetter
        exact congrArg Value.object (hlater.goes.state.trans hcall.goes.state)
      have hsource : watcher.source = .getter getter := by
        obtain ⟨w, hmade, -⟩ := lift_eq_ok hwatcher
        obtain ⟨rfl, -⟩ := EStateM.Result.ok.inj hmade
        rfl
      obtain ⟨f, rfl, hlt, hf⟩ := reads_of_new hgetter
      have hfollows : FollowsPath l.world.heap k.stateValue path watcher := ⟨f, hsource, hlt, hf⟩
      have hmoved := (hfollows.mono hcall.goes.world).mono hlater.goes.world
      exact {
        goes := ⟨rfl, .refl _⟩
        mounted := rfl
        hooks := rfl
        watchers := ⟨_, [watcher], List.Sublist.refl _, .cons (hstate ▸ hmoved) .nil, rfl⟩ }
    · split
      · have hcall := hstays.callOn q callback q.stateValue [current, .undefined]
        exact hstays.discard (y := callOn machine callback q.stateValue [current, .undefined]) hcall
      · exact .refl q
  · exact (Adopts.of_stays (.refl _)).mono (List.nil_sublist _)

/-- All entries, in their order. -/
theorem adopts_addOptionWatchers (watch : Fields Value) : ∀ i : Instance,
    Adopts watch i (left (addOptionWatchersOn machine watch i)) := by
  induction watch with
  | nil => exact fun i ↦ .of_stays (.refl i)
  | cons f rest ih => exact fun i ↦ .bind (adopts_addOptionWatcher f.1 f.2 i) fun _ j _ ↦ ih j

/-- The hooks of mounting register nothing. -/
theorem adopts_launch (watch : Fields Value) (i : Instance) :
    Adopts watch i (left (launchOn machine watch i)) := by
  have hhook (hook : LifecycleHook) (i : Instance) : i.Stays (left (callHookOn machine hook i)) :=
    defines_stays.callHookOn i hook
  have hall : Adopts (watch ++ []) i (left (launchOn machine watch i)) :=
    .after (hhook .created i) fun _ j _ ↦ (adopts_addOptionWatchers watch j).bind fun _ k _ ↦
      .after (hhook .beforeMount k) fun _ l _ ↦ .of_stays (hhook .mounted l)
  rwa [List.append_nil] at hall

/-! ### Lives -/

/-- What is registered, whatever watchers have reported. -/
def enrolled (i : Instance) :
    Array (LifecycleHook × Value) × Array (WatchSource × Value × SwitchId) :=
  (i.hooks.hooks, i.hooks.watchers.map fun w ↦ (w.source, w.callback, w.switch))

/-- With no watchers and no hooks of its own, an instance has none at all. -/
theorem hooks_of_enrolled {i : Instance} (h : i.enrolled = (#[], #[])) : i.hooks = .empty := by
  obtain ⟨hhooks, hwatchers⟩ := Prod.mk.inj h
  exact congr (congrArg HookRegistry.mk hhooks) (Array.map_eq_empty_iff.1 hwatchers)

/-- The instance has been ended. -/
structure Gone (i : Instance) : Prop where
  mounted : i.mounted = false
  hooks : i.hooks = .empty

/-- What is registered stays the same, unless the instance is ended. -/
def Endures (i j : Instance) : Prop :=
  (j.mounted = i.mounted ∧ j.enrolled = i.enrolled) ∨ j.Gone

namespace Endures

variable {i j k : Instance}

theorem refl (i : Instance) : i.Endures i := .inl ⟨rfl, rfl⟩

/-- An instance that has ended stays so. -/
theorem gone (h : i.Endures j) (hi : i.Gone) : j.Gone := by
  rcases h with ⟨hmounted, henrolled⟩ | hj
  · refine ⟨hmounted.trans hi.mounted, hooks_of_enrolled (henrolled.trans ?_)⟩
    unfold enrolled
    rw [hi.hooks]
    exact congrArg (Prod.mk _) Array.map_empty
  · exact hj

theorem trans (h : i.Endures j) (h' : j.Endures k) : i.Endures k := by
  rcases h with ⟨hmounted, henrolled⟩ | hj
  · exact h'.imp (fun h' ↦ ⟨h'.1.trans hmounted, h'.2.trans henrolled⟩) id
  · exact .inr (h'.gone hj)

end Endures

/-- Operations keep the hooks and watchers, or drop them all. -/
theorem works_endures : Works (fun _ i x _ ↦ i.Endures (left (x i))) (fun _ _ _ ↦ True) machine
    machine where
  toRespects := .ofPreorder (Machine.Serves.all machine machine) Endures.refl Endures.trans
    fun _ _ _ _ ↦ .inl ⟨rfl, rfl⟩
  shows _ _ := .inl ⟨rfl, rfl⟩
  close _ := .inl ⟨rfl, rfl⟩
  finish _ := .inr ⟨rfl, rfl⟩

/-- Settling keeps them too, or drops them all. -/
theorem observes_endures : Observes (fun _ i x _ ↦ i.Endures (left (x i))) (fun _ _ _ ↦ True)
    machine machine where
  toRespects := works_endures.toRespects
  report {i index w} current snapshot hw := by
    refine .inl ⟨rfl, congrArg (Prod.mk _) ?_⟩
    change (i.hooks.watchers.setIfInBounds index _).map _ = _
    rw [Array.map_setIfInBounds]
    refine Array.ext_getElem? fun k ↦ ?_
    rw [Array.getElem?_setIfInBounds, Array.getElem?_map]
    split
    · rename_i heq
      rw [if_pos (by simpa using (Array.getElem?_eq_some_iff.1 hw).1), ← heq, hw]
      rfl
    · rfl

/-- So do any commands in a row. -/
theorem endures_after (commands : List Command) : ∀ i : Instance, i.Endures (i.after commands) := by
  induction commands with
  | nil => exact Endures.refl
  | cons c rest ih => exact fun i ↦ (works_endures.obeyOn observes_endures i c).trans (ih _)

/-- Any commands in a row leave what scripts leave. -/
theorem carries_after (commands : List Command) : ∀ i : Instance,
    i.world.Carries (i.after commands).world := by
  induction commands with
  | nil => exact fun i ↦ .refl i.world
  | cons c rest ih => exact fun i ↦ ((outlasts_carries Stop.never).obey c i).world.trans (ih _)

/-- Ending an instance succeeds only with nothing left. -/
theorem gone_of_unmount {i j : Instance} (hi : i.mounted = false → i.Gone)
    (h : unmount i = .ok () j) : j.Gone := by
  obtain ⟨_, _, hget, h⟩ := bind_eq_ok h
  cases hget
  split at h
  · obtain ⟨_, _, -, h⟩ := bind_eq_ok h
    obtain ⟨_, _, -, h⟩ := bind_eq_ok h
    obtain ⟨_, _, -, h⟩ := bind_eq_ok h
    obtain ⟨_, _, -, h⟩ := bind_eq_ok h
    cases h
    exact ⟨rfl, rfl⟩
  · rename_i hmounted
    cases h
    exact hi (Bool.eq_false_iff.2 hmounted)

/-! ### Instances that have ended -/

/-- An instance that has ended takes no turns. -/
theorem history_of_gone (commands : List Command) : ∀ {i : Instance}, i.Gone →
    i.history commands = [] := by
  induction commands with
  | nil => exact fun _ ↦ rfl
  | cons c rest ih =>
    intro i hi
    have hwork := (works_endures.workOn i c).gone hi
    have hturns : c.turns i = [] := by
      unfold Command.turns
      change (left (c.work i)).Gone at hwork
      cases hr : c.work i with
      | error e j => rfl
      | ok u j =>
        rw [hr] at hwork
        have hnone : j.turns = [] := by
          have hhooks : j.hooks = .empty := hwork.hooks
          unfold turns
          rw [hhooks]
          rfl
        dsimp only
        rw [hnone, ite_self]
    unfold history
    rw [hturns, List.nil_append]
    exact ih ((works_endures.obeyOn observes_endures i c).gone hi)

/-- Settling it calls the queued callbacks, and no watcher. -/
theorem settle_of_gone {i : Instance} (hi : i.Gone) :
    settle i = lift (Action.flushTicks machine.call) i := by
  have hrun : runWatchersOn machine i = .ok () i := by
    refine (bind_of_ok (get_eq i)).trans ?_
    rw [hi.hooks]
    rfl
  exact bind_of_ok hrun

/-- Unmounting it again does nothing. -/
theorem unmount_of_gone {i : Instance} (hi : i.Gone) : unmount i = .ok () i := by
  refine (bind_of_ok (get_eq i)).trans ?_
  rw [hi.mounted]
  rfl

/-- The instance of a component with other options. -/
def withOptions (i : Instance) (options : Component.Options) : Instance :=
  { i with component := { i.component with options := options } }

def answerWith {α : Type} (options : Component.Options) :
    EStateM.Result Failure Instance α → EStateM.Result Failure Instance α
  | .ok a i => .ok a (i.withOptions options)
  | .error e i => .error e (i.withOptions options)

/-- The operation is the same whatever the options are, and leaves an instance ended. -/
structure Blind {α : Type} (i : Instance) (x : Op α) : Prop where
  same (options : Component.Options) : x (i.withOptions options) = answerWith options (x i)
  gone : (left (x i)).Gone

namespace Blind

variable {α β : Type} {i : Instance}

theorem pure (hi : i.Gone) (a : α) : Blind i (Pure.pure a : Op α) := ⟨fun _ ↦ rfl, hi⟩

theorem bind {x : Op α} {f : α → Op β} (hx : Blind i x)
    (hf : ∀ a j, j.Gone → Blind j (f a)) : Blind i (x >>= f) := by
  have hgone := hx.gone
  cases hr : x i with
  | ok a j =>
    rw [hr] at hgone
    refine ⟨fun options ↦ ?_, ?_⟩
    · have hsame := hx.same options
      rw [hr] at hsame
      rw [bind_of_ok hr, bind_of_ok hsame]
      exact (hf a j hgone).same options
    · rw [bind_of_ok hr]
      exact (hf a j hgone).gone
  | error e j =>
    rw [hr] at hgone
    refine ⟨fun options ↦ ?_, ?_⟩
    · have hsame := hx.same options
      rw [hr] at hsame
      rw [bind_of_error hr, bind_of_error hsame]
      rfl
    · rw [bind_of_error hr]
      exact hgone

/-- What is read of the instance must not be the options. -/
theorem read {f : Instance → Op β} (hf : ∀ options, f (i.withOptions options) = f i)
    (h : Blind i (f i)) : Blind i (EStateM.get >>= f) where
  same options := by
    rw [bind_of_ok (get_eq i), bind_of_ok (get_eq _), hf]
    exact h.same options
  gone := h.gone

/-- What scripts do is done in the world alone. -/
theorem lift (hi : i.Gone) (x : Action α) : Blind i (Instance.lift x) where
  same options := by
    cases hx : x i.world with
    | ok a w =>
      rw [lift_of_ok hx, lift_of_ok (i := i.withOptions options) hx]
      rfl
    | error e w =>
      rw [lift_of_error hx, lift_of_error (i := i.withOptions options) hx]
      rfl
  gone := by
    rw [left_lift]
    exact ⟨hi.mounted, hi.hooks⟩

theorem discard {x : Op α} (hx : Blind i x) : Blind i (Functor.discard x) :=
  hx.bind fun _ _ hj ↦ .pure hj _

theorem ownState (hi : i.Gone) : Blind i ownState := .read (fun _ ↦ rfl) (.pure hi _)

theorem heap (hi : i.Gone) : Blind i heap := .read (fun _ ↦ rfl) (.pure hi _)

variable {m : Machine}

theorem getOn (hi : i.Gone) (key : String) : Blind i (getOn m key) :=
  (ownState hi).bind fun _ _ hj ↦ .lift hj _

theorem renderOn (hi : i.Gone) : Blind i (renderOn m) :=
  .read (fun _ ↦ rfl) <| (lift hi _).bind fun _ _ hj ↦
    bind ⟨fun _ ↦ rfl, ⟨hj.mounted, hj.hooks⟩⟩ fun _ _ hk ↦ .pure hk _

theorem stateFieldsOn (keys : List String) : ∀ {i : Instance}, i.Gone →
    Blind i (stateFieldsOn m keys) := by
  induction keys with
  | nil => exact fun hi ↦ .pure hi _
  | cons key rest ih =>
    intro i hi
    refine (getOn hi key).bind fun v j hj ↦ ?_
    have hentry (v : Value) : Blind j (do
        let entry := (key, (← Instance.heap).document v)
        return entry :: (← Instance.stateFieldsOn m rest)) :=
      (heap hj).bind fun _ _ hk ↦ (ih hk).bind fun _ _ hl ↦ .pure hl _
    cases v with
    | undefined => exact ih hj
    | function f => exact ih hj
    | _ => exact hentry _

theorem stateJsonOn (hi : i.Gone) : Blind i (stateJsonOn m) :=
  .read (fun _ ↦ rfl) ((stateFieldsOn _ hi).bind fun _ _ hj ↦ .pure hj _)

/-- Handlers belong to what was rendered, not to the options. -/
theorem handleOn (hi : i.Gone) (id : Nat) (event : Json) : Blind i (handleOn m id event) := by
  refine .read (fun _ ↦ rfl) ?_
  cases i.handlers[id]? with
  | none => exact .lift hi _
  | some bound => exact (lift hi _).bind fun _ _ hj ↦ .lift hj _

theorem documents (js : List Json) : ∀ {i : Instance}, i.Gone →
    Blind i (js.mapM fun j ↦ Instance.lift (Action.ofDocument j)) := by
  induction js with
  | nil => exact fun hi ↦ .pure hi _
  | cons j rest ih =>
    intro i hi
    rw [List.mapM_cons]
    exact (lift hi _).bind fun _ _ hk ↦ (ih hk).bind fun _ _ hl ↦ .pure hl _

/-- Methods are found in the state. -/
theorem runMethodOn (hi : i.Gone) (name : String) (args : List Json) :
    Blind i (runMethodOn m name args) := by
  refine (getOn hi name).bind fun method j hj ↦ ?_
  split
  · exact (documents args hj).bind fun _ _ hk ↦ (ownState hk).bind fun _ _ hl ↦ .lift hl _
  · exact .lift hj _

/-- No command sees the options of an instance that has ended. -/
theorem work (hi : i.Gone) (c : Command) : Blind i c.work := by
  cases c with
  | get key => exact (getOn hi key).discard
  | render => exact (renderOn hi).discard
  | stateJson => exact (stateJsonOn hi).discard
  | trigger id event => exact handleOn hi id event
  | callMethod name args => exact (runMethodOn hi name args).discard
  | settle => exact .pure hi _
  | unmount =>
    have hends : Command.unmount.work i = .ok () i := unmount_of_gone hi
    refine ⟨fun options ↦ ?_, ?_⟩
    · rw [hends]
      exact unmount_of_gone (i := i.withOptions options) ⟨hi.mounted, hi.hooks⟩
    · rw [hends]
      exact hi

end Blind

/-- What an ended instance still does: nothing when it is ended again, and else what it is asked to
and what was deferred. Its watchers have no turns, and none of its hooks matter. -/
structure Silent (i : Instance) : Prop where
  unmount : Instance.unmount i = .ok () i
  history (commands : List Command) : i.history commands = []
  obey (c : Command) : c.obey i = (do
    c.work
    if c.settles then lift (Action.flushTicks machine.call) : Op Unit) i
  options (c : Command) (options : Component.Options) :
    c.obey (i.withOptions options) = answerWith options (c.obey i)

/-- What a command does to an instance that has ended: its own work, and a flush. -/
theorem obey_of_gone {i : Instance} (hi : i.Gone) (c : Command) : c.obey i = (do
    c.work
    if c.settles then lift (Action.flushTicks machine.call) : Op Unit) i := by
  have hwork := (works_endures.workOn i c).gone hi
  change (left (c.work i)).Gone at hwork
  rw [c.obey_eq]
  cases hr : c.work i with
  | error e j => rw [bind_of_error hr, bind_of_error hr]
  | ok u j =>
    rw [hr] at hwork
    rw [bind_of_ok hr, bind_of_ok hr]
    split
    · exact settle_of_gone hwork
    · rfl

/-- It stays silent. -/
theorem silent_of_gone {i : Instance} (hi : i.Gone) : i.Silent where
  unmount := unmount_of_gone hi
  history commands := history_of_gone commands hi
  obey := obey_of_gone hi
  options c options := by
    have hblind : Blind i (do
        c.work
        if c.settles then lift (Action.flushTicks machine.call) : Op Unit) := by
      refine (Blind.work hi c).bind fun _ j hj ↦ ?_
      split
      · exact .lift hj _
      · exact .pure hj _
    rw [obey_of_gone hi, obey_of_gone (i := i.withOptions options) ⟨hi.mounted, hi.hooks⟩]
    exact hblind.same options

/-! ### Main result -/

/-- A new instance is sealed before its setup. -/
theorem sealed_created {c : Component} {h : Heap} {state : ObjectId} {w : World}
    (hcreate : create c (c.birth h) = .ok state w) : w.Sealed := by
  rw [c.create_eq] at hcreate
  obtain ⟨user, w₁, hfactory, hstate⟩ := bind_eq_ok hcreate
  have hcarries := (c.leads_factory (c.birth h)).carries
  rw [hfactory] at hcarries
  rw [c.stateOf_apply] at hstate
  obtain ⟨rfl, rfl⟩ := EStateM.Result.ok.inj hstate
  exact hcarries.closed rfl

/-- When setup has returned, an instance has the hooks and watchers that setup has registered, and
nothing can be registered any more: asking for it makes a function that stops nothing, at most.
Mounting adds watchers of the options. From then on, whatever the instance is asked to do and
however that ends, all that is registered stays the same until the instance is ended, and an
instance that has been ended has nothing left and runs no hook and no watcher again. -/
theorem registration_closes {c : Component} {h : Heap} {state : ObjectId} {w : World}
    (hcreate : create c (c.birth h) = .ok state w) {options : Component.Options}
    {i first : Instance} (hprepare : prepare (born c w state .empty) = .ok options i)
    (hlaunch : first = left (launchOn machine options.watch i)) :
    mount c h = mountResult ((do launchOn machine options.watch; settle : Op Unit) i) ∧
      (∃ returned w₁, c.setupFields w = .ok (returned, i.hooks) w₁) ∧ i.world.Sealed ∧
      Adopts options.watch i first ∧
      (∀ commands j, j = first.after commands →
        j.world.Sealed ∧ (j.mounted = true → j.enrolled = first.enrolled) ∧
          (j.mounted = false → j.Gone ∧ j.Silent) ∧
          ∀ k, unmount j = .ok () k → k.Gone ∧ ∀ later, (k.after later).Silent) ∧
      (∀ (entry : Entry) (w : World), w.Sealed → (finalWorld (entry.run machine w)).Sealed) ∧
      ∀ (c : Capability), c.registers = true → ∀ (w : World), w.Sealed →
        ∀ (call : Caller) (args : List Value),
          finalWorld (Action.capability call c args w) = w ∨
            finalWorld (Action.capability call c args w) =
              { w with heap := (w.heap.newFunction (.native (.stop none))).2 } := by
  obtain ⟨hsetup, hsealed, hmounted, -⟩ := prepare_spec (sealed_created hcreate) hprepare
  have hadopts : Adopts options.watch i first := hlaunch ▸ adopts_launch options.watch i
  refine ⟨mount_of_prepared hcreate hprepare, hsetup, hsealed, hadopts, ?_,
    fun entry w ↦ (Action.Leads.run_machine entry w).carries.closed,
    fun c hc w hw ↦ Action.capability_of_sealed hc hw⟩
  rintro commands _ rfl
  have hendures := endures_after commands first
  have hgone : (first.after commands).mounted = false → (first.after commands).Gone := by
    intro hfalse
    refine hendures.resolve_left fun hsame ↦ ?_
    rw [hsame.1, hadopts.mounted, hmounted] at hfalse
    cases hfalse
  refine ⟨(carries_after commands first).closed (hadopts.goes.world.closed hsealed), fun htrue ↦ ?_,
    fun hfalse ↦ ⟨hgone hfalse, silent_of_gone (hgone hfalse)⟩, fun k hk ↦ ?_⟩
  · refine (hendures.resolve_right fun hends ↦ ?_).2
    rw [hends.mounted] at htrue
    cases htrue
  · have hkgone := gone_of_unmount hgone hk
    exact ⟨hkgone, fun later ↦ silent_of_gone ((endures_after later k).gone hkgone)⟩

/-! ### A method that asks for what setup has asked for -/

/-- A component whose method watches the list that its setup watches. -/
def insistent : Component :=
  { listing with options := { Component.Options.empty with
      setup := some (.function ⟨1⟩)
      methods := [("again", .function ⟨1⟩)] } }

def insistentState : ObjectId × World :=
  match create insistent (insistent.birth listingHeap) with
  | .ok state w => (state, w)
  | .error _ w => (⟨0⟩, w)

def insistentPrepared : Component.Options × Instance :=
  match prepare (born insistent insistentState.2 insistentState.1 .empty) with
  | .ok options i => (options, i)
  | .error _ i => (.empty, i)

def insistentFirst : Instance :=
  left (launchOn machine insistentPrepared.1.watch insistentPrepared.2)

/-- The instance when its method has been called. -/
def insistentCalled : Instance := insistentFirst.after [.settle, .callMethod "again" []]

/-- There is one watcher before and after the method runs, and none when the instance has ended. -/
theorem registration_closes_insistent :
    create insistent (insistent.birth listingHeap) = .ok insistentState.1 insistentState.2 ∧
    prepare (born insistent insistentState.2 insistentState.1 .empty) =
      .ok insistentPrepared.1 insistentPrepared.2 ∧
    succeeds (callMethod "again" [] (left (settle insistentFirst))) = true ∧
    insistentFirst.hooks.watchers.size = 1 ∧ insistentCalled.enrolled = insistentFirst.enrolled ∧
    ∃ k, unmount insistentCalled = .ok () k ∧ k.Gone ∧
      (k.after [.callMethod "again" [], .render]).Silent := by
  have hcreate : create insistent (insistent.birth listingHeap) =
      .ok insistentState.1 insistentState.2 := by
    have hok : succeeds (create insistent (insistent.birth listingHeap)) = true := by decide +kernel
    obtain ⟨state, hstate⟩ := exists_eq_ok hok
    unfold insistentState
    rw [hstate]
  have hprepare : prepare (born insistent insistentState.2 insistentState.1 .empty) =
      .ok insistentPrepared.1 insistentPrepared.2 := by
    have hok : succeeds (prepare (born insistent insistentState.2 insistentState.1 .empty)) =
        true := by decide +kernel
    obtain ⟨options, hoptions⟩ := exists_eq_ok hok
    unfold insistentPrepared
    rw [hoptions]
  have hlaunch : insistentFirst =
      left (launchOn machine insistentPrepared.1.watch insistentPrepared.2) := rfl
  obtain ⟨-, -, -, -, hlife, -⟩ := registration_closes hcreate hprepare hlaunch
  obtain ⟨-, hsame, -, hends⟩ := hlife [.settle, .callMethod "again" []] insistentCalled rfl
  have hunmount : succeeds (unmount insistentCalled) = true := by decide +kernel
  obtain ⟨⟨⟩, hk⟩ := exists_eq_ok hunmount
  obtain ⟨hgone, hsilent⟩ := hends _ hk
  exact ⟨hcreate, hprepare, by decide +kernel, by decide +kernel, hsame (by decide +kernel),
    _, hk, hgone, hsilent _⟩

end Instance

end Nodecraft
