import Nodecraft.Proofs.Component.Watchers
import Nodecraft.Proofs.Component.State

/-!
# Turns of watchers over the life of an instance

When an instance settles, its watchers have their turns one after the other, in the order of their
registration, until one fails. The turns of a whole life (`Instance.history`) tell what a watcher has
reported last (`lastReport`): what it read as in the latest turn in which it called back, or else when it
was registered. That is what its next turn compares with, and what its callback gets as the previous value
(`Instance.watchers_report_changes`).
-/

set_option autoImplicit false

namespace Nodecraft

open Sandbox

/-- A watcher that has last reported something. -/
def Sandbox.Watcher.reporting (w : Watcher) (report : Value × Json) : Watcher :=
  { w with last := report.1, snapshot := report.2 }

namespace Instance

/-- A turn: the index of the watcher that has it, and the instance in which it begins. -/
abbrev TurnOf := Nat × Instance

/-- The turns of so many watchers, from one on. The turn that fails is the last one. -/
def turnsFrom (index : Nat) : Nat → Instance → List TurnOf
  | 0, _ => []
  | count + 1, i => (index, i) ::
    match runWatcherOn machine index i with
    | .ok _ j => turnsFrom (index + 1) count j
    | .error _ _ => []

/-- The turns when the instance settles. -/
def turns (i : Instance) : List TurnOf := turnsFrom 0 i.hooks.watchers.size i

/-- Whatever the watchers do when the instance settles, they do in their turns. -/
theorem runWatchersFrom_eq (count : Nat) : ∀ (index : Nat) (i : Instance),
    runWatchersFromOn machine index count i =
      (turnsFrom index count i).foldl (fun _ t ↦ runWatcherOn machine t.1 t.2) (.ok () i) := by
  induction count with
  | zero => exact fun _ _ ↦ rfl
  | succ count ih =>
    intro index i
    unfold turnsFrom runWatchersFromOn
    rw [List.foldl_cons]
    cases hrun : runWatcherOn machine index i with
    | ok u j => rw [bind_of_ok hrun, ih]
    | error e j => rw [bind_of_error hrun, List.foldl_nil]

/-- Watchers take their turns in the order in which they are registered, up to one that fails. -/
theorem turnsFrom_indices (count : Nat) : ∀ (index : Nat) (i : Instance),
    (turnsFrom index count i).map Prod.fst = List.range' index (turnsFrom index count i).length ∧
      (turnsFrom index count i).length ≤ count := by
  induction count with
  | zero => exact fun _ _ ↦ ⟨rfl, Nat.le_refl _⟩
  | succ count ih =>
    intro index i
    unfold turnsFrom
    rw [List.map_cons, List.length_cons, List.range'_succ]
    cases runWatcherOn machine index i with
    | ok u j =>
      obtain ⟨hmap, hle⟩ := ih (index + 1) j
      exact ⟨congrArg _ hmap, Nat.succ_le_succ hle⟩
    | error e j => exact ⟨rfl, Nat.succ_le_succ (Nat.zero_le _)⟩

/-! ### Histories -/

/-- The turns that a command leads to. -/
def Command.turns (c : Command) (i : Instance) : List TurnOf :=
  match c.work i with
  | .ok _ j => if c.settles then j.turns else []
  | .error _ _ => []

/-- A command that settles has the turns of its settling. -/
theorem Command.turns_of_ok {c : Command} {i j : Instance} (h : c.work i = .ok () j)
    (hsettles : c.settles = true) : c.turns i = j.turns := by
  unfold Command.turns
  rw [h]
  exact if_pos hsettles

/-- The turns of watchers while an instance obeys commands. -/
def history : Instance → List Command → List TurnOf
  | _, [] => []
  | i, c :: rest => c.turns i ++ history (left (c.obey i)) rest

/-- What the watcher with an index has reported last after a turn. -/
def reportOf (index : Nat) (last : Value × Json) (t : TurnOf) : Value × Json :=
  match t.2.turn t.1 with
  | .callsBack _ current snapshot _ => if t.1 = index then (current, snapshot) else last
  | _ => last

/-- What a watcher has reported last after turns: the value and the content that it called back with in
the latest turn of its own in which it did, or else what it was registered with. -/
def lastReport (index : Nat) (registered : Watcher) (turns : List TurnOf) : Value × Json :=
  turns.foldl (reportOf index) (registered.last, registered.snapshot)

/-- The last turn decides what was reported last, if it reported. -/
theorem lastReport_append (index : Nat) (w : Watcher) (turns : List TurnOf) (t : TurnOf) :
    lastReport index w (turns ++ [t]) = reportOf index (lastReport index w turns) t :=
  List.foldl_append

/-- Something holds of each turn and the turns before it. -/
def EachTurn (P : List TurnOf → TurnOf → Prop) : List TurnOf → List TurnOf → Prop
  | _, [] => True
  | earlier, t :: rest => P earlier t ∧ EachTurn P (earlier ++ [t]) rest

section

variable {P : List TurnOf → TurnOf → Prop}

/-- Turns in a row, each seen with those before it. -/
theorem EachTurn.append (a : List TurnOf) : ∀ {earlier b : List TurnOf}, EachTurn P earlier a →
    EachTurn P (earlier ++ a) b → EachTurn P earlier (a ++ b) := by
  induction a with
  | nil => exact fun {earlier b} _ hb ↦ List.append_nil earlier ▸ hb
  | cons t rest ih =>
    intro earlier b ha hb
    refine ⟨ha.1, ih ha.2 ?_⟩
    rwa [List.append_assoc]

/-- What holds of each turn holds of one in the middle. -/
theorem EachTurn.of_split {t : TurnOf} {b : List TurnOf} (a : List TurnOf) : ∀ {earlier : List TurnOf},
    EachTurn P earlier (a ++ t :: b) → P (earlier ++ a) t := by
  induction a with
  | nil => exact fun {earlier} h ↦ (List.append_nil earlier).symm ▸ h.1
  | cons u rest ih =>
    intro earlier h
    have hrest := ih h.2
    rwa [List.append_assoc] at hrest

end

/-! ### What a turn leaves -/

/-- The watchers of the instance are those that have been registered, and each remembers what it has
reported last. -/
def Remembers (registered : Array Watcher) (turns : List TurnOf) (i : Instance) : Prop :=
  ∀ k : Nat, i.hooks.watchers[k]? =
    registered[k]?.map fun w : Watcher ↦ w.reporting (lastReport k w turns)

/-- A call leaves the watchers alone. -/
theorem hooks_discard_call (f self : Value) (args : List Value) (i : Instance) :
    (left (discard (call f self args) i)).hooks = i.hooks := by
  change (left ((lift (machine.call f self args) >>= fun _ ↦ pure ()) i)).hooks = i.hooks
  cases hcall : machine.call f self args i.world with
  | ok v w => rw [bind_of_ok (lift_of_ok hcall)]; rfl
  | error e w => rw [bind_of_error (lift_of_error hcall)]; rfl

section

variable {registered : Array Watcher} {earlier : List TurnOf} {i : Instance}

theorem Remembers.nil (i : Instance) : Remembers i.hooks.watchers [] i := by
  intro k
  cases i.hooks.watchers[k]? <;> rfl

theorem Remembers.size_eq (h : Remembers registered earlier i) :
    i.hooks.watchers.size = registered.size := by
  have hle (k : Nat) : i.hooks.watchers.size ≤ k ↔ registered.size ≤ k := by
    rw [← Array.getElem?_eq_none_iff, ← Array.getElem?_eq_none_iff, h k, Option.map_eq_none_iff]
  exact Nat.le_antisymm ((hle _).2 (Nat.le_refl _)) ((hle _).1 (Nat.le_refl _))

/-- What is remembered is in the watchers. -/
theorem Remembers.congr (h : Remembers registered earlier i) {j : Instance}
    (hooks : j.hooks = i.hooks) : Remembers registered earlier j :=
  fun k ↦ (congrArg (fun hooks ↦ hooks.watchers[k]?) hooks).trans (h k)

/-- A turn in which nothing is reported leaves the memory as it is. -/
theorem Remembers.silent (h : Remembers registered earlier i) {k : Nat} {j : Instance}
    (hsame : ∀ index last, reportOf index last (k, i) = last) (hooks : j.hooks = i.hooks) :
    Remembers registered (earlier ++ [(k, i)]) j := by
  intro index
  simp only [lastReport_append, hsame]
  exact h.congr hooks index

/-- A turn that reports is remembered, and any other changes nothing. -/
theorem Remembers.turn (h : Remembers registered earlier i) (k : Nat) :
    Remembers registered (earlier ++ [(k, i)]) (left (runWatcherOn machine k i)) := by
  rw [runWatcher_eq]
  cases hturn : i.turn k with
  | skips => exact h.silent (fun _ _ ↦ by simp only [reportOf, hturn]) rfl
  | runsEffect f =>
    exact h.silent (fun _ _ ↦ by simp only [reportOf, hturn]) (hooks_discard_call f .undefined [] i)
  | fails e w => exact h.silent (fun _ _ ↦ by simp only [reportOf, hturn]) rfl
  | rests w => exact h.silent (fun _ _ ↦ by simp only [reportOf, hturn]) rfl
  | callsBack watcher current snapshot w =>
    have hwatcher := (callsBack_iff.1 hturn).exists_watcher
    have hreport (index : Nat) (last : Value × Json) : reportOf index last (k, i) =
        if k = index then (current, snapshot) else last := by simp only [reportOf, hturn]
    intro index
    simp only [lastReport_append, hreport]
    have hhooks : (left (i.take k (.callsBack watcher current snapshot w))).hooks =
        ((i.inWorld w).reported k watcher current snapshot).hooks := hooks_discard_call _ _ _ _
    rw [hhooks]
    change (i.hooks.watchers.setIfInBounds k _)[index]? = _
    rw [Array.getElem?_setIfInBounds]
    by_cases hk : k = index
    · subst hk
      have hold := h k
      rw [hwatcher] at hold
      obtain ⟨w₀, hregistered, rfl⟩ := Option.map_eq_some_iff.1 hold.symm
      rw [if_pos rfl, if_pos (Array.getElem?_eq_some_iff.1 hwatcher).1, hregistered]
      simp only [if_true]
      rfl
    · simp only [if_neg hk]
      exact h index

end

/-! ### Stopped watchers -/

/-- No operation turns a stopped watcher on again. -/
theorem observes_keepsOff : Observes (fun _ i x _ ↦ i.Goes World.KeepsOff (left (x i)))
    (fun _ x _ ↦ ∀ w : World, w.KeepsOff (finalWorld (x w))) machine machine :=
  (outlasts_keepsOff Stop.never).observes_machine

/-- What has been turned off since an instance began is off. -/
structure Since (first : Instance) (earlier : List TurnOf) (i : Instance) : Prop where
  start : first.world.KeepsOff i.world
  turn {t : TurnOf} : t ∈ earlier →
    first.world.KeepsOff t.2.world ∧ t.2.world.KeepsOff i.world

theorem Since.nil (first : Instance) : Since first [] first where
  start := Heap.KeepsOff.refl _
  turn ht := absurd ht List.not_mem_nil

theorem Since.trans {first i j : Instance} {earlier : List TurnOf} (h : Since first earlier i)
    (hij : i.world.KeepsOff j.world) : Since first earlier j :=
  ⟨Heap.KeepsOff.trans h.start hij,
    fun ht ↦ ⟨(h.turn ht).1, Heap.KeepsOff.trans (h.turn ht).2 hij⟩⟩

/-- One turn more. -/
theorem Since.then {first i j : Instance} {earlier : List TurnOf} (h : Since first earlier i)
    (k : Nat) (hij : i.world.KeepsOff j.world) : Since first (earlier ++ [(k, i)]) j where
  start := Heap.KeepsOff.trans h.start hij
  turn ht := by
    rcases List.mem_append.1 ht with ht | ht
    · exact ⟨(h.turn ht).1, Heap.KeepsOff.trans (h.turn ht).2 hij⟩
    · obtain rfl := List.mem_singleton.1 ht
      exact ⟨h.start, hij⟩

/-! ### Runs -/

/-- What is so in the instance in which a turn begins, with the turns before it. -/
structure Course (first : Instance) (earlier : List TurnOf) (i : Instance) : Prop where
  remembers : Remembers first.hooks.watchers earlier i
  since : Since first earlier i

/-- A turn of a watcher that was registered. -/
structure InCourse (first : Instance) (earlier : List TurnOf) (t : TurnOf) : Prop where
  course : Course first earlier t.2
  exists_watcher : t.1 < first.hooks.watchers.size

section

variable {first : Instance}

/-- What is so at each turn is so at the next one. -/
theorem Course.turn {earlier : List TurnOf} {i : Instance} (h : Course first earlier i) (k : Nat) :
    Course first (earlier ++ [(k, i)]) (left (runWatcherOn machine k i)) where
  remembers := h.remembers.turn k
  since := h.since.then k (observes_keepsOff.runWatcherOn i k).world

/-- Turns in a row keep the course. -/
theorem Course.turnsFrom (count : Nat) : ∀ {index : Nat} {earlier : List TurnOf} {i : Instance},
    Course first earlier i → index + count ≤ first.hooks.watchers.size →
      EachTurn (InCourse first) earlier (turnsFrom index count i) ∧
        Course first (earlier ++ turnsFrom index count i)
          (left (runWatchersFromOn machine index count i)) := by
  induction count with
  | zero =>
    intro index earlier i h _
    exact ⟨trivial, (List.append_nil earlier).symm ▸ h⟩
  | succ count ih =>
    intro index earlier i h hle
    have hin : InCourse first earlier (index, i) :=
      ⟨h, Nat.lt_of_lt_of_le (Nat.lt_add_of_pos_right count.succ_pos) hle⟩
    have hturn := h.turn index
    unfold Instance.turnsFrom runWatchersFromOn
    cases hrun : runWatcherOn machine index i with
    | ok u j =>
      rw [hrun] at hturn
      have hrest : index + 1 + count ≤ first.hooks.watchers.size := by omega
      obtain ⟨heach, hleft⟩ := ih hturn hrest
      rw [bind_of_ok hrun]
      exact ⟨⟨hin, heach⟩, by rwa [List.append_assoc] at hleft⟩
    | error e j =>
      rw [hrun] at hturn
      rw [bind_of_error hrun]
      exact ⟨⟨hin, trivial⟩, hturn⟩

/-- An instance that has been ended has no watchers. -/
structure Life (first : Instance) (earlier : List TurnOf) (i : Instance) : Prop where
  watchers : Remembers first.hooks.watchers earlier i ∨ i.hooks.watchers = #[]
  since : Since first earlier i

/-- What leaves the watchers, or drops them all, goes on with the same life. -/
theorem Life.trans {earlier : List TurnOf} {i j : Instance} (h : Life first earlier i)
    (hooks : j.hooks = i.hooks ∨ j.hooks = .empty) (hij : i.world.KeepsOff j.world) :
    Life first earlier j where
  watchers := by
    rcases hooks with hooks | hooks
    · exact h.watchers.imp (fun hr ↦ hr.congr hooks)
        fun hnone ↦ (congrArg HookRegistry.watchers hooks).trans hnone
    · exact .inr (congrArg HookRegistry.watchers hooks)
  since := h.since.trans hij

/-- The turns of one settling. -/
theorem Life.runWatchers {earlier : List TurnOf} {i : Instance} (h : Life first earlier i) :
    EachTurn (InCourse first) earlier i.turns ∧
      Life first (earlier ++ i.turns) (left (runWatchersOn machine i)) := by
  have hrun : runWatchersOn machine i = runWatchersFromOn machine 0 i.hooks.watchers.size i :=
    bind_of_ok (get_eq i)
  rw [hrun]
  rcases h.watchers with hremembers | hnone
  · have hle : 0 + i.hooks.watchers.size ≤ first.hooks.watchers.size :=
      Nat.le_of_eq ((Nat.zero_add _).trans hremembers.size_eq)
    obtain ⟨heach, hleft⟩ := Course.turnsFrom i.hooks.watchers.size ⟨hremembers, h.since⟩ hle
    exact ⟨heach, .inl hleft.remembers, hleft.since⟩
  · have hsize : i.hooks.watchers.size = 0 := congrArg Array.size hnone
    unfold turns
    rw [hsize]
    refine ⟨trivial, ?_⟩
    rw [turnsFrom, List.append_nil]
    exact h

/-- Settling is those turns and a flush. -/
theorem Life.settle {earlier : List TurnOf} {i : Instance} (h : Life first earlier i) :
    EachTurn (InCourse first) earlier i.turns ∧
      Life first (earlier ++ i.turns) (left (Instance.settle i)) := by
  obtain ⟨heach, hleft⟩ := h.runWatchers
  refine ⟨heach, ?_⟩
  rcases left_bind (runWatchersOn machine) (fun _ ↦ lift (Action.flushTicks machine.call)) i with
    hend | ⟨_, -, hend⟩
  · exact (congrArg _ hend).mpr hleft
  · refine (congrArg _ hend).mpr (hleft.trans (.inl ?_) ?_)
    · rw [left_lift]
      rfl
    · exact (observes_keepsOff.lift _ (y := Action.flushTicks machine.call)
        observes_keepsOff.flushTicks).world

/-- Between turns the registered watchers stay as they are, unless the instance is ended. -/
theorem works_hooks : Works
    (fun _ i x _ ↦ (left (x i)).hooks = i.hooks ∨ (left (x i)).hooks = .empty)
    (fun _ _ _ ↦ True) machine machine where
  toRespects := .ofPreorder (R := fun i j ↦ j.hooks = i.hooks ∨ j.hooks = .empty)
    (Machine.Serves.all machine machine) (fun _ ↦ .inl rfl)
    (fun hij hjk ↦ by
      rcases hjk with hjk | hjk
      · rw [hjk]
        exact hij
      · exact .inr hjk)
    fun _ _ _ _ ↦ .inl rfl
  shows _ _ := .inl rfl
  close _ := .inl rfl
  finish _ := .inr rfl

/-- A command and its settling. -/
theorem Life.obey {earlier : List TurnOf} {i : Instance} (h : Life first earlier i) (c : Command) :
    EachTurn (InCourse first) earlier (c.turns i) ∧
      Life first (earlier ++ c.turns i) (left (c.obey i)) := by
  have hwork : Life first earlier (left (c.work i)) :=
    h.trans (works_hooks.workOn i c) ((outlasts_keepsOff Stop.never).works_machine.workOn i c).world
  rw [c.obey_eq]
  unfold Command.turns
  cases hr : c.work i with
  | error e j =>
    rw [hr] at hwork
    rw [bind_of_error hr]
    dsimp only
    rw [List.append_nil]
    exact ⟨trivial, hwork⟩
  | ok u j =>
    rw [hr] at hwork
    rw [bind_of_ok hr]
    dsimp only
    split
    · exact hwork.settle
    · rw [List.append_nil]
      exact ⟨trivial, hwork⟩

/-- Any history is a course of turns. -/
theorem Life.history (commands : List Command) : ∀ {earlier : List TurnOf} {i : Instance},
    Life first earlier i →
      EachTurn (InCourse first) earlier (i.history commands) := by
  induction commands with
  | nil => exact fun _ ↦ trivial
  | cons c rest ih =>
    intro earlier i h
    obtain ⟨heach, hleft⟩ := h.obey c
    exact .append _ heach (ih hleft)

end

/-! ### Main results -/

/-- A watcher sees a change in the value or in what is written of it. -/
theorem hasChanged_iff {w : Watcher} {current : Value} {snapshot : Json} :
    w.hasChanged current snapshot = true ↔
      ¬(current.strictEquals w.last = true ∧ (snapshot == w.snapshot) = true) := by
  unfold Watcher.hasChanged
  rw [Bool.not_eq_true', ← Bool.and_eq_true, Bool.not_eq_true]

/-- A stopped watcher skips its turn. -/
theorem turn_of_off {i : Instance} {k : Nat} {watcher : Watcher}
    (hwatcher : i.hooks.watchers[k]? = some watcher)
    (hoff : i.world.heap.switch watcher.switch = false) : i.turn k = .skips := by
  unfold turn
  rw [hwatcher]
  dsimp only
  rw [hoff]
  rfl

/-- A registered watcher has its turn when other turns have been. -/
structure TakesTurn (registered : Watcher) (earlier : List TurnOf) (k : Nat) (i : Instance) : Prop where
  /-- Whatever has happened, it remembers its last report. -/
  watcher : i.hooks.watchers[k]? = some (registered.reporting (lastReport k registered earlier))
  takes : runWatcherOn machine k i = i.take k (i.turn k)
  /-- It calls back exactly if it runs, and its source reads as a value that is not the one of the last
  report, or has another content. -/
  calls_iff {watcher : Watcher} {current : Value} {snapshot : Json} {w : World} :
    i.turn k = .callsBack watcher current snapshot w ↔
      watcher = registered.reporting (lastReport k registered earlier) ∧
      i.world.heap.switch registered.switch = true ∧ (∀ f, registered.source ≠ .effect f) ∧
      Action.readSource machine.call registered.source i.world = .ok current w ∧
      snapshot = w.heap.document current ∧
      ¬(current.strictEquals (lastReport k registered earlier).1 = true ∧
        (snapshot == (lastReport k registered earlier).2) = true)
  /-- The callback gets what the source reads as, and the value of the last report. -/
  calls {watcher : Watcher} {current : Value} {snapshot : Json} {w : World} :
    i.turn k = .callsBack watcher current snapshot w →
      runWatcherOn machine k i = discard
        (call registered.callback i.stateValue [current, (lastReport k registered earlier).1])
        ((i.inWorld w).reported k watcher current snapshot)
  /-- A watcher that was stopped when an earlier turn began is skipped. -/
  stopped {t : TurnOf} : t ∈ earlier → t.2.world.heap.switch registered.switch = false →
    i.turn k = .skips

/-- In its course, a turn is what the earlier reports make it. -/
theorem Course.takesTurn {first : Instance} (hfirst : first.HasRegistered) {earlier : List TurnOf}
    {i : Instance} (h : Course first earlier i) {k : Nat} {registered : Watcher}
    (hk : first.hooks.watchers[k]? = some registered) : TakesTurn registered earlier k i := by
  have hwatcher : i.hooks.watchers[k]? =
      some (registered.reporting (lastReport k registered earlier)) := by
    rw [h.remembers k, hk]
    rfl
  refine ⟨hwatcher, runWatcher_eq i k, ⟨?_, ?_⟩, fun hturn ↦ ?_, fun {t} ht hoff ↦ ?_⟩
  · intro hturn
    obtain ⟨hexists, hruns, hobserves, hreads, hchanged, hcontent⟩ := callsBack_iff.1 hturn
    obtain rfl := Option.some.inj (hwatcher.symm.trans hexists)
    exact ⟨rfl, hruns, hobserves, hreads, hcontent, hasChanged_iff.1 hchanged⟩
  · rintro ⟨rfl, hruns, hobserves, hreads, hcontent, hchanged⟩
    exact callsBack_iff.2 ⟨hwatcher, hruns, hobserves, hreads, hasChanged_iff.2 hchanged, hcontent⟩
  · obtain rfl := Option.some.inj (hwatcher.symm.trans (callsBack_iff.1 hturn).exists_watcher)
    rw [runWatcher_eq, hturn]
    rfl
  · obtain ⟨hlt, hkeeps⟩ := h.since.turn ht
    have hmem := hfirst registered (Array.mem_of_getElem? hk)
    exact turn_of_off hwatcher
      (hkeeps.off (Nat.lt_of_lt_of_le hmem.switch_lt hlt.size_le) hoff)

/-- When an instance settles, its watchers have their turns in the order of their registration, each of
them once at most. Over a whole life, from the settling that mounting ends with, each turn is taken with
what the watcher has last reported in an earlier turn, or was registered with: no matter what
commands end with, no change is skipped, and no watcher is called back that has been stopped. -/
theorem watchers_report_changes {c : Component} {h : Heap} {state : ObjectId} {w : World}
    (hcreate : create c (c.birth h) = .ok state w) {options : Component.Options} {i first : Instance}
    (hprepare : prepare (born c w state .empty) = .ok options i)
    (hlaunch : launchOn machine options.watch i = .ok () first) :
    mount c h = mountResult (settle first) ∧ first.HasRegistered ∧
      (∀ i : Instance,
        runWatchersOn machine i =
          i.turns.foldl (fun _ t ↦ runWatcherOn machine t.1 t.2) (.ok () i) ∧
        i.turns.map Prod.fst = List.range i.turns.length ∧
        i.turns.length ≤ i.hooks.watchers.size) ∧
      (∀ commands earlier k i later,
        first.history (.settle :: commands) = earlier ++ (k, i) :: later →
          ∃ registered, first.hooks.watchers[k]? = some registered ∧
            TakesTurn registered earlier k i) ∧
      (∀ s self args w,
        (finalWorld (Action.native machine.call (.stop (some s)) self args w)).heap.switch s = false) ∧
      ∀ (entry : Entry) (w : World) (s : SwitchId), s.index < w.heap.switches.size →
        w.heap.switch s = false → (finalWorld (entry.run machine w)).heap.switch s = false := by
  have hregistered : first.HasRegistered := by
    have hborn : (born c w state .empty).HasRegistered :=
      fun watcher hmem ↦ absurd hmem (Array.not_mem_empty watcher)
    have hprepared := mounts_hasRegistered.prepare (born c w state .empty) hborn
    rw [hprepare] at hprepared
    have hlaunched := mounts_hasRegistered.launchOn mounts_hasRegistered.watch i options.watch hprepared
    rwa [hlaunch] at hlaunched
  refine ⟨?_, hregistered, fun i ↦ ⟨?_, ?_⟩, ?_, switch_of_stop machine.call, fun entry w s hs hoff ↦ ?_⟩
  · rw [mount_of_prepared hcreate hprepare, bind_of_ok hlaunch]
  · exact (bind_of_ok (get_eq i)).trans (runWatchersFrom_eq _ 0 i)
  · obtain ⟨hindices, hle⟩ := turnsFrom_indices i.hooks.watchers.size 0 i
    exact ⟨hindices.trans List.range_eq_range'.symm, hle⟩
  · intro commands earlier k i later hsplit
    have hlife : Life first [] first := ⟨.inl (.nil first), .nil first⟩
    have heach := hlife.history (.settle :: commands)
    rw [hsplit] at heach
    obtain ⟨hcourse, hk⟩ := heach.of_split
    exact ⟨_, Array.getElem?_eq_getElem hk,
      hcourse.takesTurn hregistered (Array.getElem?_eq_getElem hk)⟩
  · exact (Action.Leads.run_machine entry w).keepsOff.off hs hoff

/-! ### A watcher of a list -/

open Script in
/-- A component that watches a list, and has a method that reverses it. -/
def listing : Component where
  template := ⟨[], #[]⟩
  options := { Component.Options.empty with
    setup := some (.function ⟨1⟩)
    methods := [("swap", .function ⟨3⟩)] }
  data := []
  store := []
  limits := .standard

open Script in
/-- A heap with the list, of an undefined value and a null, and with the functions of the component. -/
def listingHeap : Heap where
  arrays := #[#[.undefined, .null]]
  objects := #[]
  functions := #[.native (.capability .watch),
    .closure (.make none [] none [.expr (.call (.name "watch")
      [.value (.name "list"), .value (.name "notify")] false)] false) ⟨0⟩,
    .closure (.make none [] none [] false) ⟨0⟩,
    .closure (.make none [] none [.expr (.call (.member (.name "list") (.fixed "reverse") false)
      [] false)] false) ⟨0⟩]
  scopes := #[⟨[("watch", ⟨.function ⟨0⟩, false⟩), ("list", ⟨.array ⟨0⟩, false⟩),
    ("notify", ⟨.function ⟨2⟩, false⟩)], none, none, none, true⟩]
  switches := #[]

def listingState : ObjectId × World :=
  match create listing (listing.birth listingHeap) with
  | .ok state w => (state, w)
  | .error _ w => (⟨0⟩, w)

def listingPrepared : Component.Options × Instance :=
  match prepare (born listing listingState.2 listingState.1 .empty) with
  | .ok options i => (options, i)
  | .error _ i => (.empty, i)

/-- The instance when mounting settles. -/
def listingFirst : Instance := left (launchOn machine listingPrepared.1.watch listingPrepared.2)

/-- The instance when it settles after the list has been reversed. -/
def listingSwapped : Instance :=
  left ((Command.callMethod "swap" []).work (left (settle listingFirst)))

theorem create_listing :
    create listing (listing.birth listingHeap) = .ok listingState.1 listingState.2 := by
  have hok : succeeds (create listing (listing.birth listingHeap)) = true := by decide +kernel
  obtain ⟨state, hstate⟩ := exists_eq_ok hok
  unfold listingState
  rw [hstate]

theorem prepare_listing : prepare (born listing listingState.2 listingState.1 .empty) =
    .ok listingPrepared.1 listingPrepared.2 := by
  have hok : succeeds (prepare (born listing listingState.2 listingState.1 .empty)) = true := by
    decide +kernel
  obtain ⟨options, hoptions⟩ := exists_eq_ok hok
  unfold listingPrepared
  rw [hoptions]

theorem launch_listing :
    launchOn machine listingPrepared.1.watch listingPrepared.2 = .ok () listingFirst := by
  have hok : succeeds (launchOn machine listingPrepared.1.watch listingPrepared.2) = true := by
    decide +kernel
  exact (exists_eq_ok hok).choose_spec

theorem turns_of_one {i : Instance} (hone : i.hooks.watchers.size = 1) : i.turns = [(0, i)] := by
  unfold turns
  rw [hone]
  unfold turnsFrom
  cases runWatcherOn machine 0 i <;> rfl

/-- The turns of the only watcher when mounting settles and when a method has been called. -/
theorem history_callMethod {first second : Instance} {name : String}
    (hfirst : first.hooks.watchers.size = 1) (hsecond : second.hooks.watchers.size = 1)
    (hwork : (Command.callMethod name []).work (left (settle first)) = .ok () second) :
    first.history [.settle, .callMethod name []] = [(0, first), (0, second)] := by
  have hsettle : Command.settle.turns first = first.turns := Command.turns_of_ok rfl rfl
  have hcall : (Command.callMethod name []).turns (left (Command.settle.obey first)) =
      second.turns := Command.turns_of_ok hwork rfl
  unfold history history history
  rw [hsettle, hcall, turns_of_one hfirst, turns_of_one hsecond]
  rfl

theorem history_listing : listingFirst.history [.settle, .callMethod "swap" []] =
    [(0, listingFirst), (0, listingSwapped)] := by
  have hok : succeeds ((Command.callMethod "swap" []).work (left (settle listingFirst))) = true := by
    decide +kernel
  exact history_callMethod (by decide +kernel) (by decide +kernel) (exists_eq_ok hok).choose_spec

/-- The turn after the list has been reversed compares with what was so in the turn before. -/
theorem watchers_report_changes_listing :
    create listing (listing.birth listingHeap) = .ok listingState.1 listingState.2 ∧
    prepare (born listing listingState.2 listingState.1 .empty) =
      .ok listingPrepared.1 listingPrepared.2 ∧
    launchOn machine listingPrepared.1.watch listingPrepared.2 = .ok () listingFirst ∧
    ∃ registered, listingFirst.hooks.watchers[0]? = some registered ∧
      TakesTurn registered [(0, listingFirst)] 0 listingSwapped := by
  obtain ⟨-, -, -, hturn, -⟩ :=
    watchers_report_changes create_listing prepare_listing launch_listing
  exact ⟨create_listing, prepare_listing, launch_listing,
    hturn [.callMethod "swap" []] [(0, listingFirst)] 0 listingSwapped [] history_listing⟩

/-- Whether a watcher that runs watches the list. -/
def watchesList (i : Instance) (w : Watcher) : Bool :=
  i.world.heap.switch w.switch &&
    match w.source with
    | .value (.array a) => a == ⟨0⟩
    | _ => false

/-- Whether the list begins with a value. -/
def listBegins (i : Instance) (v : Value) : Bool :=
  (i.world.heap.array ⟨0⟩)[0]?.any (·.strictEquals v)

def Turn.isRest : Turn → Bool
  | .rests _ => true
  | _ => false

/-- The list has another content when it has been reversed, as undefined values are not null. But as
documents they are, so the watcher does not call back. -/
theorem listing_rests :
    mount listing listingHeap = mountResult (settle listingFirst) ∧
    succeeds (settle listingFirst) = true ∧
    listingFirst.history [.settle, .callMethod "swap" []] =
      [(0, listingFirst), (0, listingSwapped)] ∧
    listingSwapped.hooks.watchers[0]?.any listingSwapped.watchesList = true ∧
    listingFirst.listBegins .undefined = true ∧ listingSwapped.listBegins .null = true ∧
    (listingSwapped.turn 0).isRest = true := by
  refine ⟨?_, ?_, history_listing, ?_, ?_, ?_, ?_⟩
  · rw [mount_of_prepared create_listing prepare_listing, bind_of_ok launch_listing]
  · decide +kernel
  · decide +kernel
  · decide +kernel
  · decide +kernel
  · decide +kernel

end Instance

end Nodecraft
