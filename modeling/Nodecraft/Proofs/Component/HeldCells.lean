import Nodecraft.Proofs.Component.Commands
import Nodecraft.Proofs.Component.State
import Nodecraft.Proofs.Sandbox.HeldCells

/-!
# State keys that hold cells

From the moment at which the created hook is called, a key of the state that holds a ref or a computed
cell keeps holding it: through the hooks and watchers of mounting, and through every sequence of commands
(`Instance.state_keeps_cells`). Only a script that removes the key ends that. So assigning to such a key
is assigning through its cell, whenever it is done.

The state is written over while an instance is prepared, so the kinds of objects are followed from its
creation (`Heap.KeepsObjects`), and its cells from then on (`Heap.HoldsCell`).
-/

set_option autoImplicit false

namespace Nodecraft

open Sandbox

/-- No cell of the heap is frozen. -/
def Sandbox.Heap.Open (h : Heap) : Prop :=
  ∀ c, (h.object c).kind.isCell = true → (h.object c).frozen = false

/-- Where objects stay what they are, nothing becomes frozen. -/
theorem Sandbox.Heap.KeepsObjects.isOpen {h h₁ : Heap} (hk : h.KeepsObjects h₁) (hh : h.Open) :
    h₁.Open := by
  intro c hcell
  rcases Nat.lt_or_ge c.index h.objects.size with hlt | hge
  · rw [hk.kind hlt] at hcell
    rw [hk.frozen hlt]
    exact hh c hcell
  · exact hk.opened hge hcell

/-- What objects are, whatever their fields. -/
def Sandbox.World.KeepsObjects (w w₁ : World) : Prop := w.heap.KeepsObjects w₁.heap

/-! ### Creation -/

namespace Component

variable (c : Component)

theorem leads_reservedEntries : c.reservedEntries.Leads Stop.never :=
  .bind (.allocate fun h ↦ .ofDocument h _) fun _ ↦ .bind (.newFunction _) fun _ ↦
    .bind (.allocate fun h ↦ .newObject h fun hcell ↦ nomatch hcell) fun _ ↦ .pure _

theorem leads_reservedObject : c.reservedObject.Leads Stop.never :=
  c.leads_reservedEntries.bind fun _ ↦ (Action.Leads.newObject .plain _).bind fun _ ↦ .pure _

/-- The data factory does what scripts do. -/
theorem leads_userData : c.userData.Leads Stop.never := by
  unfold userData
  cases c.options.data with
  | none => exact .pure _
  | some v =>
    cases v with
    | function f =>
      exact c.leads_reservedObject.bind fun self ↦
        (Action.Leads.call_machine (.function f) self [self]).bind fun _ ↦ .read fun _ ↦ .pure _
    | _ => exact .pure _

/-- So does the factory of the whole state. -/
theorem leads_factory : c.factory.Leads Stop.never := by
  unfold factory
  cases c.hook .beforeCreate with
  | none => exact c.leads_userData
  | some f =>
    exact c.leads_reservedObject.bind fun self ↦
      ((Action.Leads.call_machine f self []).bind fun _ ↦ .pure _).bind fun _ ↦ c.leads_userData

/-- So does the evaluation of a body. -/
theorem leads_optionsOf (s : ScopeId) (body : Script.Block) :
    (optionsOf machine s body).Leads Stop.never :=
  (Action.Leads.run_machine (.program s body)).bind fun _ ↦
    Action.Leads.flushTicks_machine.bind fun _ ↦ .read fun _ ↦ .pure _

/-- Logic leaves a heap on which no cell is frozen, if there has been none. -/
theorem isOpen_evaluate {h : Heap} (hh : h.Open) (whitelist : Whitelist) (limits : Limits)
    (body : Logic.Body) (data : NodeData) (store : NodeStore) :
    (heapOf (evaluate whitelist limits body data store h)).Open := by
  rw [← evaluateOn_machine]
  by_cases hbody : body.program = []
  · rw [evaluateOn_of_nil _ _ _ hbody]
    exact hh
  · rw [evaluateOn_of_ne_nil _ _ _ hbody, heapOf_onHeap]
    have hroot : h.KeepsObjects (rootWorld whitelist limits data store h).heap :=
      (Heap.KeepsObjects.of_extends (.ofDocument h (.object data))).trans
        ((Heap.KeepsObjects.of_extends (.ofDocument _ (.object data))).trans (.of_objects rfl))
    exact (leads_optionsOf _ _ _).keepsObjects.isOpen (hroot.isOpen hh)

end Component

namespace Instance

/-- The state can be written, and so can every cell. -/
structure Writable (i : Instance) : Prop where
  exists_state : i.state.index < i.world.heap.objects.size
  kind : (i.world.heap.object i.state).kind = .state
  state_open : (i.world.heap.object i.state).frozen = false
  isOpen : i.world.heap.Open

/-- Objects stay what they are under every command. -/
theorem outlasts_keepsObjects (stop : Stop) : Outlasts stop World.KeepsObjects where
  leads := World.Leads.keepsObjects
  trans := Heap.KeepsObjects.trans
  strip w o := .modifyFields w.heap o fun fields ↦ fields.filter fun f ↦ !f.2.isFunction

/-- The state of an instance stays writable. -/
theorem Writable.goes {i j : Instance} (hi : i.Writable) (hij : i.Goes World.KeepsObjects j) :
    j.Writable := by
  obtain ⟨hstate, hk⟩ := hij
  refine ⟨?_, ?_, ?_, hk.isOpen hi.isOpen⟩ <;> rw [hstate]
  · exact Nat.lt_of_lt_of_le hi.exists_state hk.size_le
  · exact (hk.kind hi.exists_state).trans hi.kind
  · exact (hk.frozen hi.exists_state).trans hi.state_open

/-- Objects stay what they are while an instance is mounted. -/
theorem mounts_keepsObjects :
    Mounts (fun _ i x _ ↦ i.Goes World.KeepsObjects (left (x i)))
      (fun _ x _ ↦ ∀ w : World, w.KeepsObjects (finalWorld (x w))) machine machine where
  toRespects := (outlasts_keepsObjects Stop.never).works_machine.toRespects
  define i key v := ⟨rfl, .modifyFields i.world.heap i.state fun fields ↦ fields.insert key v⟩
  setup setup w := by
    have hkeeps := (leads_callSetup setup
      { w with run := { w.run with hooks := some .empty } }).keepsObjects
    unfold World.KeepsObjects
    rwa [heap_registering]
  hooks _ := ⟨rfl, .refl _⟩
  watch _ _ := ⟨rfl, .refl _⟩

/-- An instance begins with a state that can be written. -/
theorem writable_born {c : Component} {h : Heap} (hh : h.Open) {state : ObjectId} {w : World}
    (hcreate : create c (c.birth h) = .ok state w) : (born c w state .empty).Writable := by
  rw [c.create_eq] at hcreate
  obtain ⟨user, w₁, hfactory, hstate⟩ := bind_eq_ok hcreate
  rw [c.stateOf_apply] at hstate
  obtain ⟨rfl, rfl⟩ := EStateM.Result.ok.inj hstate
  have hbirth : (c.birth h).heap.Open :=
    (Heap.KeepsObjects.of_extends (.ofDocument h (.object c.data))).isOpen hh
  have hw₁ : w₁.heap.Open := by
    have hkeeps := (c.leads_factory (c.birth h)).keepsObjects
    rw [hfactory] at hkeeps
    exact hkeeps.isOpen hbirth
  have hreserved : (c.reservedCells w₁.heap).2.Open :=
    (c.leads_reservedEntries w₁).keepsObjects.isOpen hw₁
  let o := (c.stateCells user w₁.heap).1
  have hobject : (c.stateCells user w₁.heap).2.object o =
      ⟨.state, Component.stateFields user (c.reservedCells w₁.heap).1, false⟩ :=
    (Cells.getD_push _ _ _ _).trans (if_pos rfl)
  exact {
    exists_state := Nat.lt_of_lt_of_eq (Nat.lt_succ_self _) (Array.size_push _).symm
    kind := congrArg Object.kind hobject
    state_open := congrArg Object.frozen hobject
    isOpen := (Heap.KeepsObjects.of_extends (.newObject _ fun _ ↦ rfl)).isOpen hreserved }

/-- When an instance is prepared, its state can be written. -/
theorem writable_prepared {c : Component} {h : Heap} (hh : h.Open) {state : ObjectId} {w : World}
    (hcreate : create c (c.birth h) = .ok state w) {options : Component.Options} {i : Instance}
    (hprepare : prepare (born c w state .empty) = .ok options i) : i.Writable := by
  have hgoes := mounts_keepsObjects.prepare (born c w state .empty)
  rw [hprepare] at hgoes
  exact (writable_born hh hcreate).goes hgoes

/-! ### Commands -/

/-- A key of the state holds a ref or a computed cell. -/
structure HasCell (i : Instance) (key : String) (cell : ObjectId) : Prop where
  own : i.world.heap.own? i.state key = some (.object cell)
  isCell : (i.world.heap.object cell).kind.isCell = true

/-- Whether a value is an object of the given name. -/
def isObject (o : ObjectId) : Value → Bool
  | .object o₁ => o₁ == o
  | _ => false

theorem eq_of_isObject {o : ObjectId} {v : Value} (h : isObject o v = true) : v = .object o := by
  cases v with
  | object o₁ => rw [eq_of_beq h]
  | _ => cases h

instance (i : Instance) (key : String) (cell : ObjectId) : Decidable (i.HasCell key cell) :=
  decidable_of_iff ((i.world.heap.own? i.state key).any (isObject cell) = true ∧
      (i.world.heap.object cell).kind.isCell = true) <| by
    constructor
    · rintro ⟨hown, hcell⟩
      obtain ⟨v, hv, hobject⟩ := (Option.any_eq_true _ _).1 hown
      exact ⟨hv.trans (congrArg some (eq_of_isObject hobject)), hcell⟩
    · rintro ⟨hown, hcell⟩
      rw [hown]
      exact ⟨beq_self_eq_true cell, hcell⟩

/-- No command removes the key from the state: each of them comes to an end on a machine that stops
before that. -/
def Spares (key : String) : Instance → List Command → Prop
  | _, [] => True
  | i, c :: rest => Ended (c.obeyOn (probe (Stop.deleting i.state key) patience) i) ∧
      Spares key (left (c.obey i)) rest

/-- That a command does not remove the key shows where evaluations nest less deep. -/
theorem Spares.cons {key : String} {i : Instance} {c : Command} {rest : List Command} {n : Nat}
    (hn : n ≤ patience) (h : Ended (c.obeyOn (probe (Stop.deleting i.state key) n) i))
    (hrest : Spares key (left (c.obey i)) rest) : Spares key i (c :: rest) :=
  ⟨Command.ended_of_le hn h, hrest⟩

/-- The state holds a cell, and both can be written. -/
def HoldsCell (i : Instance) (key : String) (cell : ObjectId) : Prop :=
  i.world.heap.HoldsCell i.state key cell

/-- What is seen as a cell of the state is held by it. -/
theorem HasCell.holdsCell {i : Instance} {key : String} {cell : ObjectId} (h : i.HasCell key cell)
    (hi : i.Writable) : i.HoldsCell key cell :=
  ⟨hi.kind, h.own, h.isCell, hi.state_open, hi.isOpen _ h.isCell⟩

/-- On a machine that does not delete the key, it goes on holding its cell. -/
theorem outlasts_holdsCell (o : ObjectId) (key : String) (cell : ObjectId) :
    Outlasts (Stop.deleting o key)
      fun w w₁ ↦ w.heap.HoldsCell o key cell → w₁.heap.HoldsCell o key cell where
  leads := World.Leads.holdsCell
  trans h h' hc := h' (h hc)
  strip _ o₁ hc := hc.strip o₁

/-- A command that does not remove the key leaves the cell under it. -/
theorem HoldsCell.obey {i : Instance} {key : String} {cell : ObjectId} (h : i.HoldsCell key cell)
    {c : Command} (hended : Ended (c.obeyOn (probe (Stop.deleting i.state key) patience) i)) :
    (left (c.obey i)).HoldsCell key cell := by
  rw [Command.obey_of_ended hended]
  obtain ⟨hstate, hholds⟩ := (outlasts_holdsCell i.state key cell).obeyOn (n := patience) c i
  unfold HoldsCell
  rw [hstate]
  exact hholds h

/-- Commands that spare the key leave the cell in its place. -/
theorem HoldsCell.after {key : String} {cell : ObjectId} (commands : List Command) :
    ∀ {i : Instance}, i.HoldsCell key cell → i.Spares key commands →
      (i.after commands).HoldsCell key cell := by
  induction commands with
  | nil => exact fun h _ ↦ h
  | cons c rest ih => exact fun h hspares ↦ ih (h.obey hspares.1) hspares.2

/-- Commands leave the state writable. -/
theorem Writable.after (commands : List Command) :
    ∀ {i : Instance}, i.Writable → (i.after commands).Writable := by
  induction commands with
  | nil => exact fun hi ↦ hi
  | cons c rest ih => exact fun {i} hi ↦ ih (hi.goes ((outlasts_keepsObjects Stop.never).obey c i))

/-! ### The life of an instance -/

/-- From the created hook on, a key of the state that holds a ref or a computed cell goes on to hold it,
unless a script removes the key: while the hooks of mounting run, and whatever the mounted instance is
asked to do. Assigning to the key, at whatever moment, is assigning through the cell. -/
theorem state_keeps_cells {c : Component} {h : Heap} (hh : h.Open) {state : ObjectId} {w : World}
    (hcreate : create c (c.birth h) = .ok state w) {options : Component.Options} {i : Instance}
    (hprepare : prepare (born c w state .empty) = .ok options i) :
    mount c h = mountResult ((do launchOn machine options.watch; settle : Op Unit) i) ∧
      ∀ (key : String) (cell : ObjectId),
        (i.HasCell key cell →
          Ended (launchOn (probe (Stop.deleting i.state key) patience) options.watch i) →
          (left (launchOn machine options.watch i)).HoldsCell key cell) ∧
        (∀ earlier later : List Command,
          let j := (left (launchOn machine options.watch i)).after earlier
          j.HasCell key cell → j.Spares key later → (j.after later).HoldsCell key cell) ∧
        ∀ (w : World) (state : ObjectId), w.heap.HoldsCell state key cell →
          (∀ (n : Nat) (entry : Entry),
            (finalWorld (entry.run (probe (Stop.deleting state key) n) w)).heap.HoldsCell
              state key cell) ∧
          ∀ m : Machine, m.AssignsThrough w state key cell := by
  have hi := writable_prepared hh hcreate hprepare
  refine ⟨mount_of_prepared hcreate hprepare, fun key cell ↦ ⟨fun hcell hended ↦ ?_,
    fun earlier later ↦ ?_, fun w state hholds ↦ ⟨fun n entry ↦ ?_, hholds.assignsThrough⟩⟩⟩
  · rw [launch_of_ended hended]
    obtain ⟨hstate, hkeeps⟩ :=
      (outlasts_holdsCell i.state key cell).launchOn (n := patience) options.watch i
    unfold HoldsCell
    rw [hstate]
    exact hkeeps (hcell.holdsCell hi)
  · intro j hcell hspares
    have hlaunch := (outlasts_keepsObjects Stop.never).launch options.watch i
    exact HoldsCell.after later (hcell.holdsCell ((hi.goes hlaunch).after earlier)) hspares
  · exact (Action.Leads.run n entry w).holdsCell hholds

open Script in
/-- A component with a ref in its state, and a method that assigns to it. -/
def labelled : Component where
  template := ⟨[], #[]⟩
  options := { Component.Options.empty with
    setup := some (.function ⟨1⟩)
    methods := [("rename", .function ⟨2⟩)] }
  data := []
  store := []
  limits := .standard

open Script in
/-- A heap with the functions that its options name. -/
def labelledHeap : Heap where
  arrays := #[]
  objects := #[]
  functions := #[.native (.capability .ref),
    .closure (.make none [] none [.return (some (.object [.entry (.fixed "label")
      (.call (.name "ref") [.value (.literal (.string "a"))] false)]))] false) ⟨0⟩,
    .closure (.make none [] none [.expr (.assign .plain (.member .this (.fixed "label"))
      (.literal (.string "b")))] false) ⟨0⟩]
  scopes := #[⟨[("ref", ⟨.function ⟨0⟩, false⟩)], none, none, none, true⟩]
  switches := #[]

/-- The new state of the component, and the world that it is in. -/
def labelledState : ObjectId × World :=
  match create labelled (labelled.birth labelledHeap) with
  | .ok state w => (state, w)
  | .error _ w => (⟨0⟩, w)

/-- The options of the component, and its instance when the created hook is called. -/
def labelledInstance : Component.Options × Instance :=
  match prepare (born labelled labelledState.2 labelledState.1 .empty) with
  | .ok options i => (options, i)
  | .error _ i => (.empty, i)

/-- The ref is still in its place when the method has assigned to its key. -/
theorem state_keeps_cells_labelled : labelledHeap.Open ∧
    create labelled (labelled.birth labelledHeap) = .ok labelledState.1 labelledState.2 ∧
    prepare (born labelled labelledState.2 labelledState.1 .empty) =
      .ok labelledInstance.1 labelledInstance.2 ∧
    labelledInstance.2.HasCell "label" ⟨5⟩ ∧
    ((left (launchOn machine labelledInstance.1.watch labelledInstance.2)).after
      [.settle, .callMethod "rename" [], .unmount]).HoldsCell "label" ⟨5⟩ := by
  have hopen : labelledHeap.Open := fun c hcell ↦
    absurd (Heap.lt_of_isCell hcell) (Nat.not_lt_zero _)
  have hcreate : create labelled (labelled.birth labelledHeap) =
      .ok labelledState.1 labelledState.2 := by
    have hok : succeeds (create labelled (labelled.birth labelledHeap)) = true := by decide +kernel
    obtain ⟨state, hstate⟩ := exists_eq_ok hok
    unfold labelledState
    rw [hstate]
  have hprepare : prepare (born labelled labelledState.2 labelledState.1 .empty) =
      .ok labelledInstance.1 labelledInstance.2 := by
    have hok : succeeds (prepare (born labelled labelledState.2 labelledState.1 .empty)) = true := by
      decide +kernel
    obtain ⟨options, hoptions⟩ := exists_eq_ok hok
    unfold labelledInstance
    rw [hoptions]
  have hcell : labelledInstance.2.HasCell "label" ⟨5⟩ := by decide +kernel
  obtain ⟨-, hkeeps⟩ := state_keeps_cells hopen hcreate hprepare
  obtain ⟨-, hafter, -⟩ := hkeeps "label" ⟨5⟩
  have hpatience : 8 ≤ patience := by decide +kernel
  have hlaunched : (left (launchOn machine labelledInstance.1.watch labelledInstance.2)).HasCell
      "label" ⟨5⟩ := by decide +kernel
  refine ⟨hopen, hcreate, hprepare, hcell, hafter [] _ hlaunched ?_⟩
  refine .cons hpatience ?_ (.cons hpatience ?_ (.cons hpatience ?_ trivial))
  · decide +kernel
  · decide +kernel
  · decide +kernel

end Instance

end Nodecraft
