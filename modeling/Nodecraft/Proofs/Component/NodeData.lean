import Nodecraft.Proofs.Component.State
import Nodecraft.Proofs.Sandbox.Copies
import Nodecraft.Proofs.Sandbox.Leads

/-!
# Copies of a node's data

A node's data are handed to scripts in three ways: looked up by the node's id, under the name of the
node's own data, and as the properties of an instance. Each time a copy is made of them
(`Component.Hands`), so what `Heap.isPrivate_ofDocument` says of copies holds of every value that a
script is handed: it has the content of the data, no cell of it occurs anywhere else, and what is
written through other values does not show in it (`Component.copies_are_private`).
-/

set_option autoImplicit false

namespace Nodecraft

open Sandbox

/-! ### Properties -/

/-- Scripts do not change what the properties are. -/
theorem Sandbox.World.Leads.props {stop : Stop} {w w₁ : World} (hw : w.Leads stop w₁) :
    w₁.run.props = w.run.props := by
  induction hw with
  | trans _ _ ih ih' => exact ih'.trans ih
  | observe callback _ _ ih => exact ih
  | _ => rfl

namespace Component

/-! ### What is handed to scripts -/

/-- The value is a copy of the data that is made on a heap, and then left as it was made. -/
structure Hands (data : NodeData) (h : Heap) (v : Value) (h₁ : Heap) : Prop where
  eq : v = (h.ofDocument (.object data)).1
  leaves (cells : OpenCell → Prop) : (h.ofDocument (.object data)).2.Leaves cells h₁

/-- Looking up a node hands out a copy of what is stored, whenever it is done. -/
theorem hands_nodeData {data : NodeData} {store : NodeStore} {id : Value} {w : World}
    (hid : id.isNullish = false) (hdata : store.lookup (w.heap.text id) = some data) :
    ∃ v h₁, Action.nodeData store id w = .ok v { w with heap := h₁ } ∧
      Hands data w.heap v h₁ := by
  refine ⟨_, (w.heap.ofDocument (.object data)).2, ?_, rfl, fun _ ↦ .refl _⟩
  have htext : Action.text id w = .ok (w.heap.text id) w := rfl
  unfold Action.nodeData
  rw [hid]
  simp only [Bool.false_eq_true, if_false, Action.bind_apply, htext, hdata]
  rfl

/-- The name of the node's own data stands for a copy in the root scope of its logic, -/
theorem hands_rootScope (whitelist : Whitelist) (data : NodeData) (store : NodeStore) (w : World) :
    ∃ v s h₁, rootScope whitelist data store w = .ok s { w with heap := h₁ } ∧
      (h₁.scope s).bindings.get? dataKey = some ⟨v, false⟩ ∧ Hands data w.heap v h₁ := by
  let cells := nodeCells data store w.heap
  have hscope : (cells.2.newScope (rootCell whitelist cells.1)).2.scope
      (cells.2.newScope (rootCell whitelist cells.1)).1 = rootCell whitelist cells.1 :=
    (Cells.getD_push _ _ _ _).trans (if_pos rfl)
  refine ⟨_, _, _, rootScope_apply whitelist data store w, ?_, rfl, fun _ ↦ ?_⟩
  · rw [hscope, get?_rootCell, if_neg (by decide), if_pos rfl]
    rfl
  · exact ⟨fun _ hsize ↦ ⟨hsize, rfl⟩, fun _ hsize ↦ ⟨hsize, rfl⟩⟩

/-- and in the state of an instance. -/
theorem hands_reservedEntries (c : Component) (w : World) :
    ∃ v fields h₁, c.reservedEntries w = .ok fields { w with heap := h₁ } ∧
      Fields.get? fields dataKey = some v ∧ Hands c.data w.heap v h₁ := by
  refine ⟨_, _, _, rfl, rfl, rfl, fun _ ↦ ?_⟩
  have hcells : (w.heap.ofDocument (.object c.data)).2.Adds
      ((w.heap.ofDocument (.object c.data)).2.newObject sides).2 := .newObject _ _
  exact ⟨(hcells.leaves _).array, (hcells.leaves _).object⟩

/-- The properties of logic are a copy, -/
theorem hands_defineProps (limits : Limits) (data : NodeData) (call : Caller) (args : List Value)
    (h : Heap) :
    ∃ v h₁, freshRun limits data (Action.capability call .defineProps args) h = .ok v h₁ ∧
      Hands data h v h₁ :=
  ⟨_, _, rfl, rfl, fun _ ↦ .refl _⟩

/-- and so are those of an instance, from its birth. -/
theorem hands_birth (c : Component) (h : Heap) :
    Instance.mount c h = Instance.continued c (Instance.create c (c.birth h)) ∧
      Hands c.data h (c.birth h).run.props (c.birth h).heap :=
  ⟨Instance.mount_eq c h, rfl, fun _ ↦ .refl _⟩

/-- A document whose numbers are whole and below `2 ^ 53`, and that is nested no deeper than values
are written out, is copied: in new cells, each of which occurs once in the copy, with nothing else
changed, and with the content of the document, its keys in order (`Heap.IsPrivate`). What is written
through other containers, of later copies for instance, and what scripts do that do not come by the
copy, leaves it as it is. Every value by which a script gets at a node's data is such a copy, and no
script changes which one the properties are. -/
theorem copies_are_private (h : Heap) {j : Json} (hwhole : j.IsWhole)
    (hnesting : j.nesting ≤ maxValueDepth) :
    h.IsPrivate (h.ofDocument j).2 j (h.ofDocument j).1 ∧
      (∀ (data : NodeData) (store : NodeStore) (id : Value) (w : World), id.isNullish = false →
        store.lookup (w.heap.text id) = some data →
        ∃ v h₁, Action.nodeData store id w = .ok v { w with heap := h₁ } ∧
          Hands data w.heap v h₁) ∧
      (∀ (whitelist : Whitelist) (data : NodeData) (store : NodeStore) (w : World),
        ∃ v s h₁, rootScope whitelist data store w = .ok s { w with heap := h₁ } ∧
          (h₁.scope s).bindings.get? dataKey = some ⟨v, false⟩ ∧ Hands data w.heap v h₁) ∧
      (∀ (c : Component) (w : World),
        ∃ v fields h₁, c.reservedEntries w = .ok fields { w with heap := h₁ } ∧
          Fields.get? fields dataKey = some v ∧ Hands c.data w.heap v h₁) ∧
      (∀ (limits : Limits) (data : NodeData) (call : Caller) (args : List Value) (h : Heap),
        ∃ v h₁, freshRun limits data (Action.capability call .defineProps args) h = .ok v h₁ ∧
          Hands data h v h₁) ∧
      (∀ (c : Component) (h : Heap),
        Instance.mount c h = Instance.continued c (Instance.create c (c.birth h)) ∧
          Hands c.data h (c.birth h).run.props (c.birth h).heap) ∧
      ∀ (entry : Entry) (w : World),
        (finalWorld (entry.run machine w)).run.props = w.run.props :=
  ⟨h.isPrivate_ofDocument hwhole hnesting, fun _ _ _ _ ↦ hands_nodeData, hands_rootScope,
    hands_reservedEntries, hands_defineProps, hands_birth,
    fun entry w ↦ (Action.Leads.run_machine entry w).props⟩

/-- The tags of a node. -/
def tags : Json := .array [.number (.whole (-7)), .array []]

/-- A heap with two copies of the tags and a function that appends to arrays. -/
def twoCopies : Heap :=
  (((Heap.empty.ofDocument tags).2.ofDocument tags).2.newFunction (.native (.array .push))).2

/-- The cells of the second copy, and the function. -/
def secondCopy : Holding where
  array a := a = 2 ∨ a = 3
  object _ := False
  function f := f = 0
  scope _ := False
  switch _ := False

/-- Calls the function on the second copy. -/
def appending : Task := .enter (.call (.function ⟨0⟩) (.array ⟨3⟩) [.null])

theorem confines_secondCopy :
    secondCopy.Confines appending ⟨twoCopies, Run.start .standard .undefined⟩ where
  world := {
    heap := {
      arrays := .diagonal And.left fun a ha ↦ by
        rcases ha.2 with rfl | rfl
        · exact .nil
        · exact .cons (.number _) (.cons (.array ⟨rfl, .inl rfl⟩) .nil)
      objects := .diagonal And.left fun _ ho ↦ ho.2.elim
      functions := .diagonal And.left fun f hf ↦ by
        obtain rfl : f = 0 := hf.2
        exact .native (.plain trivial)
      scopes := .diagonal And.left fun _ hs ↦ hs.2.elim
      switches := .diagonal And.left fun _ hs ↦ hs.2.elim
      total := fun hs _ ↦ hs.2.elim
      measured := ⟨⟨rfl, fun _ _ ↦ And.left⟩, ⟨rfl, fun _ _ ↦ And.left⟩,
        ⟨rfl, fun _ _ ↦ And.left⟩, ⟨rfl, fun _ _ ↦ And.left⟩, ⟨rfl, fun _ _ ↦ And.left⟩⟩ }
    run := ⟨rfl, rfl, rfl, rfl, .nil, .none, .undefined⟩ }
  task := .enter (.call (.function ⟨rfl, rfl⟩) (.array ⟨rfl, .inr rfl⟩) (.cons .null .nil))

/-- Appending to the second copy does not show in the first. -/
theorem copies_are_private_tags :
    tags.IsWhole ∧ tags.nesting ≤ maxValueDepth ∧
      secondCopy.Confines appending ⟨twoCopies, Run.start .standard .undefined⟩ ∧
      ∀ n, (finalWorld (appending.run (machineWithin n)
        ⟨twoCopies, Run.start .standard .undefined⟩)).heap.document (Heap.empty.ofDocument tags).1 =
          tags.canonical := by
  have hwhole : tags.IsWhole := by simp [tags, Json.IsWhole, Json.ItemsAreWhole]
  have hnesting : tags.nesting ≤ maxValueDepth := by decide
  have hfirst := (copies_are_private Heap.empty hwhole hnesting).1
  have hsecond := (copies_are_private (Heap.empty.ofDocument tags).2 hwhole hnesting).1
  refine ⟨hwhole, hnesting, confines_secondCopy, fun n ↦ hfirst.document ?_⟩
  have hstart : (Heap.empty.ofDocument tags).2.Leaves
      (· ∈ (Heap.empty.ofDocument tags).2.cells (Heap.empty.ofDocument tags).1) twoCopies :=
    (hsecond.adds.leaves _).trans ⟨fun _ hsize ↦ ⟨hsize, rfl⟩, fun _ hsize ↦ ⟨hsize, rfl⟩⟩
  refine hstart.trans (hfirst.scripted confines_secondCopy (fun c hc hheld ↦ ?_) n)
  have hmade := hfirst.mem_cells.1 hc
  cases c with
  | array a =>
    have hlt : a.index < 2 := hmade.2
    rcases hheld with ha | ha
    · omega
    · omega
  | object o => exact hheld

end Component

end Nodecraft
