import Nodecraft.Component.Evaluation
import Nodecraft.Proofs.Pairing.Diagonal
import Nodecraft.Proofs.Pairing.Run

/-!
# Evaluating logic in worlds that are alike

Options of components are alike when the values in them are. A program gives options that are
alike in worlds that are alike (`optionsOf_alike`), whichever machines that are alike it runs on.
The root scope it runs in is a new cell of a heap that does not depend on the whitelist
(`rootScope_apply`).
-/

set_option autoImplicit false

namespace Nodecraft.Sandbox

/-- How an action ended. -/
def ending {σ α : Type} : EStateM.Result Failure σ α → Except Failure α
  | .ok a _ => .ok a
  | .error e _ => .error e

/-- The heap an evaluation leaves. -/
def heapOf {α : Type} : EStateM.Result Failure Heap α → Heap
  | .ok _ h => h
  | .error _ h => h

/-- What is left of an outcome when its run is over. -/
def onHeap {α : Type} : Outcome α → EStateM.Result Failure Heap α
  | .ok a w => .ok a w.heap
  | .error e w => .error e w.heap

@[simp] theorem ending_onHeap {α : Type} (r : Outcome α) : ending (onHeap r) = ending r := by
  cases r <;> rfl

@[simp] theorem heapOf_onHeap {α : Type} (r : Outcome α) :
    heapOf (onHeap r) = (finalWorld r).heap := by
  cases r <;> rfl

/-- Ends of evaluations that are alike along a pairing, and so are the heaps they leave. -/
inductive EndsAlike {α β : Type} (p : Pairing) (Q : Pairing → α → β → Prop) :
    EStateM.Result Failure Heap α → EStateM.Result Failure Heap β → Prop
  | ok {a : α} {b : β} {h h' : Heap} : Q p a b → Heap.Alike p h h' →
    EndsAlike p Q (.ok a h) (.ok b h')
  | error {e e' : Failure} {h h' : Heap} : Failure.Alike p e e' → Heap.Alike p h h' →
    EndsAlike p Q (.error e h) (.error e' h')

/-- Outcomes that are alike are so on their heaps. -/
theorem Outcome.Alike.onHeap {α β : Type} {p : Pairing} {Q : Pairing → α → β → Prop}
    {r : Outcome α} {r' : Outcome β} (h : Outcome.Alike p Q r r') :
    EndsAlike p Q (onHeap r) (onHeap r') := by
  cases h with
  | ok ha hw => exact .ok ha hw.heap
  | error he hw => exact .error he hw.heap

/-- The values of a whitelist are cells of the heap. -/
def Whitelist.Within (whitelist : Whitelist) (h : Heap) : Prop :=
  FieldsAlike Value.Alike (Pairing.own h) whitelist.bindings whitelist.bindings

end Nodecraft.Sandbox

namespace Nodecraft.Component

open Script Sandbox Pairing

/-! ### Options -/

structure Options.Alike (p : Pairing) (o o' : Options) : Prop where
  name : o.name = o'.name
  data : OptionAlike Value.Alike p o.data o'.data
  setup : OptionAlike Value.Alike p o.setup o'.setup
  methods : FieldsAlike Value.Alike p o.methods o'.methods
  computed : FieldsAlike Value.Alike p o.computed o'.computed
  watch : FieldsAlike Value.Alike p o.watch o'.watch
  hooks : ListAlike (PairAlike (Same (α := LifecycleHook)) Value.Alike) p o.hooks o'.hooks
  extra : FieldsAlike Value.Alike p o.extra o'.extra

instance : Stable Options.Alike where
  mono hle _ _ h := ⟨h.name, Stable.mono hle h.data, Stable.mono hle h.setup,
    Stable.mono hle h.methods, Stable.mono hle h.computed, Stable.mono hle h.watch,
    Stable.mono hle h.hooks, Stable.mono hle h.extra⟩

theorem Options.alike_empty (p : Pairing) : Options.Alike p .empty .empty :=
  ⟨rfl, .none, .none, .nil, .nil, .nil, .nil, .nil⟩

/-- Options alike in a heap with itself are the same. -/
theorem Options.Alike.eq {p : Pairing} (hp : p.Diagonal) {o o' : Options}
    (h : Options.Alike p o o') : o = o' := by
  rw [Options.mk.injEq]
  exact ⟨h.name, OptionAlike.eq h.data (Value.Alike.eq hp),
    OptionAlike.eq h.setup (Value.Alike.eq hp), FieldsAlike.eq h.methods (Value.Alike.eq hp),
    FieldsAlike.eq h.computed (Value.Alike.eq hp), FieldsAlike.eq h.watch (Value.Alike.eq hp),
    ListAlike.eq h.hooks fun hf ↦ hf.eq (fun hk ↦ hk) (Value.Alike.eq hp),
    FieldsAlike.eq h.extra (Value.Alike.eq hp)⟩

section

variable {p : Pairing} {h h' : Heap} (hh : Heap.Alike p h h') {v v' : Value}
  (hv : Value.Alike p v v')

include hv

theorem isFactory_eq : Options.isFactory v = Options.isFactory v' := by
  cases hv <;> rfl

include hh

/-- What is a function on one side is one on the other. -/
theorem hasFunction_eq (key : String) :
    Options.hasFunction h key v = Options.hasFunction h' key v' := by
  cases hv with
  | object ho => exact OptionAlike.any_eq (hh.own? ho key) fun _ _ hf ↦ hf.isFunction_eq
  | _ => rfl

theorem isComputed_eq : Options.isComputed h v = Options.isComputed h' v' := by
  unfold Options.isComputed
  rw [hv.isFunction_eq, hasFunction_eq hh hv]

theorem isWatch_eq : Options.isWatch h v = Options.isWatch h' v' := by
  have hfunction := hv.isFunction_eq
  have hhandler := hasFunction_eq hh hv "handler"
  cases hv with
  | string s => rfl
  | _ =>
    simp only [Options.isWatch]
    rw [hfunction, hhandler]

/-- The entries of an option. -/
theorem entries_alike {accept accept' : Value → Bool}
    (ha : ∀ {u u'}, Value.Alike p u u' → accept u = accept' u') :
    FieldsAlike Value.Alike p (Options.entries h accept v) (Options.entries h' accept' v') := by
  cases hv with
  | object ho => exact ListAlike.filter (hh.object ho).fields fun _ _ hf ↦ ha hf.2
  | _ => exact .nil

/-- One entry of the exported object. -/
theorem addEntry_alike {o o' : Options} (ho : Options.Alike p o o') (key : String) :
    Options.Alike p (Options.addEntry h o key v) (Options.addEntry h' o' key v') := by
  have hfunction := hv.isFunction_eq
  have hfactory := isFactory_eq hv
  unfold Options.addEntry
  rw [hfunction, hfactory]
  split
  · split
    · exact { ho with hooks := List.rel_append ho.hooks (.cons ⟨rfl, hv⟩ .nil) }
    · exact ho
  · split_ifs
    · cases hv with
      | string s => exact { ho with name := rfl }
      | _ => exact ho
    · exact { ho with data := .some hv }
    · exact ho
    · exact { ho with setup := .some hv }
    · exact ho
    · exact { ho with methods := entries_alike hh hv fun hu ↦ hu.isFunction_eq }
    · exact { ho with computed := entries_alike hh hv fun hu ↦ isComputed_eq hh hu }
    · exact { ho with watch := entries_alike hh hv fun hu ↦ isWatch_eq hh hu }
    · exact { ho with extra := List.rel_append ho.extra (.cons ⟨rfl, hv⟩ .nil) }

end

theorem foldEntries_alike {p : Pairing} {h h' : Heap} (hh : Heap.Alike p h h')
    {fields fields' : Fields Value} (hf : FieldsAlike Value.Alike p fields fields') :
    ∀ {o o' : Options}, Options.Alike p o o' →
      Options.Alike p (fields.foldl (fun options f ↦ Options.addEntry h options f.1 f.2) o)
        (fields'.foldl (fun options f ↦ Options.addEntry h' options f.1 f.2) o') := by
  induction hf with
  | nil => exact id
  | @cons f f' _ _ hf _ ih =>
    intro o o' ho
    obtain ⟨k, v⟩ := f
    obtain ⟨k', v'⟩ := f'
    obtain ⟨rfl, hv⟩ : k = k' ∧ Value.Alike p v v' := hf
    exact ih (addEntry_alike hh hv ho k)

/-- Options are read alike from exported objects that are alike. -/
theorem ofValue_alike {p : Pairing} {h h' : Heap} (hh : Heap.Alike p h h') {v v' : Value}
    (hv : Value.Alike p v v') :
    Options.Alike p (Options.ofValue h v) (Options.ofValue h' v') := by
  cases hv with
  | object ho =>
    have hobject := hh.object ho
    simp only [Options.ofValue]
    rw [hobject.kind.isPlain_eq]
    split
    · exact foldEntries_alike hh hobject.fields (Options.alike_empty p)
    · exact Options.alike_empty p
  | _ => exact Options.alike_empty p

/-! ### Evaluation on a machine -/

/-- The options that a program gives, after the callbacks it has deferred. -/
def optionsOf (m : Machine) (s : ScopeId) (body : Block) : Action Options := do
  let returned ← Evaluation.program m s body
  Action.flushTicks m.call
  return Options.ofValue (← Action.heap) returned

/-- `evaluate` on any machine. -/
def evaluateOn (m : Machine) (whitelist : Whitelist) (limits : Limits) (body : Logic.Body)
    (data : NodeData) (store : NodeStore) : EStateM Failure Heap Options :=
  if body.program.isEmpty then return .empty
  else freshRun limits data
    (rootScope whitelist data store >>= fun s ↦ optionsOf m s body.program)

theorem evaluateOn_machine : evaluateOn machine = evaluate := rfl

/-- Bodies that mention the same names give options that are alike. -/
theorem optionsOf_alike {p : Pairing} {m m' : Machine} (hm : Machine.Alike p m m')
    {s s' : ScopeId} {body : Block} (hs : p.Runs s s' (blockMentions body)) :
    Action.Alike p Options.Alike (optionsOf m s body) (optionsOf m' s' body) := by
  refine (hm.program body hs).bind fun q hq v v' hv ↦ ?_
  exact (hm.mono hq).flushTicks.bindSame fun r hr _ ↦ .read fun t ht h h' hh ↦
    .pure (ofValue_alike hh (Stable.mono ht (Stable.mono hr hv)))

/-! ### The root scope -/

/-- The heap with what only the root scope of some logic holds: the data and the look-up. -/
def nodeCells (data : NodeData) (store : NodeStore) (h : Heap) : (Value × Value) × Heap :=
  let (own, h) := h.ofData data
  let (lookup, h) := h.newFunction (.native (.nodeData store))
  ((own, .function lookup), h)

/-- The scope whose names are those of the whitelist and the node's. -/
def rootCell (whitelist : Whitelist) (node : Value × Value) : Scope where
  bindings := ((whitelist.bindings.insert dataKey node.1).insert lookupKey node.2).map
    fun b ↦ (b.1, ⟨b.2, false⟩)
  parent := none
  fallback := none
  self := none
  isFunction := true

/-- The root scope is made behind the cells of the instance data. -/
theorem rootScope_apply (whitelist : Whitelist) (data : NodeData) (store : NodeStore)
    (w : World) :
    rootScope whitelist data store w =
      .ok ((nodeCells data store w.heap).2.newScope
          (rootCell whitelist (nodeCells data store w.heap).1)).1
        { w with heap := ((nodeCells data store w.heap).2.newScope
            (rootCell whitelist (nodeCells data store w.heap).1)).2 } :=
  rfl

theorem get?_map {α β : Type} (f : α → β) (fields : Fields α) (key : String) :
    Fields.get? (fields.map fun b ↦ (b.1, f b.2)) key = (fields.get? key).map f := by
  induction fields with
  | nil => rfl
  | cons b rest ih =>
    obtain ⟨k, a⟩ := b
    simp only [Fields.get?, List.map_cons, List.lookup_cons] at ih ⊢
    split
    · rfl
    · exact ih

/-- What a name means in the root scope: the instance data first, then the whitelist. -/
theorem get?_rootCell (whitelist : Whitelist) (node : Value × Value) (name : String) :
    (rootCell whitelist node).bindings.get? name =
      (if name = lookupKey then some node.2 else if name = dataKey then some node.1
        else whitelist.get? name).map (⟨·, false⟩) := by
  refine (get?_map (fun v ↦ (⟨v, false⟩ : Binding)) _ name).trans (congrArg _ ?_)
  split_ifs with hlookup hdata
  · rw [hlookup, Fields.get?_insert_self]
  · rw [Fields.get?_insert_of_ne _ _ hlookup, hdata, Fields.get?_insert_self]
  · rw [Fields.get?_insert_of_ne _ _ hlookup, Fields.get?_insert_of_ne _ _ hdata]
    rfl

mutual

/-- Copying a document makes no scopes. -/
theorem scopes_ofDocument (h : Heap) (j : Json) : (h.ofDocument j).2.scopes = h.scopes := by
  cases j with
  | array items =>
    simp only [Heap.ofDocument]
    exact scopes_ofItems h items
  | object fields =>
    simp only [Heap.ofDocument]
    exact scopes_ofFields h fields
  | _ => simp only [Heap.ofDocument]

theorem scopes_ofItems (h : Heap) (items : List Json) :
    (h.ofItems items).2.scopes = h.scopes := by
  cases items with
  | nil => simp only [Heap.ofItems]
  | cons j rest =>
    simp only [Heap.ofItems]
    rw [scopes_ofItems, scopes_ofDocument]

theorem scopes_ofFields (h : Heap) (fields : List (String × Json)) :
    (h.ofFields fields).2.scopes = h.scopes := by
  match fields with
  | [] => simp only [Heap.ofFields]
  | (k, j) :: rest =>
    simp only [Heap.ofFields]
    rw [scopes_ofFields, scopes_ofDocument]

end

/-- Neither does the instance data. -/
theorem scopes_nodeCells (data : NodeData) (store : NodeStore) (h : Heap) :
    (nodeCells data store h).2.scopes = h.scopes :=
  scopes_ofDocument h (.object data)

/-- The world that some logic starts in, with its root scope as the newest. -/
def rootWorld (whitelist : Whitelist) (limits : Limits) (data : NodeData) (store : NodeStore)
    (h : Heap) : World :=
  let cells := nodeCells data store (h.ofData data).2
  ⟨(cells.2.newScope (rootCell whitelist cells.1)).2, Run.start limits (h.ofData data).1⟩

/-- A fresh run begins with a copy of the data. -/
theorem freshRun_apply {α : Type} (limits : Limits) (data : NodeData) (x : Action α) (h : Heap) :
    freshRun limits data x h =
      onHeap (x ⟨(h.ofData data).2, Run.start limits (h.ofData data).1⟩) := by
  simp only [freshRun]
  generalize x ⟨(h.ofData data).2, Run.start limits (h.ofData data).1⟩ = r
  cases r <;> rfl

/-- The root scope is the next one behind those of the heap. -/
theorem size_rootCells (data : NodeData) (store : NodeStore) (h : Heap) :
    (nodeCells data store (h.ofData data).2).2.scopes.size = h.scopes.size := by
  rw [scopes_nodeCells]
  exact congrArg Array.size (scopes_ofDocument h (.object data))

/-- An empty body has no options. -/
theorem evaluateOn_of_nil (m : Machine) (whitelist : Whitelist) (limits : Limits)
    {body : Logic.Body} (hbody : body.program = []) (data : NodeData) (store : NodeStore)
    (h : Heap) : evaluateOn m whitelist limits body data store h = .ok .empty h := by
  unfold evaluateOn
  rw [hbody]
  rfl

/-- Any other body is run in its root world. -/
theorem evaluateOn_of_ne_nil (m : Machine) (whitelist : Whitelist) (limits : Limits)
    {body : Logic.Body} (hbody : body.program ≠ []) (data : NodeData) (store : NodeStore)
    (h : Heap) :
    evaluateOn m whitelist limits body data store h =
      onHeap (optionsOf m ⟨h.scopes.size⟩ body.program
        (rootWorld whitelist limits data store h)) := by
  have hroot : (rootScope whitelist data store >>= fun s ↦ optionsOf m s body.program)
      ⟨(h.ofData data).2, Run.start limits (h.ofData data).1⟩ =
      optionsOf m ⟨h.scopes.size⟩ body.program (rootWorld whitelist limits data store h) := by
    rw [Action.bind_apply, rootScope_apply, ← size_rootCells data store h]
    rfl
  unfold evaluateOn
  rw [if_neg fun he ↦ hbody (List.isEmpty_iff.1 he), ← hroot]
  exact freshRun_apply limits data _ h

/-! ### Evaluations that are alike -/

section

variable {p : Pairing} {h h' : Heap} {whitelist whitelist' : Whitelist} {node node' : Value × Value}

/-- In the root scope everything may be mentioned whose values are alike. -/
theorem rootCell_alike (hw : FieldsAlike Value.Alike p whitelist.bindings whitelist'.bindings)
    (hown : Value.Alike p node.1 node'.1) (hlookup : Value.Alike p node.2 node'.2) :
    Scope.Alike p (fun _ ↦ True) (rootCell whitelist node) (rootCell whitelist' node') where
  binding {name} _ := by
    have hbindings : FieldsAlike Binding.Alike p (rootCell whitelist node).bindings
        (rootCell whitelist' node').bindings :=
      List.rel_map (fun _ _ hb ↦ ⟨hb.1, hb.2, rfl⟩)
        (FieldsAlike.insert (FieldsAlike.insert hw dataKey hown) lookupKey hlookup)
    exact hbindings.get? name
  parent := .none
  fallback := .none
  self := .none
  isFunction := rfl
  unbound hname := absurd trivial hname

/-- The instance data is laid out alike. -/
theorem nodeCells_alike (hh : Heap.Alike p h h') (data : NodeData) (store : NodeStore) :
    ∃ q, Heap.Moves p h q (nodeCells data store h).2 (nodeCells data store h').2 ∧
      Value.Alike q (nodeCells data store h).1.1 (nodeCells data store h').1.1 ∧
      Value.Alike q (nodeCells data store h).1.2 (nodeCells data store h').1.2 := by
  obtain ⟨q, hm, hown⟩ := hh.ofDocument (.object data)
  have hnative : Function.Alike q (.native (.nodeData store)) (.native (.nodeData store)) :=
    .native (.plain trivial)
  obtain ⟨r, hm', hlookup⟩ := hm.alike.newFunction hnative
  exact ⟨r, hm.trans hm', Stable.mono hm'.grows.le hown, .function hlookup⟩

theorem start_alike (limits : Limits) {props props' : Value} (hprops : Value.Alike p props props') :
    Run.Alike p (Run.start limits props) (Run.start limits props') :=
  ⟨rfl, rfl, rfl, rfl, .nil, .none, hprops⟩

/-- The root scope is made after the cells of the node, and is open to every program. -/
theorem rootWorld_alike (hh : Heap.Alike p h h')
    (hw : FieldsAlike Value.Alike p whitelist.bindings whitelist'.bindings) (limits : Limits)
    (data : NodeData) (store : NodeStore) (body : Block) :
    ∃ q, Heap.Moves p h q (nodeCells data store (h.ofData data).2).2
        (nodeCells data store (h'.ofData data).2).2 ∧
      let r := q.withScope (nodeCells data store (h.ofData data).2).2.scopes.size
        (nodeCells data store (h'.ofData data).2).2.scopes.size fun _ ↦ True
      World.Alike r (rootWorld whitelist limits data store h)
        (rootWorld whitelist' limits data store h') ∧
      r.Runs ⟨h.scopes.size⟩ ⟨h'.scopes.size⟩ (blockMentions body) := by
  obtain ⟨q, hm, hprops⟩ := hh.ofDocument (.object data)
  obtain ⟨r, hm', hown, hlookup⟩ := nodeCells_alike hm.alike data store
  have hle := Pairing.le_trans hm.grows.le hm'.grows.le
  have hcell := rootCell_alike (Stable.mono (Q := FieldsAlike Value.Alike) hle hw) hown hlookup
  have hroot := hm'.alike.le_withScope (fun _ ↦ True) fun _ _ ↦ trivial
  refine ⟨r, hm.trans hm', ⟨hm'.alike.newScope (fun _ _ ↦ trivial) hcell,
    start_alike limits (Stable.mono (Pairing.le_trans hm'.grows.le hroot) hprops)⟩, ?_⟩
  rw [← size_rootCells data store h, ← size_rootCells data store h']
  exact ⟨.inr ⟨rfl, rfl⟩, fun _ ↦ (Pairing.withScope_allows_self _).2 trivial⟩

/-- Logic gives options that are alike on heaps that are alike, with whitelists whose values are. -/
theorem evaluate_alike (hh : Heap.Alike p h h')
    (hw : FieldsAlike Value.Alike p whitelist.bindings whitelist'.bindings) (limits : Limits)
    (body : Logic.Body) (data : NodeData) (store : NodeStore) :
    ∃ q, p ≤ q ∧ EndsAlike q Options.Alike (evaluate whitelist limits body data store h)
      (evaluate whitelist' limits body data store h') := by
  rw [← evaluateOn_machine]
  by_cases hbody : body.program = []
  · rw [evaluateOn_of_nil _ _ _ hbody, evaluateOn_of_nil _ _ _ hbody]
    exact ⟨p, Pairing.le_refl p, .ok (Options.alike_empty p) hh⟩
  · obtain ⟨q, hm, hworld, hruns⟩ := rootWorld_alike hh hw limits data store body.program
    have hroot := hm.alike.le_withScope (fun _ ↦ True) fun _ _ ↦ trivial
    obtain ⟨r, hg, hr⟩ := optionsOf_alike (machine_alike _ patience) hruns _ (Pairing.le_refl _)
      _ _ hworld
    rw [evaluateOn_of_ne_nil _ _ _ hbody, evaluateOn_of_ne_nil _ _ _ hbody]
    exact ⟨r, Pairing.le_trans (Pairing.le_trans hm.grows.le hroot) hg.le, hr.onHeap⟩

end

/-! ### Closed heaps -/

section

variable {h : Heap} (hh : h.Closed)

include hh

/-- A copy of the data leaves the heap closed. -/
theorem closed_ofData (data : NodeData) : (h.ofData data).2.Closed := by
  obtain ⟨q, hm, -⟩ := hh.ofDocument (.object data)
  exact hm.closed

theorem closed_nodeCells (data : NodeData) (store : NodeStore) :
    (nodeCells data store h).2.Closed := by
  obtain ⟨q, hm, -⟩ := nodeCells_alike hh data store
  exact hm.closed

variable {whitelist : Whitelist} (hw : whitelist.Within h)

include hw

/-- The root world is closed if the whitelist is within its heap. -/
theorem closed_rootWorld (limits : Limits) (data : NodeData) (store : NodeStore) :
    (rootWorld whitelist limits data store h).Closed ∧
      own h ≤ own (rootWorld whitelist limits data store h).heap := by
  obtain ⟨q, hm, hprops⟩ := hh.ofDocument (.object data)
  obtain ⟨r, hm', hown, hlookup⟩ := nodeCells_alike hm.closed data store
  have hle := Pairing.le_trans hm.own_le_own hm'.own_le_own
  obtain ⟨hclosed, hroot⟩ := hm'.closed.newScope (rootCell_alike
    (Stable.mono (Q := FieldsAlike Value.Alike) hle hw) (Stable.mono hm'.le_own hown)
    (Stable.mono hm'.le_own hlookup))
  exact ⟨⟨hclosed, start_alike limits (Stable.mono (Pairing.le_trans hm.le_own
    (Pairing.le_trans hm'.own_le_own hroot)) hprops)⟩, Pairing.le_trans hle hroot⟩

/-- Logic leaves a closed heap closed, and gives options whose values are cells of it. -/
theorem evaluate_closed (limits : Limits) (body : Logic.Body) (data : NodeData)
    (store : NodeStore) :
    (heapOf (evaluate whitelist limits body data store h)).Closed ∧
      own h ≤ own (heapOf (evaluate whitelist limits body data store h)) ∧
      ∀ options h₁, evaluate whitelist limits body data store h = .ok options h₁ →
        Options.Alike (own h₁) options options := by
  rw [← evaluateOn_machine]
  by_cases hbody : body.program = []
  · rw [evaluateOn_of_nil _ _ _ hbody]
    refine ⟨hh, Pairing.le_refl _, fun options h₁ hok ↦ ?_⟩
    obtain ⟨rfl, rfl⟩ := EStateM.Result.ok.inj hok
    exact Options.alike_empty _
  · obtain ⟨hworld, hle⟩ := closed_rootWorld hh hw limits data store
    have hroot : h.scopes.size < (rootWorld whitelist limits data store h).heap.scopes.size := by
      rw [← size_rootCells data store h]
      exact Nat.lt_of_lt_of_eq (Nat.lt_succ_self _) (Array.size_push _).symm
    have hruns : (own (rootWorld whitelist limits data store h).heap).Runs ⟨h.scopes.size⟩
      ⟨h.scopes.size⟩ (blockMentions body.program) := ⟨⟨rfl, hroot⟩, fun _ ↦ hroot⟩
    obtain ⟨hafter, hle', hoptions⟩ :=
      hworld.after (optionsOf_alike (machine_alike _ patience) hruns)
    rw [evaluateOn_of_ne_nil _ _ _ hbody, heapOf_onHeap]
    refine ⟨hafter.heap, Pairing.le_trans hle hle', fun options h₁ hok ↦ ?_⟩
    unfold machine at hok
    generalize optionsOf (machineWithin patience) ⟨h.scopes.size⟩ body.program _ = r at hok hoptions
    cases r with
    | ok o w₁ =>
      obtain ⟨rfl, rfl⟩ := EStateM.Result.ok.inj hok
      exact hoptions _ _ rfl
    | error e w₁ => exact nomatch hok

end

end Nodecraft.Component
