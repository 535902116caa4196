import Nodecraft.Proofs.Component.Setup
import Nodecraft.Proofs.Component.Operations
import Nodecraft.Proofs.Pairing.Frame

/-!
# The state of an instance before it is handed to a script

Four routines write to a state before the created hook is called with it, and scripts run in between:
the hook before creation, the factory of the user's data, and setup. `Instance.mount_state` says what
the state is at that moment, key by key, for every instance that gets past setup.

Scripts cannot touch the state or the reserved values, because no value that they could come by names
them: `setup_keeps_state` takes this from a run of setup along the pairing of the cells that were
there before the state was made, in which the cells of the state are not paired. What is written
afterwards is counted by `defineEach_apply` and `insertFields_spec`.
-/

set_option autoImplicit false

/-! ### Entries of fields -/

namespace Nodecraft.Sandbox.Fields

variable {α β : Type}

/-- The value of the last entry under a key. -/
def last? (fields : Fields α) (key : String) : Option α := fields.reverse.lookup key

/-- What the first usable entry under a key is used as. -/
def pick? (fields : Fields α) (key : String) (use : α → Option β) : Option β :=
  fields.findSome? fun f ↦ if f.1 = key then use f.2 else none

/-- The last entry of a key, from the front. -/
theorem last?_cons (k : String) (v : α) (rest : Fields α) (key : String) :
    last? ((k, v) :: rest) key = (last? rest key).or (if k = key then some v else none) := by
  unfold last?
  rw [List.reverse_cons, List.lookup_append, List.lookup_cons, List.lookup_nil]
  by_cases hk : k = key
  · rw [if_pos hk, hk, beq_self_eq_true]
  · rw [if_neg hk, beq_false_of_ne (Ne.symm hk)]

/-- The last entry of a key that is of use, from the front. -/
theorem pick?_cons (k : String) (v : α) (rest : Fields α) (key : String) (use : α → Option β) :
    pick? ((k, v) :: rest) key use =
      (if k = key then use v else none).or (pick? rest key use) := by
  unfold pick?
  rw [List.findSome?_cons]
  cases (if k = key then use v else none) <;> rfl

end Nodecraft.Sandbox.Fields

namespace Nodecraft

open Sandbox Pairing

/-! ### A new state -/

namespace Component

/-- The world in which an instance begins. -/
def birth (c : Component) (h : Heap) : World :=
  ⟨(h.ofData c.data).2, Run.start c.limits (h.ofData c.data).1⟩

/-- The heap with the reserved values. -/
def reservedCells (c : Component) (h : Heap) : (Value × Value × Value) × Heap :=
  let cells := nodeCells c.data c.store h
  let sides := cells.2.newSides
  ((cells.1.1, cells.1.2, sides.1), sides.2)

/-- The fields of a new state. -/
def stateFields (user : Fields Value) (reserved : Value × Value × Value) : Fields Value :=
  ((user.insert dataKey reserved.1).insert lookupKey reserved.2.1).insert sidesKey reserved.2.2

/-- The heap with a new state. -/
def stateCells (c : Component) (user : Fields Value) (h : Heap) : ObjectId × Heap :=
  let reserved := c.reservedCells h
  reserved.2.newObject ⟨.state, stateFields user reserved.1, false⟩

/-- Making the state cannot fail. -/
theorem stateOf_apply (c : Component) (user : Fields Value) (w : World) :
    c.stateOf user w = .ok (c.stateCells user w.heap).1
      { w with heap := (c.stateCells user w.heap).2 } :=
  rfl

/-- The reserved keys have values in cells that an older heap did not have. -/
structure Reserves (c : Component) (base h : Heap) (fields : Fields Value) : Prop where
  data : ∃ v, fields.get? dataKey = some v ∧ Heap.Holds base h (.object c.data) v
  lookup : ∃ f, fields.get? lookupKey = some (.function f) ∧ base.functions.size ≤ f.index ∧
    f.index < h.functions.size ∧ h.function f = .native (.nodeData c.store)
  sides : ∃ o, fields.get? sidesKey = some (.object o) ∧ base.objects.size ≤ o.index ∧
    o.index < h.objects.size ∧ h.object o = sides

/-- What is reserved stays so while other objects change. -/
theorem Reserves.keep {c : Component} {base h h₁ : Heap} {s : ObjectId} {fields : Fields Value}
    (hr : c.Reserves base h fields) (hk : Heap.Keeps base s h h₁) (hs : h.objects.size ≤ s.index) :
    c.Reserves base h₁ fields where
  data := by
    obtain ⟨v, hv, hholds⟩ := hr.data
    exact ⟨v, hv, hholds.keep hk hs _⟩
  lookup := by
    obtain ⟨f, hf, hbase, hsize, hfunction⟩ := hr.lookup
    exact ⟨f, hf, hbase, Nat.lt_of_lt_of_le hsize hk.functions.size_le,
      (hk.function hbase hsize).trans hfunction⟩
  sides := by
    obtain ⟨o, ho, hbase, hsize, hobject⟩ := hr.sides
    have hne : o ≠ s := by
      rintro rfl
      exact Nat.not_lt_of_le hs hsize
    exact ⟨o, ho, hbase, Nat.lt_of_lt_of_le hsize hk.objects_le,
      (hk.object hbase hsize hne).trans hobject⟩

/-- Only the reserved keys matter. -/
theorem Reserves.congr {c : Component} {base h : Heap} {fields fields' : Fields Value}
    (hr : c.Reserves base h fields)
    (hfields : ∀ key, isReserved key = true → fields'.get? key = fields.get? key) :
    c.Reserves base h fields' where
  data := by rw [hfields _ rfl]; exact hr.data
  lookup := by rw [hfields _ rfl]; exact hr.lookup
  sides := by rw [hfields _ rfl]; exact hr.sides

/-- The cells of the instance data are new. -/
theorem keeps_nodeCells (data : NodeData) (store : NodeStore) (h : Heap) (o : ObjectId) :
    Heap.Keeps .empty o h (nodeCells data store h).2 :=
  (h.keeps_ofDocument (.object data) o).trans (.newFunction _)

/-- So are all that is reserved for. -/
theorem keeps_reservedCells (c : Component) (h : Heap) (o : ObjectId) :
    Heap.Keeps .empty o h (c.reservedCells h).2 :=
  (keeps_nodeCells c.data c.store h o).trans (.newObject sides)

/-- Any other key has what the data gave it. -/
theorem get?_stateFields_of_not_reserved {user : Fields Value} {reserved : Value × Value × Value}
    {key : String} (hkey : isReserved key = false) :
    (stateFields user reserved).get? key = user.get? key := by
  have hne (k : String) (hk : isReserved k = true) : key ≠ k := by
    rintro rfl
    exact Bool.false_ne_true (hkey.symm.trans hk)
  unfold stateFields
  rw [Fields.get?_insert_of_ne _ _ (hne sidesKey rfl),
    Fields.get?_insert_of_ne _ _ (hne lookupKey rfl),
    Fields.get?_insert_of_ne _ _ (hne dataKey rfl)]

/-- Reserved keys are always there. -/
theorem exists_get?_stateFields (user : Fields Value) (reserved : Value × Value × Value)
    {key : String} (hkey : isReserved key = true) :
    ∃ v, (stateFields user reserved).get? key = some v := by
  unfold stateFields
  by_cases hsides : key = sidesKey
  · subst hsides
    exact ⟨_, Fields.get?_insert_self _ _ _⟩
  · rw [Fields.get?_insert_of_ne _ _ hsides]
    by_cases hlookup : key = lookupKey
    · subst hlookup
      exact ⟨_, Fields.get?_insert_self _ _ _⟩
    · rw [Fields.get?_insert_of_ne _ _ hlookup]
      obtain rfl : key = dataKey := by
        simpa [isReserved, reservedKeys, hlookup, hsides] using hkey
      exact ⟨_, Fields.get?_insert_self _ _ _⟩

/-- A new state has fresh reserved values, whatever the user's fields are. -/
theorem reserves_reservedCells (c : Component) (user : Fields Value) (h : Heap) :
    c.Reserves h (c.reservedCells h).2 (stateFields user (c.reservedCells h).1) where
  data := by
    have hholds := Heap.holds_ofDocument (Nat.le_refl h.arrays.size) (Nat.le_refl h.objects.size)
      (.object c.data)
    let o : ObjectId := ⟨(h.ofDocument (.object c.data)).2.objects.size⟩
    have hkeeps : Heap.Keeps .empty o (h.ofDocument (.object c.data)).2 (c.reservedCells h).2 :=
      Heap.Keeps.trans (.newFunction _) (.newObject sides)
    refine ⟨(c.reservedCells h).1.1, ?_, hholds.keep hkeeps.later (Nat.le_refl _) _⟩
    unfold stateFields
    rw [Fields.get?_insert_of_ne _ _ (by decide), Fields.get?_insert_of_ne _ _ (by decide),
      Fields.get?_insert_self]
  lookup := by
    have hkeeps := h.keeps_ofDocument (.object c.data) ⟨0⟩
    refine ⟨⟨(h.ofDocument (.object c.data)).2.functions.size⟩, ?_, hkeeps.functions.size_le,
      Nat.lt_of_lt_of_eq (Nat.lt_succ_self _) (Array.size_push _).symm, ?_⟩
    · unfold stateFields
      rw [Fields.get?_insert_of_ne _ _ (by decide), Fields.get?_insert_self]
      rfl
    · exact (Cells.getD_push _ _ _ _).trans (if_pos rfl)
  sides := by
    have hkeeps := keeps_nodeCells c.data c.store h ⟨0⟩
    refine ⟨⟨(nodeCells c.data c.store h).2.objects.size⟩, ?_, hkeeps.objects_le,
      Nat.lt_of_lt_of_eq (Nat.lt_succ_self _) (Array.size_push _).symm, ?_⟩
    · unfold stateFields
      rw [Fields.get?_insert_self]
      rfl
    · exact (Cells.getD_push _ _ _ _).trans (if_pos rfl)

end Component

namespace Instance

/-! ### What is bound to a state -/

/-- The value is a function that calls another one on the state. -/
def Binds (h : Heap) (state : ObjectId) (f : FunctionId) (v : Value) : Prop :=
  ∃ b : FunctionId, v = .function b ∧ b.index < h.functions.size ∧
    h.function b = .bound f (.object state)

/-- The value is a computed cell whose getter and setter are called on the state. -/
def Computes (h : Heap) (state : ObjectId) (accessors : FunctionId × Option FunctionId)
    (v : Value) : Prop :=
  ∃ (o : ObjectId) (getter : Value) (setter : Option Value), v = .object o ∧ o ≠ state ∧
    o.index < h.objects.size ∧ h.object o = ⟨.computed getter setter, [], false⟩ ∧
    Binds h state accessors.1 getter ∧ Option.Rel (Binds h state) accessors.2 setter

def function? : Value → Option FunctionId
  | .function f => some f
  | _ => none

/-- The getter and the setter of a computed value's definition, if there is a getter. -/
def accessors? (h : Heap) : Value → Option (FunctionId × Option FunctionId)
  | .function f => some (f, none)
  | .object o => ((h.own? o "get").bind function?).map fun getter ↦
      (getter, (h.own? o "set").bind function?)
  | _ => none

section

variable {state : ObjectId} {h h₁ : Heap}

/-- A method stays bound while other objects change. -/
theorem Binds.keep {f : FunctionId} {v : Value} (hb : Binds h state f v)
    (hk : Heap.Keeps .empty state h h₁) : Binds h₁ state f v := by
  obtain ⟨b, rfl, hsize, hfunction⟩ := hb
  exact ⟨b, rfl, Nat.lt_of_lt_of_le hsize hk.functions.size_le,
    (hk.function (Nat.zero_le _) hsize).trans hfunction⟩

/-- A computed cell stays one while other objects change. -/
theorem Computes.keep {accessors : FunctionId × Option FunctionId} {v : Value}
    (hc : Computes h state accessors v) (hk : Heap.Keeps .empty state h h₁) :
    Computes h₁ state accessors v := by
  obtain ⟨o, getter, setter, rfl, hne, hsize, hobject, hgetter, hsetter⟩ := hc
  exact ⟨o, getter, setter, rfl, hne, Nat.lt_of_lt_of_le hsize hk.objects_le,
    (hk.object (Nat.zero_le _) hsize hne).trans hobject, hgetter.keep hk,
    hsetter.imp fun hb ↦ hb.keep hk⟩

end

/-- What becomes of a key that is only given a value if it has none. -/
inductive Fills {α : Type} (P : α → Value → Prop) : Option Value → Option α → Option Value → Prop
  | kept (v : Value) (a : Option α) : Fills P (some v) a (some v)
  | filled {a : α} {v : Value} : P a v → Fills P none (some a) (some v)
  | absent : Fills P none none none

/-- What is there is not filled. -/
theorem Fills.eq_of_some {α : Type} {P : α → Value → Prop} {v : Value} {a : Option α}
    {new : Option Value} (h : Fills P (some v) a new) : new = some v := by
  cases h with
  | kept _ _ => rfl

/-- Cells may be new, and nothing else has changed but fields of one object. -/
structure OnlyFields (o : ObjectId) (h h₁ : Heap) : Prop where
  keeps : Heap.Keeps .empty o h h₁
  kind : (h₁.object o).kind = (h.object o).kind
  frozen : (h₁.object o).frozen = (h.object o).frozen

/-- Cells may be new, and nothing else has changed. -/
structure OnlyAdded (o : ObjectId) (h h₁ : Heap) : Prop where
  keeps : Heap.Keeps .empty o h h₁
  same : h₁.object o = h.object o

section

variable {o : ObjectId} {h h₁ h₂ : Heap}

theorem OnlyFields.refl : OnlyFields o h h := ⟨.refl, rfl, rfl⟩

theorem OnlyFields.trans (hf : OnlyFields o h h₁) (hf' : OnlyFields o h₁ h₂) :
    OnlyFields o h h₂ :=
  ⟨hf.keeps.trans hf'.keeps, hf'.kind.trans hf.kind, hf'.frozen.trans hf.frozen⟩

theorem OnlyAdded.refl : OnlyAdded o h h := ⟨.refl, rfl⟩

theorem OnlyAdded.trans (ha : OnlyAdded o h h₁) (ha' : OnlyAdded o h₁ h₂) : OnlyAdded o h h₂ :=
  ⟨ha.keeps.trans ha'.keeps, ha'.same.trans ha.same⟩

/-- Adding is changing fields of no object. -/
theorem OnlyAdded.onlyFields (ha : OnlyAdded o h h₁) : OnlyFields o h h₁ :=
  ⟨ha.keeps, congrArg Object.kind ha.same, congrArg Object.frozen ha.same⟩

/-- Adding leaves the state's own fields as they are. -/
theorem OnlyAdded.own?_eq (ha : OnlyAdded o h h₁) (key : String) : h₁.own? o key = h.own? o key := by
  unfold Heap.own?
  rw [ha.same]

theorem OnlyAdded.newFunction (f : Function) : OnlyAdded o h (h.newFunction f).2 :=
  ⟨.newFunction f, rfl⟩

theorem OnlyAdded.newObject (ho : o.index < h.objects.size) (object : Object) :
    OnlyAdded o h (h.newObject object).2 where
  keeps := .newObject object
  same := (Cells.getD_push _ _ _ _).trans (if_neg (Nat.ne_of_lt ho))

/-- A field of the state is written. -/
theorem object_insertField (ho : o.index < h.objects.size) (key : String) (v : Value) :
    (h.insertField o key v).object o =
      { h.object o with fields := (h.object o).fields.insert key v } := by
  refine (Cells.getD_modify _ _ _ _ _).trans (if_pos ⟨rfl, ho⟩)

theorem OnlyFields.insertField (ho : o.index < h.objects.size) (key : String) (v : Value) :
    OnlyFields o h (h.insertField o key v) where
  keeps := .insertField key v
  kind := by rw [object_insertField ho]
  frozen := by rw [object_insertField ho]

/-- A field that is written reads as written, and the others as before. -/
theorem own?_insertField (ho : o.index < h.objects.size) (key : String) (v : Value) (k : String) :
    (h.insertField o key v).own? o k = if k = key then some v else h.own? o k := by
  unfold Heap.own?
  rw [object_insertField ho]
  split_ifs with hk
  · rw [hk, Fields.get?_insert_self]
  · rw [Fields.get?_insert_of_ne _ _ hk]

end

/-- Gives values to the keys that have none. -/
def defineEach (value? : Value → Op (Option Value)) : Fields Value → Op Unit
  | [] => return
  | (key, v) :: rest => do
    defineNew key (value? v)
    defineEach value? rest

/-- Methods are defined one by one, each where its key is still free. -/
theorem bindMethods_eq (methods : Fields Value) : bindMethods methods = defineEach bind? methods := by
  induction methods with
  | nil => rfl
  | cons f rest ih =>
    obtain ⟨key, v⟩ := f
    simp only [bindMethods, defineEach, ih]

/-- So are computed cells. -/
theorem bindComputed_eq (computed : Fields Value) :
    bindComputed computed = defineEach computedCell? computed := by
  induction computed with
  | nil => rfl
  | cons f rest ih =>
    obtain ⟨key, v⟩ := f
    simp only [bindComputed, defineEach, ih]

theorem define_apply (key : String) (v : Value) (i : Instance) :
    define key v i = .ok () (i.withHeap (i.world.heap.insertField i.state key v)) :=
  rfl

theorem hasOwn_apply (key : String) (i : Instance) :
    hasOwn key i = .ok (i.world.heap.own? i.state key).isSome i :=
  rfl

/-- A key that has a value keeps it. -/
theorem defineNew_of_some {key : String} {i : Instance} {v : Value}
    (hv : i.world.heap.own? i.state key = some v) (value? : Op (Option Value)) :
    defineNew key value? i = .ok () i := by
  unfold defineNew
  rw [bind_of_ok (hasOwn_apply key i), hv]
  rfl

/-- What makes no value defines nothing. -/
theorem defineNew_of_none {key : String} {i j : Instance}
    (hkey : i.world.heap.own? i.state key = none) {value? : Op (Option Value)}
    (hj : value? i = .ok none j) : defineNew key value? i = .ok () j := by
  unfold defineNew
  rw [bind_of_ok (hasOwn_apply key i), hkey]
  exact bind_of_ok hj

/-- What makes a value defines it where the key is free. -/
theorem defineNew_of_value {key : String} {i j : Instance}
    (hkey : i.world.heap.own? i.state key = none) {value? : Op (Option Value)} {v : Value}
    (hj : value? i = .ok (some v) j) :
    defineNew key value? i = .ok () (j.withHeap (j.world.heap.insertField j.state key v)) := by
  unfold defineNew
  rw [bind_of_ok (hasOwn_apply key i), hkey]
  exact (bind_of_ok hj).trans (define_apply key v j)

/-- Keys of the state without a value are given one, the first that there is. -/
theorem defineEach_apply {α : Type} {P : Heap → α → Value → Prop} (use : Value → Option α)
    {value? : Value → Op (Option Value)} {s : ObjectId} (base : Heap)
    (hP : ∀ {h h₁ : Heap} {a v}, Heap.Keeps .empty s h h₁ → P h a v → P h₁ a v)
    (fields : Fields Value)
    (hvalue : ∀ f ∈ fields, ∀ i : Instance, i.state = s → s.index < i.world.heap.objects.size →
      Heap.Keeps .empty s base i.world.heap → ∃ h r, value? f.2 i = .ok r (i.withHeap h) ∧
        OnlyAdded s i.world.heap h ∧ Option.Rel (P h) (use f.2) r) :
    ∀ i : Instance, i.state = s → s.index < i.world.heap.objects.size →
      Heap.Keeps .empty s base i.world.heap →
      ∃ h, defineEach value? fields i = .ok () (i.withHeap h) ∧ OnlyFields s i.world.heap h ∧
        ∀ key, Fills (P h) (i.world.heap.own? s key) (fields.pick? key use) (h.own? s key) := by
  induction fields with
  | nil =>
    intro i _ _ _
    refine ⟨i.world.heap, rfl, .refl, fun key ↦ ?_⟩
    cases i.world.heap.own? s key with
    | none => exact .absent
    | some v => exact .kept v _
  | cons f rest ih =>
    intro i hi hs hbase
    obtain ⟨k, d⟩ := f
    have hrest := ih fun f hf ↦ hvalue f (List.mem_cons_of_mem _ hf)
    cases hk : i.world.heap.own? s k with
    | some v =>
      obtain ⟨h, hrun, honly, hfills⟩ := hrest i hi hs hbase
      refine ⟨h, (bind_of_ok (defineNew_of_some (hi ▸ hk) _)).trans hrun, honly, fun key ↦ ?_⟩
      have hkey := hfills key
      rw [Fields.pick?_cons]
      by_cases heq : k = key
      · subst heq
        rw [hk] at hkey ⊢
        generalize h.own? s k = new at hkey ⊢
        cases hkey with
        | kept _ _ => exact .kept v _
      · rwa [if_neg heq, Option.none_or]
    | none =>
      obtain ⟨h₁, r, hr, hadded, hrel⟩ := hvalue _ List.mem_cons_self i hi hs hbase
      have hs₁ : s.index < h₁.objects.size := Nat.lt_of_lt_of_le hs hadded.keeps.objects_le
      generalize hu : use d = u at hrel
      cases hrel with
      | none =>
        obtain ⟨h, hrun, honly, hfills⟩ := hrest (i.withHeap h₁) hi hs₁ (hbase.trans hadded.keeps)
        refine ⟨h, (bind_of_ok (defineNew_of_none (hi ▸ hk) hr)).trans hrun,
          hadded.onlyFields.trans honly, fun key ↦ ?_⟩
        have hkey := hfills key
        rw [show (i.withHeap h₁).world.heap.own? s key = i.world.heap.own? s key from
          hadded.own?_eq key] at hkey
        rwa [Fields.pick?_cons, hu, ite_self, Option.none_or]
      | @some a v hv =>
        obtain ⟨h, hrun, honly, hfills⟩ := hrest (i.withHeap (h₁.insertField s k v)) hi
          (Nat.lt_of_lt_of_le hs₁ (OnlyFields.insertField hs₁ k v).keeps.objects_le)
          ((hbase.trans hadded.keeps).trans (.insertField k v))
        have hdefine := defineNew_of_value (hi ▸ hk) hr
        rw [show (i.withHeap h₁).state = s from hi] at hdefine
        refine ⟨h, (bind_of_ok hdefine).trans hrun,
          (hadded.onlyFields.trans (.insertField hs₁ k v)).trans honly, fun key ↦ ?_⟩
        have hkey := hfills key
        rw [show (i.withHeap (h₁.insertField s k v)).world.heap.own? s key =
          if key = k then some v else h₁.own? s key from own?_insertField hs₁ k v key,
          hadded.own?_eq] at hkey
        rw [Fields.pick?_cons, hu]
        by_cases heq : k = key
        · subst heq
          rw [if_pos rfl] at hkey
          rw [hk, if_pos rfl, Option.some_or]
          generalize h.own? s k = new at hkey ⊢
          cases hkey with
          | kept _ _ => exact .filled (hP ((Heap.Keeps.insertField k v).trans honly.keeps) hv)
        · rw [if_neg (Ne.symm heq)] at hkey
          rwa [if_neg heq, Option.none_or]

/-- A function is bound to the state, anything else to nothing. -/
theorem bind?_apply (v : Value) (i : Instance) :
    ∃ h r, bind? v i = .ok r (i.withHeap h) ∧ OnlyAdded i.state i.world.heap h ∧
      h.objects = i.world.heap.objects ∧ Option.Rel (Binds h i.state) (function? v) r := by
  cases v with
  | function f =>
    refine ⟨_, _, rfl, .newFunction (.bound f (.object i.state)), rfl, .some ⟨_, rfl, ?_, ?_⟩⟩
    · exact Nat.lt_of_lt_of_eq (Nat.lt_succ_self _) (Array.size_push _).symm
    · exact (Cells.getD_push _ _ _ _).trans (if_pos rfl)
  | _ => exact ⟨i.world.heap, none, rfl, .refl, rfl, .none⟩

/-- The same of a property. -/
theorem bindOwn?_apply (o : ObjectId) (key : String) (i : Instance) :
    ∃ h r, bindOwn? o key i = .ok r (i.withHeap h) ∧ OnlyAdded i.state i.world.heap h ∧
      h.objects = i.world.heap.objects ∧
      Option.Rel (Binds h i.state) ((i.world.heap.own? o key).bind function?) r := by
  unfold bindOwn?
  rw [bind_of_ok (show Instance.heap i = .ok i.world.heap i from rfl)]
  cases i.world.heap.own? o key with
  | none => exact ⟨i.world.heap, none, rfl, .refl, rfl, .none⟩
  | some v => exact bind?_apply v i

/-- A cell needs a getter. Its setter is bound if there is one. -/
theorem cellOf_apply {i : Instance} (hs : i.state.index < i.world.heap.objects.size)
    {f g : Option FunctionId} {getter setter : Option Value}
    (hgetter : Option.Rel (Binds i.world.heap i.state) f getter)
    (hsetter : Option.Rel (Binds i.world.heap i.state) g setter) :
    ∃ h r, cellOf getter setter i = .ok r (i.withHeap h) ∧
      OnlyAdded i.state i.world.heap h ∧
      Option.Rel (Computes h i.state) (f.map fun f ↦ (f, g)) r := by
  cases hgetter with
  | none => exact ⟨i.world.heap, none, rfl, .refl, .none⟩
  | @some f getter hgetter =>
    have hadded := OnlyAdded.newObject hs ⟨.computed getter setter, [], false⟩
    refine ⟨_, _, rfl, hadded, .some ⟨⟨i.world.heap.objects.size⟩, getter, setter, rfl, ?_, ?_, ?_,
      hgetter.keep hadded.keeps, hsetter.imp fun hb ↦ hb.keep hadded.keeps⟩⟩
    · rintro heq
      rw [← heq] at hs
      exact Nat.lt_irrefl _ hs
    · exact Nat.lt_of_lt_of_eq (Nat.lt_succ_self _) (Array.size_push _).symm
    · exact (Cells.getD_push _ _ _ _).trans (if_pos rfl)

/-- A definition gives a computed cell if it has a getter. -/
theorem computedCell?_apply (definition : Value) {i : Instance}
    (hs : i.state.index < i.world.heap.objects.size) :
    ∃ h r, computedCell? definition i = .ok r (i.withHeap h) ∧
      OnlyAdded i.state i.world.heap h ∧
      Option.Rel (Computes h i.state) (accessors? i.world.heap definition) r := by
  have hplain {v : Value} (hcell : computedCell? v = bind? v >>= fun getter ↦ cellOf getter none)
      (haccessors : accessors? i.world.heap v = (function? v).map fun f ↦ (f, none)) :
      ∃ h r, computedCell? v i = .ok r (i.withHeap h) ∧ OnlyAdded i.state i.world.heap h ∧
        Option.Rel (Computes h i.state) (accessors? i.world.heap v) r := by
    obtain ⟨h₁, getter, hgetter, hadded, -, hbinds⟩ := bind?_apply v i
    obtain ⟨h₂, r, hr, hadded', hrel⟩ := cellOf_apply (i := i.withHeap h₁)
      (Nat.lt_of_lt_of_le hs hadded.keeps.objects_le) hbinds .none
    rw [hcell, haccessors, bind_of_ok hgetter]
    exact ⟨h₂, r, hr, hadded.trans hadded', hrel⟩
  cases definition with
  | object o =>
    have hcell : computedCell? (.object o) = bindOwn? o "get" >>= fun getter ↦
        bindOwn? o "set" >>= fun setter ↦ cellOf getter setter := by
      simp only [computedCell?, pure_bind]
      rfl
    obtain ⟨h₁, getter, hgetter, hadded, hobjects, hbinds⟩ := bindOwn?_apply o "get" i
    obtain ⟨h₂, setter, hsetter, hadded', -, hbinds'⟩ := bindOwn?_apply o "set" (i.withHeap h₁)
    obtain ⟨h₃, r, hr, hadded'', hrel⟩ := cellOf_apply (i := (i.withHeap h₁).withHeap h₂)
      (Nat.lt_of_lt_of_le hs (hadded.trans hadded').keeps.objects_le)
      (hbinds.imp fun hb ↦ hb.keep hadded'.keeps) hbinds'
    have hown : (i.withHeap h₁).world.heap.own? o "set" = i.world.heap.own? o "set" := by
      change (h₁.objects.getD _ _).fields.get? _ = (i.world.heap.objects.getD _ _).fields.get? _
      rw [hobjects]
    rw [hown] at hrel
    rw [hcell, bind_of_ok hgetter, bind_of_ok hsetter]
    exact ⟨h₃, r, hr, (hadded.trans hadded').trans hadded'', hrel⟩
  | _ => exact hplain rfl rfl

/-! ### Taking over what setup returned -/

/-- Fields written to an object one after the other. -/
def insertFields (h : Heap) (o : ObjectId) (fields : Fields Value) : Heap :=
  fields.foldl (fun h f ↦ h.insertField o f.1 f.2) h

/-- Several fields: of each key the last counts. -/
theorem insertFields_spec {o : ObjectId} (fields : Fields Value) : ∀ {h : Heap},
    o.index < h.objects.size → OnlyFields o h (insertFields h o fields) ∧
      ∀ key, (insertFields h o fields).own? o key = (fields.last? key).or (h.own? o key) := by
  induction fields with
  | nil => exact fun _ ↦ ⟨.refl, fun _ ↦ rfl⟩
  | cons f rest ih =>
    intro h ho
    obtain ⟨k, v⟩ := f
    have hfirst := OnlyFields.insertField ho k v
    obtain ⟨honly, hown⟩ := ih (Nat.lt_of_lt_of_le ho hfirst.keeps.objects_le)
    refine ⟨hfirst.trans honly, fun key ↦ (hown key).trans ?_⟩
    rw [own?_insertField ho, Fields.last?_cons]
    cases Fields.last? rest key with
    | some u => rfl
    | none =>
      by_cases hk : k = key
      · rw [if_pos hk.symm, if_pos hk]
        rfl
      · rw [if_neg (Ne.symm hk), if_neg hk]
        rfl

/-- The fields that are not under reserved keys. -/
def unreserved (fields : Fields Value) : Fields Value :=
  fields.filter fun f ↦ !Component.isReserved f.1

/-- What setup returned is written over the state, but for reserved keys. -/
theorem mergeSetup_apply (fields : Fields Value) : ∀ i : Instance,
    mergeSetup fields i =
      .ok () (i.withHeap (insertFields i.world.heap i.state (unreserved fields))) := by
  induction fields with
  | nil => exact fun _ ↦ rfl
  | cons f rest ih =>
    intro i
    obtain ⟨key, v⟩ := f
    unfold mergeSetup unreserved
    rw [List.filter_cons]
    cases hkey : Component.isReserved key with
    | true => exact ih i
    | false => exact ih (i.withHeap (i.world.heap.insertField i.state key v))

/-- Entries of reserved keys are left out. -/
theorem last?_unreserved (fields : Fields Value) (key : String) :
    (unreserved fields).last? key =
      if Component.isReserved key then none else fields.last? key := by
  induction fields with
  | nil => exact (ite_self _).symm
  | cons f rest ih =>
    obtain ⟨k, v⟩ := f
    unfold unreserved at ih ⊢
    rw [List.filter_cons, Fields.last?_cons]
    cases hk : Component.isReserved k with
    | true =>
      rw [if_neg (by decide), ih]
      by_cases heq : k = key
      · rw [← heq, hk]
        rfl
      · rw [if_neg heq, Option.or_none]
    | false =>
      rw [if_pos (show (!false) = true from rfl), Fields.last?_cons, ih]
      by_cases heq : k = key
      · rw [← heq, hk]
        rfl
      · rw [if_neg heq, Option.or_none, Option.or_none]

/-! ### Up to the moment of creation -/

/-- What an instance does from the created hook on. -/
def awaken : Op Unit := do
  let options := (← EStateM.get).component.options
  callHook .created
  addOptionWatchers options.watch
  callHook .beforeMount
  callHook .mounted
  settle

/-- How mounting ends when the instance has done all this. -/
def mountResult : EStateM.Result Failure Instance Unit → EStateM.Result Failure Heap Instance
  | .ok _ i => .ok i i.world.heap
  | .error e i => .error e i.world.heap

/-- An instance whose state has been made. -/
def born (c : Component) (w : World) (s : ObjectId) (hooks : HookRegistry) : Instance :=
  ⟨c, w, s, hooks, #[], true⟩

/-- How mounting goes on when there is a state, or when there is none. -/
def continued (c : Component) :
    EStateM.Result Failure World ObjectId → EStateM.Result Failure Heap Instance
  | .ok state w => mountResult (start (born c w state .empty))
  | .error e w => .error e w.heap

/-- Mounting goes on from a created state. -/
theorem mount_eq (c : Component) (h : Heap) : mount c h = continued c (create c (c.birth h)) := by
  unfold mount Component.birth
  dsimp only
  cases create c ⟨(h.ofData c.data).2, Run.start c.limits (h.ofData c.data).1⟩ with
  | error e w => rfl
  | ok state w =>
    dsimp only [continued, born]
    cases start ⟨c, w, state, .empty, #[], true⟩ <;> rfl

/-- After the preparation, mounting launches the watchers and settles. -/
theorem mount_of_prepared {c : Component} {h : Heap} {state : ObjectId} {w : World}
    (hcreate : create c (c.birth h) = .ok state w) {options : Component.Options} {i : Instance}
    (hprepare : prepare (born c w state .empty) = .ok options i) :
    mount c h = mountResult ((do launchOn machine options.watch; settle : Op Unit) i) := by
  rw [mount_eq, hcreate]
  change mountResult (start (born c w state .empty)) = _
  rw [start_eq, bind_of_ok hprepare]

/-- Creation makes the state of what the data gave. -/
theorem create_of_ok {c : Component} {h : Heap} {user : Fields Value} {w : World}
    (hfactory : c.factory (c.birth h) = .ok user w) :
    create c (c.birth h) = .ok (c.stateCells user w.heap).1 ⟨(c.stateCells user w.heap).2, w.run⟩ := by
  rw [c.create_eq, bind_of_ok hfactory, c.stateOf_apply]

/-- What an instance does with what setup came to. -/
def taken (c : Component) (s : ObjectId) :
    EStateM.Result Failure World (Fields Value × HookRegistry) → EStateM.Result Failure Instance Unit
  | .ok r w => mergeSetup r.1 (born c w s r.2)
  | .error e w => .error e (born c w s .empty)

/-- Setup runs and what it returns is taken over. -/
theorem runSetup_eq (c : Component) (w : World) (s : ObjectId) :
    runSetup (born c w s .empty) = taken c s (c.setupFields w) := by
  have hget : EStateM.get (born c w s .empty) =
      EStateM.Result.ok (ε := Failure) (born c w s .empty) (born c w s .empty) := rfl
  unfold runSetup Component.setupFields
  rw [bind_of_ok hget]
  dsimp only [born]
  cases c.options.setup with
  | none => rfl
  | some setup =>
    dsimp only
    cases hrun : registering (callSetup setup) w with
    | error e w₁ =>
      have hlift : lift (registering (callSetup setup)) (born c w s .empty) =
          .error e (born c w₁ s .empty) := by
        unfold lift born
        rw [hrun]
      rw [bind_of_error hrun]
      exact bind_of_error hlift
    | ok r w₁ =>
      have hlift : lift (registering (callSetup setup)) (born c w s .empty) =
          .ok r (born c w₁ s .empty) := by
        unfold lift born
        rw [hrun]
      rw [bind_of_ok hrun]
      exact bind_of_ok hlift

/-- Mounting step by step, where each of them returns. -/
theorem mount_of_steps {c : Component} {h : Heap} {user returned : Fields Value}
    {hooks : HookRegistry} {w₁ w₂ : World} (hfactory : c.factory (c.birth h) = .ok user w₁)
    (hsetup : c.setupFields ⟨(c.stateCells user w₁.heap).2, w₁.run⟩ = .ok (returned, hooks) w₂)
    {i₁ i₂ i₃ : Instance}
    (hmerge : mergeSetup returned (born c w₂ (c.stateCells user w₁.heap).1 hooks) = .ok () i₁)
    (hmethods : bindMethods i₁.component.options.methods i₁ = .ok () i₂)
    (hcomputed : bindComputed i₁.component.options.computed i₂ = .ok () i₃)
    (hcomponent : i₃.component = i₁.component) : mount c h = mountResult (awaken i₃) := by
  have hstart : start (born c ⟨(c.stateCells user w₁.heap).2, w₁.run⟩
      (c.stateCells user w₁.heap).1 .empty) = awaken i₃ := by
    have hget (i : Instance) : EStateM.get i = EStateM.Result.ok (ε := Failure) i i := rfl
    have hrun := runSetup_eq c ⟨(c.stateCells user w₁.heap).2, w₁.run⟩ (c.stateCells user w₁.heap).1
    rw [hsetup] at hrun
    refine (bind_of_ok (hrun.trans hmerge)).trans ?_
    refine (bind_of_ok (hget i₁)).trans ((bind_of_ok hmethods).trans ((bind_of_ok hcomputed).trans ?_))
    refine Eq.symm ((bind_of_ok (hget i₃)).trans ?_)
    rw [hcomponent]
  rw [mount_eq, create_of_ok hfactory]
  exact congrArg mountResult hstart

/-- An instance does not get past code that fails before there is a state. -/
theorem mount_of_factory_error {c : Component} {h : Heap} {e : Failure} {w : World}
    (hfactory : c.factory (c.birth h) = .error e w) : mount c h = .error e w.heap := by
  rw [mount_eq, c.create_eq, bind_of_error hfactory]
  rfl

/-- An instance whose setup fails is not mounted. -/
theorem mount_of_setup_error {c : Component} {h : Heap} {user : Fields Value} {e : Failure}
    {w₁ w₂ : World} (hfactory : c.factory (c.birth h) = .ok user w₁)
    (hsetup : c.setupFields ⟨(c.stateCells user w₁.heap).2, w₁.run⟩ = .error e w₂) :
    mount c h = .error e w₂.heap := by
  rw [mount_eq, create_of_ok hfactory]
  have hrun := runSetup_eq c ⟨(c.stateCells user w₁.heap).2, w₁.run⟩ (c.stateCells user w₁.heap).1
  rw [hsetup] at hrun
  exact congrArg mountResult (bind_of_error hrun)

/-! ### Keys of the state -/

/-- Where the value under a key of a state comes from: from what setup returned, else from the user's
data, else from a method, else from a computed value's definition, else from nowhere. -/
inductive Origin (c : Component) (user returned : Fields Value) (before after : Heap)
    (state : ObjectId) (key : String) : Option Value → Prop
  | returned {v : Value} : returned.last? key = some v →
    Origin c user returned before after state key (some v)
  | user {v : Value} : returned.last? key = none → user.get? key = some v →
    Origin c user returned before after state key (some v)
  | method {f : FunctionId} {v : Value} : returned.last? key = none → user.get? key = none →
    c.options.methods.pick? key function? = some f → Binds after state f v →
    Origin c user returned before after state key (some v)
  | computed {a : FunctionId × Option FunctionId} {v : Value} : returned.last? key = none →
    user.get? key = none → c.options.methods.pick? key function? = none →
    c.options.computed.pick? key (accessors? before) = some a → Computes after state a v →
    Origin c user returned before after state key (some v)
  | absent : returned.last? key = none → user.get? key = none →
    c.options.methods.pick? key function? = none →
    c.options.computed.pick? key (accessors? before) = none →
    Origin c user returned before after state key none

/-- Where the value of a key comes from, in the order in which the sources are asked. -/
theorem Origin.of_fills {c : Component} {user returned : Fields Value} {before middle after : Heap}
    {state : ObjectId} {key : String} {v v' : Option Value}
    (hmethods : Fills (Binds middle state) ((returned.last? key).or (user.get? key))
      (c.options.methods.pick? key function?) v)
    (hcomputed : Fills (Computes after state) v (c.options.computed.pick? key (accessors? before)) v')
    (hk : Heap.Keeps .empty state middle after) :
    Origin c user returned before after state key v' := by
  cases hreturned : returned.last? key with
  | some u =>
    rw [hreturned] at hmethods
    cases hmethods with
    | kept _ _ =>
      cases hcomputed with
      | kept _ _ => exact .returned hreturned
  | none =>
    rw [hreturned, Option.none_or] at hmethods
    generalize huser : user.get? key = old at hmethods
    generalize hmethod : c.options.methods.pick? key function? = method at hmethods
    cases hmethods with
    | kept _ _ =>
      cases hcomputed with
      | kept _ _ => exact .user hreturned huser
    | filled hbinds =>
      cases hcomputed with
      | kept _ _ => exact .method hreturned huser hmethod (hbinds.keep hk)
    | absent =>
      generalize hcell : c.options.computed.pick? key (accessors? before) = cell at hcomputed
      cases hcomputed with
      | filled hcomputes => exact .computed hreturned huser hmethod hcell hcomputes
      | absent => exact .absent hreturned huser hmethod hcell

/-- Definitions of computed values that are old enough read the same later. -/
theorem accessors?_keep {before h : Heap} {state : ObjectId} (hk : Heap.Keeps .empty state before h)
    {definition : Value} {base : Heap} (hd : Value.Alike (own base) definition definition)
    (hsize : base.objects.size ≤ before.objects.size) (hstate : base.objects.size ≤ state.index) :
    accessors? h definition = accessors? before definition := by
  cases hd with
  | @object o _ ho =>
    have hlt : o.index < base.objects.size := ho.2
    have hne : o ≠ state := by
      rintro rfl
      exact Nat.not_lt_of_le hstate hlt
    unfold accessors? Heap.own?
    dsimp only
    rw [hk.object (Nat.zero_le _) (Nat.lt_of_lt_of_le hlt hsize) hne]
  | _ => rfl

end Instance

/-- What the options name are cells of the heap, and so is what cells of the heap name. -/
structure Component.LivesIn (c : Component) (h : Heap) : Prop where
  closed : h.Closed
  options : Options.Alike (own h) c.options c.options

namespace Component

variable {c : Component} {h h₁ : Heap}

/-- A component that lives in a heap lives in the world its instances are born into. -/
theorem LivesIn.birth (hc : c.LivesIn h) :
    (c.birth h).Closed ∧ c.LivesIn (c.birth h).heap := by
  obtain ⟨q, hm, hprops⟩ := hc.closed.ofDocument (.object c.data)
  exact ⟨⟨hm.closed, start_alike c.limits (Stable.mono hm.le_own hprops)⟩,
    hm.closed, Stable.mono hm.own_le_own hc.options⟩

end Component

namespace Instance

/-- What the state is when setup has run: as it was made, over reserved values that are fresh. -/
theorem setup_keeps_state {c : Component} {w₁ w₂ : World} (hw : w₁.Closed) (hc : c.LivesIn w₁.heap)
    (user : Fields Value) {r : Fields Value × HookRegistry}
    (hsetup : c.setupFields ⟨(c.stateCells user w₁.heap).2, w₁.run⟩ = .ok r w₂) :
    let s := (c.stateCells user w₁.heap).1
    s.index < w₂.heap.objects.size ∧ w₁.heap.objects.size ≤ s.index ∧
      w₁.heap.objects.size ≤ w₂.heap.objects.size ∧
      Heap.Keeps w₁.heap s (c.reservedCells w₁.heap).2 w₂.heap ∧
      w₂.heap.object s = ⟨.state, Component.stateFields user (c.reservedCells w₁.heap).1, false⟩ := by
  intro s
  have hreserved := c.keeps_reservedCells w₁.heap s
  have hnew := hreserved.trans (Heap.Keeps.newObject (o := s)
    ⟨.state, Component.stateFields user (c.reservedCells w₁.heap).1, false⟩)
  have hold : w₁.heap.objects.size ≤ s.index := hreserved.objects_le
  have hlt : s.index < (c.stateCells user w₁.heap).2.objects.size :=
    Nat.lt_of_lt_of_eq (Nat.lt_succ_self _) (Array.size_push _).symm
  have hworld : World.Alike (own w₁.heap) ⟨(c.stateCells user w₁.heap).2, w₁.run⟩
      ⟨(c.stateCells user w₁.heap).2, w₁.run⟩ := ⟨hnew.alike_own hw.heap hold, hw.run⟩
  obtain ⟨q, hg, -⟩ := Component.setupFields_alike hc.options _ (Pairing.le_refl _) _ _ hworld
  rw [hsetup] at hg
  have hkeeps := hg.keeps s
  have hobject := (hg.keeps ⟨(c.stateCells user w₁.heap).2.objects.size⟩).object hold hlt
    fun heq ↦ Nat.ne_of_lt hlt (congrArg ObjectId.index heq)
  exact ⟨Nat.lt_of_lt_of_le hlt hkeeps.objects_le, hold,
    Nat.le_trans hnew.objects_le hkeeps.objects_le, (Heap.Keeps.newObject _).trans hkeeps,
    hobject.trans ((Cells.getD_push _ _ _ _).trans (if_pos rfl))⟩

/-- When the created hook is called, the state has fresh values under the reserved keys, and each
other key has its value from the first of four sources: the plain object that setup returned, the
plain object that the data factory returned, the methods, and the computed values. This is so for
every instance that gets past setup, whatever scripts have run up to then. -/
theorem mount_state {c : Component} {h : Heap} (hc : c.LivesIn h) {user returned : Fields Value}
    {hooks : HookRegistry} {w₁ w₂ : World} (hfactory : c.factory (c.birth h) = .ok user w₁)
    (hsetup : c.setupFields ⟨(c.stateCells user w₁.heap).2, w₁.run⟩ = .ok (returned, hooks) w₂) :
    ∃ i : Instance, mount c h = mountResult (awaken i) ∧ i.component = c ∧
      i.state = (c.stateCells user w₁.heap).1 ∧ i.hooks = hooks ∧ i.world.run = w₂.run ∧
      (i.world.heap.object i.state).kind = .state ∧
      (i.world.heap.object i.state).frozen = false ∧
      c.Reserves w₁.heap i.world.heap (i.world.heap.object i.state).fields ∧
      ∀ key, Component.isReserved key = false →
        Origin c user returned w₂.heap i.world.heap i.state key (i.world.heap.own? i.state key) := by
  obtain ⟨hbirth, hlives⟩ := hc.birth
  obtain ⟨hw₁, hle, -⟩ := hbirth.after (Component.factory_alike hlives.options)
  rw [hfactory] at hw₁ hle
  change w₁.Closed at hw₁
  change own (c.birth h).heap ≤ own w₁.heap at hle
  have hoptions : Component.Options.Alike (own w₁.heap) c.options c.options := Stable.mono hle hlives.options
  obtain ⟨hs, hold, hsize, hreserved, hobject⟩ :=
    setup_keeps_state hw₁ ⟨hw₁.heap, hoptions⟩ user hsetup
  let s := (c.stateCells user w₁.heap).1
  -- the four sources, from the last setup field to the first computed value
  let i₀ := born c w₂ s hooks
  obtain ⟨honly₁, hown₁⟩ := insertFields_spec (unreserved returned) hs
  let i₁ := i₀.withHeap (insertFields w₂.heap s (unreserved returned))
  have hs₁ : s.index < i₁.world.heap.objects.size :=
    Nat.lt_of_lt_of_le hs honly₁.keeps.objects_le
  obtain ⟨h₂, hmethods, honly₂, hown₂⟩ := defineEach_apply (P := fun h ↦ Binds h s)
    (s := s) function? w₂.heap (fun hk hb ↦ hb.keep hk) c.options.methods
    (fun f _ i hi _ _ ↦ by
      obtain ⟨h, r, hr, hadded, -, hbinds⟩ := bind?_apply f.2 i
      exact ⟨h, r, hr, hi ▸ hadded, hi ▸ hbinds⟩) i₁ rfl hs₁ honly₁.keeps
  obtain ⟨h₃, hcomputed, honly₃, hown₃⟩ := defineEach_apply (P := fun h ↦ Computes h s)
    (s := s) (accessors? w₂.heap) w₂.heap (fun hk hb ↦ hb.keep hk)
    c.options.computed
    (fun f hf i hi his hbase ↦ by
      obtain ⟨h, r, hr, hadded, hcomputes⟩ := computedCell?_apply f.2 (i := i) (hi ▸ his)
      rw [accessors?_keep hbase (List.forall₂_same.1 hoptions.computed f hf).2 hsize hold]
        at hcomputes
      exact ⟨h, r, hr, hi ▸ hadded, hi ▸ hcomputes⟩) (i₁.withHeap h₂) rfl
    (Nat.lt_of_lt_of_le hs₁ honly₂.keeps.objects_le) (honly₁.keeps.trans honly₂.keeps)
  have honly := (honly₁.trans honly₂).trans honly₃
  have hkind : (h₃.object s).kind = .state := honly.kind.trans (congrArg Object.kind hobject)
  have hfrozen : (h₃.object s).frozen = false := honly.frozen.trans (congrArg Object.frozen hobject)
  have hstart (key : String) : w₂.heap.own? s key =
      (Component.stateFields user (c.reservedCells w₁.heap).1).get? key := by
    unfold Heap.own?
    rw [hobject]
  refine ⟨(i₁.withHeap h₂).withHeap h₃, ?_, rfl, rfl, rfl, rfl, hkind, hfrozen, ?_,
    fun key hkey ↦ ?_⟩
  · exact mount_of_steps hfactory hsetup (mergeSetup_apply returned i₀)
      ((congrFun (bindMethods_eq _) _).trans hmethods)
      ((congrFun (bindComputed_eq _) _).trans hcomputed) rfl
  · refine Component.Reserves.congr ((c.reserves_reservedCells user w₁.heap).keep
      (hreserved.trans honly.keeps.later) (Nat.le_refl _)) fun key hkey ↦ ?_
    obtain ⟨v, hv⟩ := Component.exists_get?_stateFields user (c.reservedCells w₁.heap).1 hkey
    have hkey₁ : i₁.world.heap.own? s key = some v := by
      refine (hown₁ key).trans ?_
      rw [last?_unreserved, hkey, hstart, hv]
      rfl
    have hkey₂ := (hkey₁ ▸ hown₂ key).eq_of_some
    exact ((hkey₂ ▸ hown₃ key : Fills _ (some v) _ _).eq_of_some).trans hv.symm
  · refine Origin.of_fills ?_ (hown₃ key) honly₃.keeps
    have hkey₁ : i₁.world.heap.own? s key = (returned.last? key).or (user.get? key) := by
      refine (hown₁ key).trans ?_
      rw [last?_unreserved, hkey, hstart, Component.get?_stateFields_of_not_reserved hkey]
      rfl
    rw [← hkey₁]
    exact (hown₂ key)

/-- An instance whose setup returns its properties. -/
def echo : Component where
  template := ⟨[], #[]⟩
  options := { Component.Options.empty with
    setup := some (.function ⟨1⟩)
    methods := [("show", .function ⟨0⟩)]
    computed := [("show", .function ⟨1⟩), ("shown", .function ⟨1⟩)] }
  data := [("label", .string "a")]
  store := []
  limits := .standard

/-- A heap with the functions that its options name. -/
def echoHeap : Heap :=
  ((Heap.empty.newFunction (.native (.capability .unref))).2.newFunction
    (.native (.capability .defineProps))).2

theorem echo_livesIn : echo.LivesIn echoHeap where
  closed := by
    have hnative (p : Pairing) (capability : Capability) :
        Function.Alike p (.native (.capability capability)) (.native (.capability capability)) :=
      .native (.plain trivial)
    obtain ⟨_, hm, -⟩ := Heap.closed_empty.newFunction (hnative _ .unref)
    obtain ⟨_, hm', -⟩ := hm.closed.newFunction (hnative _ .defineProps)
    exact hm'.closed
  options :=
    have hunref : Value.Alike (own echoHeap) (.function ⟨0⟩) (.function ⟨0⟩) :=
      .function ⟨rfl, by decide⟩
    have hprops : Value.Alike (own echoHeap) (.function ⟨1⟩) (.function ⟨1⟩) :=
      .function ⟨rfl, by decide⟩
    { Component.Options.alike_empty _ with
      setup := .some hprops
      methods := .cons ⟨rfl, hunref⟩ .nil
      computed := .cons ⟨rfl, hprops⟩ (.cons ⟨rfl, hprops⟩ .nil) }

theorem echo_setup : ∃ returned hooks w₂,
    echo.setupFields ⟨(echo.stateCells [] (echo.birth echoHeap).heap).2, (echo.birth echoHeap).run⟩ =
      .ok (returned, hooks) w₂ ∧ returned = [("label", .string "a")] := by
  obtain ⟨n, hn⟩ := Nat.exists_eq_succ_of_ne_zero
    (show patience ≠ 0 from Nat.ne_of_gt (Nat.pow_pos (Nat.succ_pos 1)))
  have hcall : Action.call = (machineWithin (n + 1)).call := by
    unfold Action.call machine
    rw [hn]
  unfold Component.setupFields callSetup
  rw [hcall]
  exact ⟨_, _, _, rfl, rfl⟩

/-- A method and a computed value share a name, and the method is on the state. -/
theorem mount_state_echo : echo.LivesIn echoHeap ∧ ∃ i : Instance,
    mount echo echoHeap = mountResult (awaken i) ∧
    ∃ v, i.world.heap.own? i.state "show" = some v ∧ Binds i.world.heap i.state ⟨0⟩ v := by
  obtain ⟨returned, hooks, w₂, hsetup, rfl⟩ := echo_setup
  obtain ⟨i, hmount, -, -, -, -, -, -, -, horigin⟩ := mount_state echo_livesIn rfl hsetup
  have hshow := horigin "show" (by decide)
  generalize hshown : i.world.heap.own? i.state "show" = shown at hshow
  refine ⟨echo_livesIn, i, hmount, ?_⟩
  cases hshow with
  | returned hlast => exact nomatch hlast
  | user _ huser => exact nomatch huser
  | @method f v _ _ hmethod hbinds =>
    obtain rfl : ⟨0⟩ = f := Option.some.inj hmethod
    exact ⟨v, hshown, hbinds⟩
  | computed _ _ hmethod _ _ => exact nomatch hmethod
  | absent _ _ hmethod _ => exact nomatch hmethod

/-! ### Numbers of the instance data -/

/-- Whole numbers of a document are small enough for a value to hold them exactly. -/
theorem numberDocument_whole {x : Float} {n : Int} (h : numberDocument x = .number (.whole n)) :
    n < 9007199254740992 := by
  unfold numberDocument at h
  cases hx : Number.decode? x with
  | none =>
    rw [hx] at h
    exact nomatch h
  | some v =>
    rw [hx] at h
    dsimp only at h
    split_ifs at h with hwhole
    · obtain rfl := Json.Numeral.whole.inj (Json.number.inj h)
      have hpart : (v.wholePart : Int) < 9007199254740992 := Int.ofNat_lt.2 hwhole.2
      unfold Number.Exact.truncate
      split_ifs
      · omega
      · exact hpart
    · exact nomatch h

/-- The document of an object with one number. -/
theorem document_number {h : Heap} {o : ObjectId} (key : String) (x : Float) {frozen : Bool}
    (ho : h.object o = ⟨.plain, [(key, .number x)], frozen⟩) :
    h.document (.object o) = .object [(key, numberDocument x)] := by
  simp [Heap.document, maxValueDepth, Heap.documentWithin, ho, Heap.leftOut, Json.sortFields,
    Json.sortFields.keepLast]

/-- An instance with a number that no value holds exactly. -/
def vast : Component :=
  ⟨⟨[], #[]⟩, .empty, [("n", .number (.whole 9007199254740993))], [], .standard⟩

/-- The data of such an instance is not what its state shows. -/
theorem vast_state : vast.LivesIn .empty ∧ ∃ (i : Instance) (v : Value),
    mount vast .empty = mountResult (awaken i) ∧
      i.world.heap.own? i.state Component.dataKey = some v ∧
      i.world.heap.document v ≠ .object vast.data := by
  refine ⟨⟨Heap.closed_empty, Component.Options.alike_empty _⟩, _, .object ⟨1⟩,
    mount_of_steps rfl rfl (mergeSetup_apply [] _) rfl rfl rfl, rfl, fun hdocument ↦ ?_⟩
  have hobject := (document_number "n" (Float.ofInt 9007199254740993) rfl).symm.trans hdocument
  have hn : numberDocument (Float.ofInt 9007199254740993) = .number (.whole 9007199254740993) :=
    (Prod.mk.inj (List.cons.inj (Json.object.inj hobject)).1).2
  exact absurd (numberDocument_whole hn) (by decide)

end Instance

end Nodecraft
