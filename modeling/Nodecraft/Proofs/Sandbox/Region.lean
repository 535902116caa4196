import Nodecraft.Proofs.Pairing.Frame
import Nodecraft.Sandbox.Operator

/-!
# Actions that only read and make cells

A `Region` says which cells of a heap an action comes by, and `Region.Covers` that these lead to no
others, that none of them is computed, and that all cells that were there when the region was drawn
are still as they were. Reading a value of the region then runs no code and gives a value of the
region.

An action that keeps to a region (`Action.Gathers`) leaves it covered, comes to a value in it, and
does not fail with a thrown value. Actions that read and make cells do so, one after the other as
well.
-/

set_option autoImplicit false

namespace Nodecraft.Sandbox

open Script

/-- Those cells of a heap that some code comes by, and all that are made later. -/
structure Region where
  base : Heap
  array : ArrayId → Prop
  object : ObjectId → Prop
  array_of_le {a : ArrayId} : base.arrays.size ≤ a.index → array a
  object_of_le {o : ObjectId} : base.objects.size ≤ o.index → object o

namespace Region

/-- The value names no other cells. Functions may be named, for nothing calls them. -/
def Has (r : Region) : Value → Prop
  | .array a => r.array a
  | .object o => r.object o
  | _ => True

/-- What a name stands for is in the region. -/
def Resolves (r : Region) : Resolution → Prop
  | .binding _ b => r.Has b.value
  | .field target => r.Has target

/-- The scope has been made since. -/
def Opens (r : Region) (s : ScopeId) : Prop := r.base.scopes.size ≤ s.index

structure Encloses (r : Region) (scope : Scope) : Prop where
  binding {entry : String × Binding} : entry ∈ scope.bindings → r.Has entry.2.value
  parent {t : ScopeId} : scope.parent = some t → r.Opens t
  fallback {v : Value} : scope.fallback = some v → r.Has v
  self {v : Value} : scope.self = some v → r.Has v

/-- The cells of the region lead to no others, and none is computed. All cells that were there are
as they were. -/
structure Covers (r : Region) (h : Heap) : Prop where
  untouched : r.base.Untouched h
  item {a : ArrayId} {v : Value} : r.array a → v ∈ h.array a → r.Has v
  field {o : ObjectId} {entry : String × Value} : r.object o → entry ∈ (h.object o).fields →
    r.Has entry.2
  isComputed {o : ObjectId} : r.object o → (h.object o).kind.isComputed = false
  scope {s : ScopeId} : r.Opens s → r.Encloses (h.scope s)

end Region

/-! ### What covered heaps hold -/

theorem Fields.mem_of_get? {α : Type} {fields : Fields α} {key : String} {a : α}
    (h : fields.get? key = some a) : (key, a) ∈ fields := by
  obtain ⟨before, after, rfl, -⟩ := List.lookup_eq_some_iff.1 h
  simp

/-- An insertion adds one entry. -/
theorem Fields.mem_insert {α : Type} {fields : Fields α} {key : String} {a : α}
    {entry : String × α} (h : entry ∈ fields.insert key a) : entry ∈ fields ∨ entry = (key, a) := by
  induction fields with
  | nil => exact .inr (by simpa [insert] using h)
  | cons f rest ih =>
    obtain ⟨k, b⟩ := f
    by_cases hk : k = key
    · rw [insert, if_pos (beq_iff_eq.2 hk)] at h
      rcases List.mem_cons.1 h with rfl | h
      · exact .inr (by rw [hk])
      · exact .inl (List.mem_cons_of_mem _ h)
    · rw [insert, if_neg (by simpa using hk)] at h
      rcases List.mem_cons.1 h with rfl | h
      · exact .inl List.mem_cons_self
      · exact (ih h).imp_left (List.mem_cons_of_mem _)

/-- Entries that are put in one after the other. -/
theorem Fields.mem_insertAll {α : Type} {entries : List (String × α)} : ∀ {fields : Fields α}
    {entry : String × α},
    entry ∈ entries.foldl (fun fields entry ↦ fields.insert entry.1 entry.2) fields →
    entry ∈ fields ∨ entry ∈ entries := by
  induction entries with
  | nil => exact fun h ↦ .inl h
  | cons first rest ih =>
    intro fields entry h
    rcases ih h with h | h
    · rcases mem_insert h with h | rfl
      · exact .inl h
      · exact .inr List.mem_cons_self
    · exact .inr (List.mem_cons_of_mem _ h)

namespace Region.Covers

variable {r : Region} {h : Heap} (hr : r.Covers h)

include hr

/-- The fields of covered objects are covered. -/
theorem own? {o : ObjectId} (ho : r.object o) {key : String} {v : Value}
    (hv : h.own? o key = some v) : r.Has v :=
  hr.field ho (Fields.mem_of_get? hv)

/-- The items of covered arrays are covered. -/
theorem items {a : ArrayId} (ha : r.array a) : ∀ v ∈ (h.array a).toList, r.Has v :=
  fun _ hv ↦ hr.item ha (Array.mem_toList_iff.1 hv)

/-- A name leads to something covered. -/
theorem resolve {name : String} {s : ScopeId} (hs : r.Opens s) :
    ∀ resolution ∈ h.resolve name s, r.Resolves resolution := by
  have hwithin (n : Nat) : ∀ {s : ScopeId}, r.Opens s →
      ∀ resolution ∈ h.resolveWithin name n s, r.Resolves resolution := by
    induction n with
    | zero => exact fun _ _ h ↦ nomatch h
    | succ n ih =>
      intro s hs resolution hresolve
      have hscope := hr.scope hs
      have houter (hparent : resolution ∈ (h.scope s).parent.bind (h.resolveWithin name n)) :
          r.Resolves resolution := by
        obtain ⟨t, ht, hresolve⟩ := Option.bind_eq_some_iff.1 hparent
        exact ih (hscope.parent ht) resolution hresolve
      rw [Heap.resolveWithin] at hresolve
      split at hresolve
      next b hb =>
        obtain rfl := Option.some.inj hresolve
        exact hscope.binding (Fields.mem_of_get? hb)
      next =>
        split at hresolve
        next target htarget =>
          split at hresolve
          · obtain rfl := Option.some.inj hresolve
            exact hscope.fallback htarget
          · exact houter hresolve
        next => exact houter hresolve
  exact hwithin _ hs

theorem self {s : ScopeId} (hs : r.Opens s) : r.Has (h.self s) := by
  have hwithin (n : Nat) : ∀ {s : ScopeId}, r.Opens s → r.Has (h.selfWithin n s) := by
    induction n with
    | zero => exact fun _ ↦ trivial
    | succ n ih =>
      intro s hs
      have hscope := hr.scope hs
      rw [Heap.selfWithin]
      split
      next v hv => exact hscope.self hv
      next =>
        split
        next t ht => exact ih (hscope.parent ht)
        next => trivial
  exact hwithin _ hs

/-! ### Making cells -/

/-- A new array of covered values is covered. -/
theorem newArray {items : Array Value} (hi : ∀ v ∈ items, r.Has v) :
    r.Covers (h.newArray items).2 where
  untouched := { hr.untouched with arrays := hr.untouched.arrays.trans (.push items) }
  item {a v} ha hv := by
    simp only [Heap.array, Heap.newArray, Cells.getD_push] at hv
    split at hv
    · exact hi v hv
    · exact hr.item ha hv
  field := hr.field
  isComputed := hr.isComputed
  scope := hr.scope

theorem newPlain {fields : Fields Value} (hf : ∀ entry ∈ fields, r.Has entry.2) :
    r.Covers (h.newObject ⟨.plain, fields, false⟩).2 where
  untouched := { hr.untouched with objects := hr.untouched.objects.trans (.push _) }
  item := hr.item
  field {o entry} ho hentry := by
    simp only [Heap.object, Heap.newObject, Cells.getD_push] at hentry
    split at hentry
    · exact hf entry hentry
    · exact hr.field ho hentry
  isComputed {o} ho := by
    simp only [Heap.object, Heap.newObject, Cells.getD_push]
    split
    · rfl
    · exact hr.isComputed ho
  scope := hr.scope

/-- Every new function is covered: it is what its code may reach that counts. -/
theorem newFunction (f : Function) : r.Covers (h.newFunction f).2 where
  untouched := { hr.untouched with functions := hr.untouched.functions.trans (.push f) }
  item := hr.item
  field := hr.field
  isComputed := hr.isComputed
  scope := hr.scope

theorem newScope {scope : Scope} (hscope : r.Encloses scope) : r.Covers (h.newScope scope).2 where
  untouched := { hr.untouched with scopes := hr.untouched.scopes.trans (.push scope) }
  item := hr.item
  field := hr.field
  isComputed := hr.isComputed
  scope {s} hs := by
    simp only [Heap.scope, Heap.newScope, Cells.getD_push]
    split
    · exact hscope
    · exact hr.scope hs

/-- Names may be declared in scopes that have been made since. -/
theorem declare {s : ScopeId} (hs : r.Opens s) (name : String) {v : Value} (hv : r.Has v)
    (mutable : Bool) : r.Covers (h.declare s name v mutable) where
  untouched := { hr.untouched with
    scopes := {
      size_le := by
        simpa [Heap.declare, Heap.modifyScope] using hr.untouched.scopes.size_le
      same := fun hn hi ↦ by
        simp only [Heap.declare, Heap.modifyScope, Cells.getD_modify]
        rw [if_neg]
        · exact hr.untouched.scopes.same hn hi
        · rintro ⟨rfl, -⟩
          exact Nat.not_lt_of_le hs hi } }
  item := hr.item
  field := hr.field
  isComputed := hr.isComputed
  scope {t} ht := by
    have hscope := hr.scope ht
    simp only [Heap.scope, Heap.declare, Heap.modifyScope, Cells.getD_modify]
    split
    · refine ⟨fun {entry} hentry ↦ ?_, hscope.parent, hscope.fallback, hscope.self⟩
      rcases Fields.mem_insert hentry with hold | rfl
      · exact hscope.binding hold
      · exact hv
    · exact hscope

end Region.Covers

/-! ### Actions that keep to a region -/

/-- The same interpreter, but perhaps for a count of steps that was over anyway. -/
def Run.IsIdle (r r₁ : Run) : Prop := r₁ = r ∨ (r.nesting = 0 ∧ r₁ = { r with steps := 0 })

theorem Run.IsIdle.trans {r r₁ r₂ : Run} (h : r.IsIdle r₁) (h' : r₁.IsIdle r₂) : r.IsIdle r₂ := by
  rcases h with rfl | ⟨hn, rfl⟩
  · exact h'
  · rcases h' with rfl | ⟨-, rfl⟩
    · exact .inr ⟨hn, rfl⟩
    · exact .inr ⟨hn, rfl⟩

/-- The failure carries no value. -/
def Failure.IsPlain (e : Failure) : Prop := ∀ message v, e ≠ .raised (.thrown message v)

/-- What comes of an action that reads cells of a region and makes new ones. -/
structure Region.Leaves (r : Region) {α : Type} (P : α → Prop) (w : World) (result : Outcome α) :
    Prop where
  covers : r.Covers (finalWorld result).heap
  run : w.run.IsIdle (finalWorld result).run
  value {a : α} {w₁ : World} : result = .ok a w₁ → P a
  failure {e : Failure} {w₁ : World} : result = .error e w₁ → e.IsPlain

/-- The action keeps to the region, and so does its value. -/
def Action.Gathers (r : Region) {α : Type} (P : α → Prop) (x : Action α) : Prop :=
  ∀ w : World, r.Covers w.heap → r.Leaves P w (x w)

namespace Region.Leaves

variable {r : Region} {α : Type} {P : α → Prop} {w w₁ : World}

theorem ok {a : α} (hr : r.Covers w₁.heap) (hrun : w.run.IsIdle w₁.run) (ha : P a) :
    r.Leaves P w (.ok a w₁) where
  covers := hr
  run := hrun
  value heq := (EStateM.Result.ok.inj heq).1 ▸ ha
  failure heq := nomatch heq

theorem error {e : Failure} (hr : r.Covers w₁.heap) (hrun : w.run.IsIdle w₁.run)
    (he : e.IsPlain) : r.Leaves P w (.error e w₁) where
  covers := hr
  run := hrun
  value heq := nomatch heq
  failure heq := (EStateM.Result.error.inj heq).1 ▸ he

/-- What was idle before may come before it. -/
theorem after {result : Outcome α} (hrun : w.run.IsIdle w₁.run) (h : r.Leaves P w₁ result) :
    r.Leaves P w result :=
  ⟨h.covers, hrun.trans h.run, h.value, h.failure⟩

end Region.Leaves

namespace Action.Gathers

variable {r : Region} {α β : Type} {P P' : α → Prop} {Q : β → Prop} {x : Action α}

theorem imp (hx : Action.Gathers r P x) (hP : ∀ a, P a → P' a) : Action.Gathers r P' x :=
  fun w hw ↦ let h := hx w hw
    ⟨h.covers, h.run, fun heq ↦ hP _ (h.value heq), h.failure⟩

theorem pure {a : α} (ha : P a) : Action.Gathers r P (Pure.pure a) :=
  fun _ hw ↦ .ok hw (.inl rfl) ha

theorem failure {e : Failure} (he : e.IsPlain) : Action.Gathers r P (throw e) :=
  fun _ hw ↦ .error hw (.inl rfl) he

theorem typeError (message : String) : Action.Gathers r P (Action.typeError message) :=
  failure nofun

theorem unbound (name : String) : Action.Gathers r P (Action.raise (.unbound name)) :=
  failure nofun

/-- The second action begins with something gathered in a covered heap. -/
theorem bind {f : α → Action β} (hx : Action.Gathers r P x)
    (hf : ∀ a, P a → Action.Gathers r Q (f a)) : Action.Gathers r Q (x >>= f) := by
  intro w hw
  have h := hx w hw
  rw [Action.bind_apply]
  generalize x w = result at h ⊢
  cases result with
  | ok a w₁ => exact .after h.run (hf a (h.value rfl) w₁ h.covers)
  | error e w₁ => exact .error h.covers h.run (h.failure rfl)

theorem map {f : α → β} (hx : Action.Gathers r P x) (hf : ∀ a, P a → Q (f a)) :
    Action.Gathers r Q (x >>= fun a ↦ Pure.pure (f a)) :=
  hx.bind fun a ha ↦ .pure (hf a ha)

theorem read {f : Heap → Action β} (hf : ∀ h, r.Covers h → Action.Gathers r Q (f h)) :
    Action.Gathers r Q (Action.heap >>= f) :=
  fun w hw ↦ hf w.heap hw w hw

theorem text (v : Value) : Action.Gathers r (fun _ ↦ True) (Action.text v) :=
  read fun _ _ ↦ pure trivial

theorem number (v : Value) : Action.Gathers r (fun _ ↦ True) (Action.number v) :=
  read fun _ _ ↦ pure trivial

theorem allocate {f : Heap → α × Heap} (hf : ∀ h, r.Covers h → r.Covers (f h).2 ∧ P (f h).1) :
    Action.Gathers r P (Action.allocate f) :=
  fun w hw ↦ .ok (hf w.heap hw).1 (.inl rfl) (hf w.heap hw).2

theorem newArray {items : Array Value} (hi : ∀ v ∈ items, r.Has v) :
    Action.Gathers r r.Has (Action.newArray items) :=
  bind (P := r.array)
    (allocate fun _ hr ↦ ⟨hr.newArray hi, r.array_of_le hr.untouched.arrays.size_le⟩)
    fun _ ha ↦ pure ha

theorem newPlain {fields : Fields Value} (hf : ∀ entry ∈ fields, r.Has entry.2) :
    Action.Gathers r r.Has (Action.newPlain fields) :=
  bind (P := r.object)
    (allocate fun _ hr ↦ ⟨hr.newPlain hf, r.object_of_le hr.untouched.objects.size_le⟩)
    fun _ ho ↦ pure ho

theorem newFunction (f : Function) : Action.Gathers r r.Has (Action.newFunction f) :=
  bind (P := fun _ ↦ True) (allocate fun _ hr ↦ ⟨hr.newFunction f, trivial⟩) fun _ _ ↦ pure trivial

theorem newScope {scope : Scope} (hscope : r.Encloses scope) :
    Action.Gathers r r.Opens (Action.newScope scope) :=
  allocate fun _ hr ↦ ⟨hr.newScope hscope, hr.untouched.scopes.size_le⟩

theorem childScope {s : ScopeId} (hs : r.Opens s) :
    Action.Gathers r r.Opens (Action.childScope s) :=
  newScope ⟨nofun, fun ht ↦ Option.some.inj ht ▸ hs, nofun, nofun⟩

theorem declare {s : ScopeId} (hs : r.Opens s) (name : String) {v : Value} (hv : r.Has v)
    (mutable : Bool) :
    Action.Gathers r (fun _ ↦ True) (Action.declare s name v mutable) :=
  fun _ hw ↦ .ok (hw.declare hs name hv mutable) (.inl rfl) trivial

theorem room : Action.Gathers r (fun _ ↦ True) Action.room := by
  intro w hw
  by_cases h : w.run.hasRoom
  · rw [Action.room_of_hasRoom h]
    exact .ok hw (.inl rfl) trivial
  · rw [Action.room_of_not h]
    exact .error hw (.inl rfl) nofun

/-- An entry is left again, so the run is idle afterwards. -/
theorem entering (hx : Action.Gathers r P x) : Action.Gathers r P (Action.entering x) := by
  intro w hw
  have h := hx w.enter hw
  rw [Action.entering_apply]
  refine ⟨by rw [finalWorld_mapWorld]; exact h.covers, ?_, fun {a w₁} heq ↦ ?_, fun {e w₁} heq ↦ ?_⟩
  · have hrun : (finalWorld (x w.enter)).run = w.enter.run :=
      h.run.resolve_right fun hzero ↦ Nat.succ_ne_zero _ hzero.1
    rw [finalWorld_mapWorld]
    change w.run.IsIdle { (finalWorld (x w.enter)).run with
      nesting := (finalWorld (x w.enter)).run.nesting - 1 }
    rw [hrun]
    by_cases hn : w.run.nesting = 0
    · exact .inr ⟨hn, by simp [World.enter, hn]⟩
    · exact .inl (by simp [World.enter, hn])
  · generalize x w.enter = result at h heq
    cases result with
    | ok b w₂ => exact (EStateM.Result.ok.inj heq).1 ▸ h.value rfl
    | error e w₂ => cases heq
  · generalize x w.enter = result at h heq
    cases result with
    | ok b w₂ => cases heq
    | error e' w₂ => exact (EStateM.Result.error.inj heq).1 ▸ h.failure rfl

/-- A handler sees plain errors only. -/
theorem catching {handler : ScriptError → Action α} (hx : Action.Gathers r P x)
    (hhandler : ∀ e, (Failure.raised e).IsPlain → Action.Gathers r P (handler e)) :
    Action.Gathers r P (Action.catching x handler) := by
  intro w hw
  have h := hx w hw
  by_cases hcatch : Catchable (x w)
  · obtain ⟨e, w₁, hxw, he⟩ := hcatch
    rw [Action.catching_of_catchable hxw he]
    rw [hxw] at h
    exact .after h.run (hhandler e (h.failure rfl) w₁ h.covers)
  · rw [Action.catching_of_not hcatch]
    exact h

/-! ### Reading -/

theorem methodValue (n : Option Native) : Action.Gathers r r.Has (Action.methodValue n) := by
  cases n with
  | none => exact pure trivial
  | some n => exact newFunction _

theorem readField {o : ObjectId} (ho : r.object o) (key : String) :
    Action.Gathers r r.Has (Action.readField o key) := by
  refine read fun h hr ↦ ?_
  split
  next v hv => exact pure (hr.own? ho hv)
  next => exact methodValue _

/-- Reading a key of an object that is not computed runs nothing. -/
theorem readPlain (call : Caller) {o : ObjectId} (ho : r.object o) (key : String) :
    Action.Gathers r r.Has (Action.readPlain call o key) := by
  refine read fun h hr ↦ ?_
  have hkind := hr.isComputed ho
  split
  next getter setter heq =>
    rw [heq] at hkind
    exact nomatch hkind
  next => exact readField ho key

/-- Objects of a region have no getters, so no caller is asked. -/
theorem readObject (call : Caller) {o : ObjectId} (ho : r.object o) (key : String) :
    Action.Gathers r r.Has (Action.readObject call o key) := by
  refine read fun h hr ↦ ?_
  split
  next =>
    split
    next inner hinner =>
      have hinner : r.object inner := hr.own? ho hinner
      split
      · exact readPlain call hinner "value"
      · exact pure hinner
    next v _ hv => exact pure (hr.own? ho hv)
    next => exact methodValue _
  next => exact readPlain call ho key

/-- What is read of something covered is covered. -/
theorem getProperty (call : Caller) {target : Value} (htarget : r.Has target) (key : String) :
    Action.Gathers r r.Has (Action.getProperty call target key) := by
  cases target with
  | undefined => exact typeError _
  | null => exact typeError _
  | bool b => exact pure trivial
  | number x => exact methodValue _
  | object o => exact readObject call htarget key
  | function f =>
    unfold Action.getProperty
    dsimp only
    split
    · exact read fun _ _ ↦ pure trivial
    · exact methodValue _
  | string s =>
    unfold Action.getProperty
    dsimp only
    split
    · exact pure trivial
    · split
      next i _ =>
        refine pure ?_
        cases s.toList[i]? <;> trivial
      next => exact methodValue _
  | array a =>
    unfold Action.getProperty
    dsimp only
    split
    · exact read fun _ _ ↦ pure trivial
    · split
      next i _ =>
        refine read fun h hr ↦ pure ?_
        rw [Array.getD_eq_getD_getElem?]
        cases hi : (h.array a)[i]? with
        | none => trivial
        | some v => exact hr.item htarget (Array.mem_of_getElem? hi)
      next => exact methodValue _

theorem iterate {v : Value} (hv : r.Has v) :
    Action.Gathers r (fun vs ↦ ∀ v ∈ vs, r.Has v) (Action.iterate v) := by
  cases v with
  | array a => exact read fun h hr ↦ pure (hr.items hv)
  | string s =>
    refine pure fun v hv ↦ ?_
    obtain ⟨c, -, rfl⟩ := List.mem_map.1 hv
    trivial
  | _ => exact typeError _

/-- What a name leads to is covered. -/
theorem lookup (call : Caller) (name : String) {s : ScopeId} (hs : r.Opens s) :
    Action.Gathers r (fun v ↦ ∀ u ∈ v, r.Has u) (Action.lookup call name s) := by
  refine read fun h hr ↦ ?_
  have hresolve : ∀ resolution ∈ h.resolve name s, r.Resolves resolution := hr.resolve hs
  split
  next b heq => exact pure fun u hu ↦ Option.some.inj hu ▸ hresolve _ heq
  next target heq =>
    exact (getProperty call (hresolve _ heq) name).map fun v hv u hu ↦ Option.some.inj hu ▸ hv
  next => exact pure nofun

theorem readName (call : Caller) (name : String) {s : ScopeId} (hs : r.Opens s) :
    Action.Gathers r r.Has (Action.read call name s) := by
  refine (lookup call name hs).bind fun v hv ↦ ?_
  cases v with
  | some u => exact pure (hv u rfl)
  | none => exact unbound name

/-! ### Operators -/

theorem unary (op : UnaryOp) (v : Value) : Action.Gathers r r.Has (Action.unary op v) := by
  cases op with
  | neg | plus | bitNot => exact (number v).map fun _ _ ↦ trivial
  | not | typeof | void => exact pure trivial

theorem binary (op : BinaryOp) (a b : Value) : Action.Gathers r r.Has (Action.binary op a b) := by
  have hnumbers (f : Float → Float → Value) (hf : ∀ x y, r.Has (f x y)) :
      Action.Gathers r r.Has
        (do return f (← Action.number a) (← Action.number b)) :=
    (number a).bind fun x _ ↦ (number b).map fun y _ ↦ hf x y
  have hordered (accept : Ordering → Bool) :
      Action.Gathers r r.Has (Action.ordered accept a b) := read fun _ _ ↦ pure trivial
  cases op with
  | add =>
    refine read fun h _ ↦ ?_
    dsimp only
    split <;> exact pure trivial
  | isIn =>
    refine read fun h _ ↦ ?_
    cases b with
    | object o | array a => exact pure trivial
    | _ => exact typeError _
  | eq | ne => exact read fun _ _ ↦ pure trivial
  | strictEq | strictNe => exact pure trivial
  | lt | le | gt | ge => exact hordered _
  | sub | mul | div | rem | exp => exact hnumbers (fun x y ↦ .number _) fun _ _ ↦ trivial
  | shl | shr | ushr | bitOr | bitXor | bitAnd =>
    exact hnumbers (fun x y ↦ .number _) fun _ _ ↦ trivial

end Action.Gathers

end Nodecraft.Sandbox
