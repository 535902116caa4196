import Nodecraft.Proofs.Pairing.Action

/-!
# Heaps and themselves

Pairings of which every cell is its own counterpart, if it has any. What is alike along such a
pairing is equal, but for scopes, of which only what code may mention is compared
(`Value.Alike.eq` and the lemmas after it).

A heap is like itself along three of them. `Pairing.total` pairs all cells and allows everything,
so that any heap is like itself along it. `Pairing.own h` pairs the cells of a heap; the heap is like
itself along it if every cell that a cell names is one of them (`Heap.Closed`), and whatever scripts
do to such a heap leaves one (`World.Closed.after`). `Pairing.upTo n` pairs all cells but for scopes, of
which it pairs the first ones.
-/

set_option autoImplicit false

namespace Nodecraft.Sandbox

open Script

/-- Cells have no other counterparts than themselves. -/
structure Pairing.Diagonal (p : Pairing) : Prop where
  array {a a' : Nat} : p.array a a' → a = a'
  object {o o' : Nat} : p.object o o' → o = o'
  function {f f' : Nat} : p.function f f' → f = f'
  scope {s s' : Nat} : p.scope s s' → s = s'
  switch {s s' : Nat} : p.switch s s' → s = s'

/-- Heaps whose cells were allocated in step are paired cell by cell with the same numbers. -/
theorem Heap.Alike.diagonal {p : Pairing} {h h' : Heap} (hh : Heap.Alike p h h')
    (hp : p.aligned = true) : p.Diagonal where
  array := (hh.measured.straight hp).arrays.2 _ _
  object := (hh.measured.straight hp).objects.2 _ _
  function := (hh.measured.straight hp).functions.2 _ _
  scope := (hh.measured.straight hp).scopes.2 _ _
  switch := (hh.measured.straight hp).switches.2 _ _

/-! ### What is alike along the diagonal -/

section

variable {α β γ : Type} {p : Pairing} {Q : Pairing → α → α → Prop} {R : Pairing → γ → γ → Prop}

theorem OptionAlike.eq {x y : Option α} (h : OptionAlike Q p x y)
    (hQ : ∀ {a b}, Q p a b → a = b) : x = y := by
  cases h with
  | some h => exact congrArg some (hQ h)
  | none => rfl

theorem ListAlike.eq {xs ys : List α} (h : ListAlike Q p xs ys)
    (hQ : ∀ {a b}, Q p a b → a = b) : xs = ys :=
  List.forall₂_eq_eq_eq ▸ h.imp fun _ _ ↦ hQ

theorem PairAlike.eq {x y : α × γ} (h : PairAlike Q R p x y) (hQ : ∀ {a b}, Q p a b → a = b)
    (hR : ∀ {a b}, R p a b → a = b) : x = y :=
  Prod.ext (hQ h.1) (hR h.2)

theorem FieldsAlike.eq {xs ys : Fields α} (h : FieldsAlike Q p xs ys)
    (hQ : ∀ {a b}, Q p a b → a = b) : xs = ys :=
  ListAlike.eq h fun hf ↦ hf.eq (fun hk ↦ hk) hQ

theorem ArrayAlike.eq {xs ys : Array α} (h : ArrayAlike Q p xs ys)
    (hQ : ∀ {a b}, Q p a b → a = b) : xs = ys :=
  Array.toList_inj.1 (ListAlike.eq h hQ)

end

section

variable {p : Pairing} (hp : p.Diagonal)

include hp

/-- Along the diagonal only equal values are paired. -/
theorem Value.Alike.eq {v v' : Value} (h : Value.Alike p v v') : v = v' := by
  cases h with
  | @array a a' h => rw [show a = a' from congrArg ArrayId.mk (hp.array h)]
  | @object o o' h => rw [show o = o' from congrArg ObjectId.mk (hp.object h)]
  | @function f f' h => rw [show f = f' from congrArg FunctionId.mk (hp.function h)]
  | _ => rfl

theorem ObjectKind.Alike.eq {k k' : ObjectKind} (h : ObjectKind.Alike p k k') : k = k' := by
  cases h with
  | computed hg hs => rw [hg.eq hp, OptionAlike.eq hs (Value.Alike.eq hp)]
  | _ => rfl

theorem Object.Alike.eq {o o' : Object} (h : Object.Alike p o o') : o = o' := by
  obtain ⟨kind, fields, frozen⟩ := o
  obtain ⟨kind', fields', frozen'⟩ := o'
  rw [Object.mk.injEq]
  exact ⟨h.kind.eq hp, FieldsAlike.eq h.fields (Value.Alike.eq hp), h.frozen⟩

theorem Native.Alike.eq {n n' : Native} (h : Native.Alike p n n') : n = n' := by
  cases h with
  | plain _ => rfl
  | stop hs =>
    cases hs with
    | none => rfl
    | @some s s' hs => rw [show s = s' from congrArg SwitchId.mk (hp.switch hs)]
  | path _ hv => rw [hv.eq hp]

theorem Function.Alike.eq {f f' : Function} (h : Function.Alike p f f') : f = f' := by
  cases h with
  | @closure _ s s' hs => rw [show s = s' from congrArg ScopeId.mk (hp.scope hs.scope)]
  | native hn => rw [hn.eq hp]
  | @bound f f' _ _ hf hself =>
    rw [show f = f' from congrArg FunctionId.mk (hp.function hf), hself.eq hp]

theorem Binding.Alike.eq {b b' : Binding} (h : Binding.Alike p b b') : b = b' := by
  obtain ⟨value, mutable⟩ := b
  obtain ⟨value', mutable'⟩ := b'
  rw [Binding.mk.injEq]
  exact ⟨h.value.eq hp, h.mutable⟩

theorem Scope.Alike.parent_eq {allowed : Mention → Prop} {scope scope' : Scope}
    (h : Scope.Alike p allowed scope scope') : scope.parent = scope'.parent := by
  have hparent := h.parent
  generalize scope.parent = left, scope'.parent = right at hparent
  cases hparent with
  | none => rfl
  | @some t t' ht => rw [show t = t' from congrArg ScopeId.mk (hp.scope ht.1)]

theorem ScriptError.Alike.eq {e e' : ScriptError} (h : ScriptError.Alike p e e') : e = e' := by
  cases h with
  | thrown _ hv => rw [hv.eq hp]
  | _ => rfl

theorem Failure.Alike.eq {e e' : Failure} (h : Failure.Alike p e e') : e = e' := by
  cases h with
  | raised he => rw [he.eq hp]
  | _ => rfl

theorem WatchSource.Alike.eq {s s' : WatchSource} (h : WatchSource.Alike p s s') : s = s' := by
  cases h with
  | getter hv | cell hv | value hv | effect hv => rw [hv.eq hp]

theorem Watcher.Alike.eq {w w' : Watcher} (h : Watcher.Alike p w w') : w = w' := by
  obtain ⟨source, callback, last, snapshot, switch⟩ := w
  obtain ⟨source', callback', last', snapshot', switch'⟩ := w'
  rw [Watcher.mk.injEq]
  exact ⟨h.source.eq hp, h.callback.eq hp, h.last.eq hp, h.snapshot,
    congrArg SwitchId.mk (hp.switch h.switch)⟩

theorem HookRegistry.Alike.eq {r r' : HookRegistry} (h : HookRegistry.Alike p r r') : r = r' := by
  obtain ⟨hooks, watchers⟩ := r
  obtain ⟨hooks', watchers'⟩ := r'
  rw [HookRegistry.mk.injEq]
  exact ⟨ArrayAlike.eq h.hooks fun hf ↦ hf.eq (fun hk ↦ hk) (Value.Alike.eq hp),
    ArrayAlike.eq h.watchers (Watcher.Alike.eq hp)⟩

/-- Along the diagonal only equal runs are paired. -/
theorem Run.Alike.eq {r r' : Run} (h : Run.Alike p r r') : r = r' := by
  obtain ⟨limits, depth, steps, nesting, ticks, hooks, props⟩ := r
  obtain ⟨limits', depth', steps', nesting', ticks', hooks', props'⟩ := r'
  rw [Run.mk.injEq]
  exact ⟨h.limits, h.depth, h.steps, h.nesting, ArrayAlike.eq h.ticks (Value.Alike.eq hp),
    OptionAlike.eq h.hooks (HookRegistry.Alike.eq hp), h.props.eq hp⟩

end

/-! ### Everything is like itself -/

/-- Every cell but scopes is its own counterpart. -/
structure Pairing.Reflexive (p : Pairing) : Prop where
  array (a : Nat) : p.array a a
  object (o : Nat) : p.object o o
  function (f : Nat) : p.function f f
  switch (s : Nat) : p.switch s s

theorem Pairing.Reflexive.mono {p q : Pairing} (h : p.Reflexive) (hle : p ≤ q) : q.Reflexive :=
  ⟨fun a ↦ hle.array (h.array a), fun o ↦ hle.object (h.object o),
    fun f ↦ hle.function (h.function f), fun s ↦ hle.switch (h.switch s)⟩

section

variable {α : Type} {p : Pairing} {Q : Pairing → α → α → Prop}

theorem OptionAlike.refl (hQ : ∀ a, Q p a a) (x : Option α) : OptionAlike Q p x x := by
  cases x with
  | none => exact .none
  | some a => exact .some (hQ a)

theorem ListAlike.refl (hQ : ∀ a, Q p a a) (xs : List α) : ListAlike Q p xs xs :=
  List.forall₂_same.2 fun a _ ↦ hQ a

theorem FieldsAlike.refl (hQ : ∀ a, Q p a a) (xs : Fields α) : FieldsAlike Q p xs xs :=
  ListAlike.refl (fun f ↦ ⟨rfl, hQ f.2⟩) xs

end

section

variable {p : Pairing} (hp : p.Reflexive)

include hp

/-- A reflexive pairing pairs every value with itself. -/
theorem Value.Alike.refl (v : Value) : Value.Alike p v v := by
  cases v with
  | undefined => exact .undefined
  | null => exact .null
  | bool b => exact .bool b
  | number x => exact .number x
  | string s => exact .string s
  | array a => exact .array (hp.array _)
  | object o => exact .object (hp.object _)
  | function f => exact .function (hp.function _)

theorem Object.Alike.refl (o : Object) : Object.Alike p o o where
  kind := by
    cases o.kind with
    | plain => exact .plain
    | ref => exact .ref
    | computed getter setter =>
      exact .computed (Value.Alike.refl hp _) (OptionAlike.refl (Value.Alike.refl hp) _)
    | state => exact .state
  fields := FieldsAlike.refl (Value.Alike.refl hp) _
  frozen := rfl

theorem Native.Alike.refl (n : Native) : Native.Alike p n n := by
  cases n with
  | stop switch =>
    refine .stop ?_
    cases switch with
    | none => exact .none
    | some s => exact .some (hp.switch _)
  | path root segments => exact .path segments (Value.Alike.refl hp root)
  | _ => exact .plain trivial

theorem WatchSource.Alike.refl (s : WatchSource) : WatchSource.Alike p s s := by
  cases s with
  | getter f => exact .getter (Value.Alike.refl hp f)
  | cell v => exact .cell (Value.Alike.refl hp v)
  | value v => exact .value (Value.Alike.refl hp v)
  | effect f => exact .effect (Value.Alike.refl hp f)

theorem HookRegistry.Alike.refl (r : HookRegistry) : HookRegistry.Alike p r r where
  hooks := ListAlike.refl (fun _ ↦ ⟨rfl, Value.Alike.refl hp _⟩) _
  watchers := ListAlike.refl (fun w ↦ ⟨WatchSource.Alike.refl hp w.source,
    Value.Alike.refl hp w.callback, Value.Alike.refl hp w.last, rfl, hp.switch _⟩) _

/-- A reflexive pairing pairs every run with itself. -/
theorem Run.Alike.refl (r : Run) : Run.Alike p r r where
  limits := rfl
  depth := rfl
  steps := rfl
  nesting := rfl
  ticks := ListAlike.refl (Value.Alike.refl hp) _
  hooks := OptionAlike.refl (HookRegistry.Alike.refl hp) _
  props := Value.Alike.refl hp _

end

/-! ### Pairings of a heap with itself -/

theorem Cells.Alike.diagonal {α : Type} {d : α} {R : Nat → Nat → Prop} {C : Nat → α → α → Prop}
    {xs : Array α} (hR : ∀ {a a'}, R a a' → a = a')
    (hC : ∀ a, R a a → C a (xs.getD a d) (xs.getD a d)) : Cells.Alike d R C xs xs where
  injective ha hb := by
    obtain rfl := hR ha
    obtain rfl := hR hb
    exact Iff.rfl
  frontier ha _ := by
    obtain rfl := hR ha
    exact Iff.rfl
  content ha := by
    obtain rfl := hR ha
    exact hC _ ha

namespace Pairing

/-- All cells, and everything is allowed. -/
def total : Pairing := ⟨true, Eq, Eq, Eq, Eq, Eq, fun _ _ ↦ True⟩

/-- The cells of a heap. -/
def own (h : Heap) : Pairing where
  aligned := true
  array a a' := a = a' ∧ a < h.arrays.size
  object o o' := o = o' ∧ o < h.objects.size
  function f f' := f = f' ∧ f < h.functions.size
  scope s s' := s = s' ∧ s < h.scopes.size
  switch s s' := s = s' ∧ s < h.switches.size
  allows s _ := s < h.scopes.size

/-- All cells, but of the scopes only the first ones. -/
def upTo (n : Nat) : Pairing := ⟨true, Eq, Eq, Eq, fun s s' ↦ s = s' ∧ s < n, Eq, fun s _ ↦ s < n⟩

theorem reflexive_total : total.Reflexive := ⟨fun _ ↦ rfl, fun _ ↦ rfl, fun _ ↦ rfl, fun _ ↦ rfl⟩

theorem reflexive_upTo (n : Nat) : (upTo n).Reflexive :=
  ⟨fun _ ↦ rfl, fun _ ↦ rfl, fun _ ↦ rfl, fun _ ↦ rfl⟩

theorem own_le_upTo (h : Heap) : own h ≤ upTo h.scopes.size where
  aligned := rfl
  array ha := ha.1
  object ho := ho.1
  function hf := hf.1
  scope hs := hs
  switch hs := hs.1
  allows _ _ := Iff.rfl

end Pairing

open Pairing

/-- Any heap is like itself. -/
theorem Heap.alike_total (h : Heap) : Heap.Alike total h h where
  arrays := .diagonal id fun _ _ ↦ ListAlike.refl (Value.Alike.refl reflexive_total) _
  objects := .diagonal id fun _ _ ↦ Object.Alike.refl reflexive_total _
  functions := .diagonal id fun f _ ↦ by
    cases h.functions.getD f _ with
    | closure code s => exact .closure ⟨rfl, fun _ ↦ trivial⟩
    | native n => exact .native (Native.Alike.refl reflexive_total n)
    | bound t self => exact .bound rfl (Value.Alike.refl reflexive_total self)
  scopes := .diagonal id fun s _ ↦
    { binding := fun _ ↦ OptionAlike.refl (fun b ↦ ⟨Value.Alike.refl reflexive_total b.value, rfl⟩) _
      parent := by
        cases (h.scopes.getD s _).parent with
        | none => exact .none
        | some t => exact .some ⟨rfl, fun _ ↦ Iff.rfl⟩
      fallback := OptionAlike.refl (Value.Alike.refl reflexive_total) _
      self := OptionAlike.refl (Value.Alike.refl reflexive_total) _
      isFunction := rfl
      unbound := fun hname ↦ absurd trivial hname }
  switches := .diagonal id fun _ _ ↦ rfl
  total _ _ _ _ := trivial
  measured := ⟨⟨rfl, fun _ _ ↦ id⟩, ⟨rfl, fun _ _ ↦ id⟩, ⟨rfl, fun _ _ ↦ id⟩,
    ⟨rfl, fun _ _ ↦ id⟩, ⟨rfl, fun _ _ ↦ id⟩⟩

/-- The pairing of all cells pairs every world with itself. -/
theorem World.alike_total (w : World) : World.Alike total w w :=
  ⟨w.heap.alike_total, Run.Alike.refl reflexive_total w.run⟩

/-- Along the pairing of no cells any heap is like itself. -/
theorem Heap.alike_own_empty (h : Heap) : Heap.Alike (own .empty) h h where
  arrays := .diagonal And.left fun _ ha ↦ nomatch ha.2
  objects := .diagonal And.left fun _ ho ↦ nomatch ho.2
  functions := .diagonal And.left fun _ hf ↦ nomatch hf.2
  scopes := .diagonal And.left fun _ hs ↦ nomatch hs.2
  switches := .diagonal And.left fun _ hs ↦ nomatch hs.2
  total hs _ := nomatch hs.2
  measured := ⟨⟨rfl, fun _ _ ↦ And.left⟩, ⟨rfl, fun _ _ ↦ And.left⟩, ⟨rfl, fun _ _ ↦ And.left⟩,
    ⟨rfl, fun _ _ ↦ And.left⟩, ⟨rfl, fun _ _ ↦ And.left⟩⟩

/-- Every cell that a cell of the heap names is one of its cells. -/
def Heap.Closed (h : Heap) : Prop := Heap.Alike (own h) h h

theorem Heap.closed_empty : Heap.empty.Closed := Heap.empty.alike_own_empty

/-- Cells that are not there have contents that name no others. -/
theorem Cells.getD_of_le {α : Type} {xs : Array α} {i : Nat} (h : xs.size ≤ i) (d : α) :
    xs.getD i d = d := by
  simp [Array.getD, Nat.not_lt_of_le h]

/-- What holds of the contents of all cells and of no content holds everywhere. -/
theorem Cells.Alike.everywhere {α : Type} {d : α} {R : Nat → Nat → Prop}
    {C D : Nat → α → α → Prop} {xs : Array α} (h : Cells.Alike d R C xs xs)
    (hR : ∀ a, a < xs.size → R a a) (hCD : ∀ {a x x'}, C a x x' → D a x x')
    (hd : ∀ a, D a d d) : Cells.Alike d Eq D xs xs :=
  .diagonal id fun a _ ↦ by
    by_cases ha : a < xs.size
    · exact hCD (h.content (hR a ha))
    · rw [getD_of_le (Nat.le_of_not_lt ha)]
      exact hd a

/-- A closed heap is paired with itself up to its number of scopes. -/
theorem Heap.Closed.alike_upTo {h : Heap} (hh : h.Closed) :
    Heap.Alike (upTo h.scopes.size) h h where
  arrays := hh.arrays.everywhere (fun _ ha ↦ ⟨rfl, ha⟩) (Stable.mono (own_le_upTo h))
    fun _ ↦ .nil
  objects := hh.objects.everywhere (fun _ ho ↦ ⟨rfl, ho⟩) (Stable.mono (own_le_upTo h))
    fun _ ↦ ⟨.plain, .nil, rfl⟩
  functions := hh.functions.everywhere (fun _ hf ↦ ⟨rfl, hf⟩) (Stable.mono (own_le_upTo h))
    fun _ ↦ .native (.plain trivial)
  scopes := hh.scopes.mono fun _ hs ↦ hs.mono (own_le_upTo h) fun _ ↦ Iff.rfl
  switches := hh.switches.everywhere (fun _ hs ↦ ⟨rfl, hs⟩) id fun _ ↦ rfl
  total hs hsize := absurd hs.2 (Nat.not_lt_of_le hsize)
  measured := ⟨⟨rfl, fun _ _ ↦ id⟩, ⟨rfl, fun _ _ ↦ id⟩, ⟨rfl, fun _ _ ↦ id⟩,
    ⟨rfl, fun _ _ ↦ And.left⟩, ⟨rfl, fun _ _ ↦ id⟩⟩

/-! ### What scripts do to closed heaps -/

/-- Pairs of the cells of an array have become pairs of all its cells. -/
theorem Cells.Kept.own_iff {α : Type} {d : α} {R S : Nat → Nat → Prop} {xs ys : Array α}
    (h : Cells.Kept d R S xs ys) (hR : ∀ {a a'}, R a a' ↔ a = a' ∧ a < xs.size)
    (hS : ∀ {a a'}, S a a' → a = a') {a a' : Nat} : S a a' ↔ a = a' ∧ a < ys.size := by
  constructor
  · intro ha
    refine ⟨hS ha, ?_⟩
    rcases h.fresh ha with hold | hnew
    · exact Nat.lt_of_lt_of_le (hR.1 hold).2 h.size_le
    · exact hnew.2
  · rintro ⟨rfl, ha⟩
    by_cases hold : a < xs.size
    · exact h.mono (hR.2 ⟨rfl, hold⟩)
    · obtain ⟨b, hb⟩ := h.covered (Nat.le_of_not_lt hold) ha
      rwa [← hS hb] at hb

variable {h h₁ : Heap} {q : Pairing}

/-- The pairing of a heap's own cells has become that of the cells of the later heap. -/
theorem Grows.le_own (hg : Grows (own h) h q h₁) (hq : q.Diagonal) : q ≤ own h₁ where
  aligned := hg.aligned.symm
  array := (hg.arrays.own_iff Iff.rfl hq.array).1
  object := (hg.objects.own_iff Iff.rfl hq.object).1
  function := (hg.functions.own_iff Iff.rfl hq.function).1
  scope := (hg.scopes.own_iff Iff.rfl hq.scope).1
  switch := (hg.switches.own_iff Iff.rfl hq.switch).1
  allows hs m := by
    obtain ⟨t, t', ht, hallows⟩ := hg.origin hs
    exact iff_of_true ((hg.scopes.own_iff Iff.rfl hq.scope).1 hs).2 ((hallows m).2 ht.2)

theorem Grows.own_le (hg : Grows (own h) h q h₁) (hq : q.Diagonal) : own h₁ ≤ q where
  aligned := hg.aligned
  array := (hg.arrays.own_iff Iff.rfl hq.array).2
  object := (hg.objects.own_iff Iff.rfl hq.object).2
  function := (hg.functions.own_iff Iff.rfl hq.function).2
  scope := (hg.scopes.own_iff Iff.rfl hq.scope).2
  switch := (hg.switches.own_iff Iff.rfl hq.switch).2
  allows hs m := ((hg.le_own hq).allows ((hg.scopes.own_iff Iff.rfl hq.scope).2 hs) m).symm

/-- A heap paired with itself by its own cells is closed. -/
theorem Heap.Alike.closed (hh : Heap.Alike q h₁ h₁) (hle : q ≤ own h₁) (hge : own h₁ ≤ q) :
    h₁.Closed where
  arrays := .diagonal And.left fun _ ha ↦ Stable.mono hle (hh.arrays.content (hge.array ha))
  objects := .diagonal And.left fun _ ho ↦ Stable.mono hle (hh.objects.content (hge.object ho))
  functions := .diagonal And.left fun _ hf ↦
    Stable.mono hle (hh.functions.content (hge.function hf))
  scopes := .diagonal And.left fun _ hs ↦
    (hh.scopes.content (hge.scope hs)).mono hle (hle.allows (hge.scope hs))
  switches := .diagonal And.left fun _ _ ↦ rfl
  total hs hsize := absurd hs.2 (Nat.not_lt_of_le hsize)
  measured := ⟨⟨rfl, fun _ _ ↦ And.left⟩, ⟨rfl, fun _ _ ↦ And.left⟩, ⟨rfl, fun _ _ ↦ And.left⟩,
    ⟨rfl, fun _ _ ↦ And.left⟩, ⟨rfl, fun _ _ ↦ And.left⟩⟩

/-- A closed heap moved on along its own cells is closed again. -/
theorem Heap.Moves.closed (hm : Heap.Moves (own h) h q h₁ h₁) : h₁.Closed :=
  have hq := hm.alike.diagonal hm.grows.aligned
  hm.alike.closed (hm.grows.le_own hq) (hm.grows.own_le hq)

theorem Heap.Moves.le_own (hm : Heap.Moves (own h) h q h₁ h₁) : q ≤ own h₁ :=
  hm.grows.le_own (hm.alike.diagonal hm.grows.aligned)

theorem Heap.Moves.own_le_own (hm : Heap.Moves (own h) h q h₁ h₁) : own h ≤ own h₁ :=
  Pairing.le_trans hm.grows.le hm.le_own

/-- A root scope may be added whose values are cells of the heap. -/
theorem Heap.Closed.newScope (hh : h.Closed) {scope : Scope}
    (hscope : Scope.Alike (own h) (fun _ ↦ True) scope scope) :
    (h.newScope scope).2.Closed ∧ own h ≤ own (h.newScope scope).2 := by
  have hall : (∀ t m, (own h).allows t m) → ∀ m : Mention, True := fun _ _ ↦ trivial
  have hsize : (h.newScope scope).2.scopes.size = h.scopes.size + 1 := by simp [Heap.newScope]
  have hscopes {s s' : Nat} : Cells.extend (own h).scope h.scopes.size h.scopes.size s s' ↔
      (own (h.newScope scope).2).scope s s' := by
    change (s = s' ∧ s < h.scopes.size) ∨ (s = h.scopes.size ∧ s' = h.scopes.size) ↔
      s = s' ∧ s < (h.newScope scope).2.scopes.size
    omega
  have hallows {s s' : Nat} (hs : (own (h.newScope scope).2).scope s s') (m : Mention) :
      (own (h.newScope scope).2).allows s m ↔
        ((own h).withScope h.scopes.size h.scopes.size fun _ ↦ True).allows s m := by
    refine iff_of_true hs.2 ?_
    by_cases hne : s = h.scopes.size
    · rw [hne, Pairing.withScope_allows_self]
      trivial
    · refine (Pairing.withScope_allows_of_ne hne m).2 ?_
      have := hs.2
      change s < h.scopes.size
      omega
  have hle : (own h).withScope h.scopes.size h.scopes.size (fun _ ↦ True) ≤
      own (h.newScope scope).2 :=
    ⟨rfl, id, id, id, hscopes.1, id, fun hs ↦ hallows (hscopes.1 hs)⟩
  exact ⟨(Heap.Alike.newScope hh hall hscope).closed hle
    ⟨rfl, id, id, id, hscopes.2, id, fun hs m ↦ (hallows hs m).symm⟩,
    Pairing.le_trans (Heap.Alike.le_withScope hh _ hall) hle⟩

/-- Every cell that the world's heap or its interpreter names is a cell of the heap. -/
def World.Closed (w : World) : Prop := World.Alike (own w.heap) w w

/-- Actions that use nothing but cells of a closed world leave one. -/
theorem World.Closed.after {α : Type} {Q : Pairing → α → α → Prop} [Stable Q] {w : World}
    (hw : w.Closed) {x : Action α} (hx : Action.Alike (own w.heap) Q x x) :
    (finalWorld (x w)).Closed ∧ own w.heap ≤ own (finalWorld (x w)).heap ∧
      ∀ a w₁, x w = .ok a w₁ → Q (own w₁.heap) a a := by
  obtain ⟨q, hg, hr⟩ := hx _ (Pairing.le_refl _) w w hw
  have hworld := hr.finalWorld
  have hq := hworld.heap.diagonal hg.aligned
  have hle := hg.le_own hq
  refine ⟨⟨hworld.heap.closed hle (hg.own_le hq), Stable.mono hle hworld.run⟩,
    Pairing.le_trans hg.le hle, fun a w₁ hok ↦ ?_⟩
  rw [hok] at hr hle
  cases hr with
  | ok ha _ => exact Stable.mono hle ha

end Nodecraft.Sandbox
