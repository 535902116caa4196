import Nodecraft.Proofs.Pairing.Basic
import Nodecraft.Proofs.Pairing.Heap
import Nodecraft.Sandbox.Property

/-!
# What can be read from heaps that are alike

Values that are alike have the same text, number, document, order and truth, and names that may be
looked up mean the same. So scripts cannot tell heaps apart that are alike: no reading depends on
the indices of cells, only on which cells are the same.

Reading and changing lists keeps them alike, place by place. What the library has about
`List.Forall₂` is used as it is.
-/

set_option autoImplicit false

namespace Nodecraft.Sandbox

variable {p : Pairing} {α β γ δ : Type} {Q : Pairing → α → β → Prop}
  {R : Pairing → γ → δ → Prop}

theorem OptionAlike.getD {x : Option α} {y : Option β} (hxy : OptionAlike Q p x y) {a : α} {b : β}
    (hab : Q p a b) : Q p (x.getD a) (y.getD b) := by
  cases hxy with
  | none => exact hab
  | some hxy => exact hxy

/-- Mapping paired options by functions that keep the relation gives paired options. -/
theorem OptionAlike.map {x : Option α} {y : Option β} (hxy : OptionAlike Q p x y) {f : α → γ}
    {g : β → δ} (hfg : ∀ a b, Q p a b → R p (f a) (g b)) :
    OptionAlike R p (x.map f) (y.map g) := by
  cases hxy with
  | none => exact .none
  | some hxy => exact .some (hfg _ _ hxy)

/-- The same option, read in both ways. -/
theorem OptionAlike.ofMap {x : Option γ} {f : γ → α} {g : γ → β} (hfg : ∀ c, Q p (f c) (g c)) :
    OptionAlike Q p (x.map f) (x.map g) := by
  cases x with
  | none => exact .none
  | some c => exact .some (hfg c)

theorem OptionAlike.any_eq {x : Option α} {y : Option β} (hxy : OptionAlike Q p x y) {f : α → Bool}
    {g : β → Bool} (hfg : ∀ a b, Q p a b → f a = g b) : x.any f = y.any g := by
  cases hxy with
  | none => rfl
  | some hxy => exact hfg _ _ hxy

theorem OptionAlike.filter {x : Option α} {y : Option β} (hxy : OptionAlike Q p x y) {f : α → Bool}
    {g : β → Bool} (hfg : ∀ a b, Q p a b → f a = g b) :
    OptionAlike Q p (x.filter f) (y.filter g) := by
  cases hxy with
  | none => exact .none
  | @some a b hxy =>
    rw [Option.filter_some, Option.filter_some, hfg a b hxy]
    split
    · exact .some hxy
    · exact .none

/-! ### Lists -/

namespace ListAlike

variable {xs : List α} {ys : List β} (hxs : ListAlike Q p xs ys)

/-- The same list, read in both ways. -/
theorem ofMap {zs : List γ} {f : γ → α} {g : γ → β} (hfg : ∀ c, Q p (f c) (g c)) :
    ListAlike Q p (zs.map f) (zs.map g) := by
  induction zs with
  | nil => exact .nil
  | cons c _ ih => exact .cons (hfg c) ih

include hxs

theorem map_eq {f : α → γ} {g : β → γ} (hfg : ∀ a b, Q p a b → f a = g b) :
    xs.map f = ys.map g := by
  induction hxs with
  | nil => rfl
  | cons hab _ ih => rw [List.map_cons, List.map_cons, hfg _ _ hab, ih]

theorem any_eq {f : α → Bool} {g : β → Bool} (hfg : ∀ a b, Q p a b → f a = g b) :
    xs.any f = ys.any g := by
  induction hxs with
  | nil => rfl
  | cons hab _ ih => rw [List.any_cons, List.any_cons, hfg _ _ hab, ih]

theorem findIdx?_eq {f : α → Bool} {g : β → Bool} (hfg : ∀ a b, Q p a b → f a = g b) :
    xs.findIdx? f = ys.findIdx? g := by
  induction hxs with
  | nil => rfl
  | cons hab _ ih => rw [List.findIdx?_cons, List.findIdx?_cons, hfg _ _ hab, ih]

theorem filter {f : α → Bool} {g : β → Bool} (hfg : ∀ a b, Q p a b → f a = g b) :
    ListAlike Q p (xs.filter f) (ys.filter g) := by
  induction hxs with
  | nil => exact .nil
  | @cons a b _ _ hab _ ih =>
    rw [List.filter_cons, List.filter_cons, hfg a b hab]
    split
    · exact .cons hab ih
    · exact ih

theorem exists_mem {a : α} (ha : a ∈ xs) : ∃ b ∈ ys, Q p a b := by
  induction hxs with
  | nil => exact absurd ha List.not_mem_nil
  | @cons c d _ _ hcd _ ih =>
    rcases List.mem_cons.1 ha with rfl | ha
    · exact ⟨d, List.mem_cons_self, hcd⟩
    · obtain ⟨b, hb, hab⟩ := ih ha
      exact ⟨b, List.mem_cons_of_mem _ hb, hab⟩

theorem exists_mem_left {b : β} (hb : b ∈ ys) : ∃ a ∈ xs, Q p a b := by
  induction hxs with
  | nil => exact absurd hb List.not_mem_nil
  | @cons c d _ _ hcd _ ih =>
    rcases List.mem_cons.1 hb with rfl | hb
    · exact ⟨c, List.mem_cons_self, hcd⟩
    · obtain ⟨a, ha, hab⟩ := ih hb
      exact ⟨a, List.mem_cons_of_mem _ ha, hab⟩

theorem length_eq : xs.length = ys.length := List.Forall₂.length_eq hxs

/-- Paired lists hold paired items at every index, or both end before it. -/
theorem getElem? : ∀ i : Nat, OptionAlike Q p xs[i]? ys[i]? := by
  induction hxs with
  | nil => exact fun _ ↦ .none
  | cons hab _ ih =>
    intro i
    cases i with
    | zero => exact .some hab
    | succ i => exact ih i

theorem getD (i : Nat) {a : α} {b : β} (hab : Q p a b) : Q p (xs.getD i a) (ys.getD i b) := by
  rw [List.getD_eq_getElem?_getD, List.getD_eq_getElem?_getD]
  exact OptionAlike.getD (hxs.getElem? i) hab

theorem head? : OptionAlike Q p xs.head? ys.head? := by
  cases hxs with
  | nil => exact .none
  | cons hab _ => exact .some hab

theorem headD {a : α} {b : β} (hab : Q p a b) : Q p (xs.headD a) (ys.headD b) := by
  cases hxs with
  | nil => exact hab
  | cons hab _ => exact hab

theorem tail : ListAlike Q p xs.tail ys.tail := by
  cases hxs with
  | nil => exact .nil
  | cons _ hrest => exact hrest

theorem getLast? : OptionAlike Q p xs.getLast? ys.getLast? := by
  rw [List.getLast?_eq_getElem?, List.getLast?_eq_getElem?, hxs.length_eq]
  exact hxs.getElem? _

theorem dropLast : ListAlike Q p xs.dropLast ys.dropLast := by
  rw [List.dropLast_eq_take, List.dropLast_eq_take, hxs.length_eq]
  exact List.forall₂_take _ hxs

theorem set {a : α} {b : β} (hab : Q p a b) : ∀ i, ListAlike Q p (xs.set i a) (ys.set i b) := by
  induction hxs with
  | nil => exact fun _ ↦ .nil
  | cons hcd hrest ih =>
    intro i
    cases i with
    | zero => exact .cons hab hrest
    | succ i => exact .cons hcd (ih i)

/-- Paired lists zipped with paired lists give paired lists of pairs. -/
theorem zip {zs : List γ} {us : List δ} (hzs : ListAlike R p zs us) :
    ListAlike (PairAlike Q R) p (xs.zip zs) (ys.zip us) := by
  induction hxs generalizing zs us with
  | nil => exact .nil
  | cons hab _ ih =>
    cases hzs with
    | nil => exact .nil
    | cons hcd hrest => exact .cons ⟨hab, hcd⟩ (ih hrest)

end ListAlike

/-! ### Arrays -/

namespace ArrayAlike

variable {xs : Array α} {ys : Array β} (hxs : ArrayAlike Q p xs ys)

theorem ofList {xs : List α} {ys : List β} (hxs : ListAlike Q p xs ys) :
    ArrayAlike Q p xs.toArray ys.toArray :=
  hxs

theorem replicate {a : α} {b : β} (hab : Q p a b) (n : Nat) :
    ArrayAlike Q p (Array.replicate n a) (Array.replicate n b) := by
  unfold ArrayAlike
  rw [Array.toList_replicate, Array.toList_replicate]
  induction n with
  | zero => exact .nil
  | succ n ih => exact .cons hab ih

include hxs

theorem size_eq : xs.size = ys.size := ListAlike.length_eq hxs

theorem getD (i : Nat) {a : α} {b : β} (hab : Q p a b) : Q p (xs.getD i a) (ys.getD i b) := by
  rw [Array.getD_eq_getD_getElem?, Array.getD_eq_getD_getElem?, ← Array.getElem?_toList,
    ← Array.getElem?_toList]
  exact OptionAlike.getD (ListAlike.getElem? hxs i) hab

theorem back? : OptionAlike Q p xs.back? ys.back? := by
  rw [← Array.getLast?_toList, ← Array.getLast?_toList]
  exact ListAlike.getLast? hxs

theorem pop : ArrayAlike Q p xs.pop ys.pop := by
  unfold ArrayAlike
  rw [Array.toList_pop, Array.toList_pop]
  exact ListAlike.dropLast hxs

theorem push {a : α} {b : β} (hab : Q p a b) : ArrayAlike Q p (xs.push a) (ys.push b) := by
  unfold ArrayAlike
  rw [Array.toList_push, Array.toList_push]
  exact List.rel_append hxs (.cons hab .nil)

theorem reverse : ArrayAlike Q p xs.reverse ys.reverse := by
  unfold ArrayAlike
  rw [Array.toList_reverse, Array.toList_reverse]
  exact List.rel_reverse hxs

theorem append {zs : Array α} {us : Array β} (hzs : ArrayAlike Q p zs us) :
    ArrayAlike Q p (xs ++ zs) (ys ++ us) := by
  unfold ArrayAlike
  rw [Array.toList_append, Array.toList_append]
  exact List.rel_append hxs hzs

/-- Storing paired values at one index keeps arrays paired. -/
theorem setIfInBounds (i : Nat) {a : α} {b : β} (hab : Q p a b) :
    ArrayAlike Q p (xs.setIfInBounds i a) (ys.setIfInBounds i b) := by
  unfold ArrayAlike
  rw [Array.toList_setIfInBounds, Array.toList_setIfInBounds]
  exact ListAlike.set hxs hab i

theorem extract (i j : Nat) : ArrayAlike Q p (xs.extract i j) (ys.extract i j) := by
  unfold ArrayAlike
  rw [Array.toList_extract, Array.toList_extract]
  exact List.forall₂_take _ (List.forall₂_drop _ hxs)

end ArrayAlike

theorem ArrayAlike.resized {xs ys : Array Value} (hxs : ArrayAlike Value.Alike p xs ys)
    (length : Nat) :
    ArrayAlike Value.Alike p (Action.resized xs length) (Action.resized ys length) := by
  unfold Action.resized
  rw [hxs.size_eq]
  split
  · exact hxs.extract _ _
  · exact hxs.append (.replicate .undefined _)

end Nodecraft.Sandbox

namespace Nodecraft.Sandbox

open Script

variable {p : Pairing} {h h' : Heap}

/-! ### Values alone -/

namespace Value.Alike

variable {v v' u u' : Value} (hv : Value.Alike p v v')

include hv

theorem isNullish_eq : v.isNullish = v'.isNullish := by
  cases hv <;> rfl

theorem isFunction_eq : v.isFunction = v'.isFunction := by
  cases hv <;> rfl

/-- Paired values are both truthy or both falsy. -/
theorem isTruthy_eq : v.isTruthy = v'.isTruthy := by
  cases hv <;> rfl

theorem typeName_eq : v.typeName = v'.typeName := by
  cases hv <;> rfl

end Value.Alike

theorem Native.Alike.name_eq {n n' : Native} (hn : Native.Alike p n n') : n.name = n'.name := by
  cases hn <;> rfl

theorem ObjectKind.Alike.isCell_eq {k k' : ObjectKind} (hk : ObjectKind.Alike p k k') :
    k.isCell = k'.isCell := by
  cases hk <;> rfl

theorem ObjectKind.Alike.isComputed_eq {k k' : ObjectKind} (hk : ObjectKind.Alike p k k') :
    k.isComputed = k'.isComputed := by
  cases hk <;> rfl

theorem ObjectKind.Alike.isPlain_eq {k k' : ObjectKind} (hk : ObjectKind.Alike p k k') :
    k.isPlain = k'.isPlain := by
  cases hk <;> rfl

namespace Heap.Alike

variable (hh : Heap.Alike p h h')

include hh

/-! ### Cells -/

theorem array {a a' : ArrayId} (ha : p.array a.index a'.index) :
    ArrayAlike Value.Alike p (h.array a) (h'.array a') :=
  hh.arrays.content ha

theorem object {o o' : ObjectId} (ho : p.object o.index o'.index) :
    Object.Alike p (h.object o) (h'.object o') :=
  hh.objects.content ho

theorem function {f f' : FunctionId} (hf : p.function f.index f'.index) :
    Function.Alike p (h.function f) (h'.function f') :=
  hh.functions.content hf

/-- Paired scopes of paired heaps are alike for the mentions their code may make. -/
theorem scope {s s' : ScopeId} (hs : p.scope s.index s'.index) :
    Scope.Alike p (p.allows s.index) (h.scope s) (h'.scope s') :=
  hh.scopes.content hs

/-- Paired objects hold paired values under a key, or neither has the key. -/
theorem own? {o o' : ObjectId} (ho : p.object o.index o'.index) (key : String) :
    OptionAlike Value.Alike p (h.own? o key) (h'.own? o' key) :=
  (hh.object ho).fields.get? key

/-- The payload of a cell. -/
theorem ownValue {o o' : ObjectId} (ho : p.object o.index o'.index) (key : String) :
    Value.Alike p ((h.own? o key).getD .undefined) ((h'.own? o' key).getD .undefined) :=
  (hh.own? ho key).getD .undefined

theorem arrayId_beq {a a' b b' : ArrayId} (ha : p.array a.index a'.index)
    (hb : p.array b.index b'.index) : (a == b) = (a' == b') := by
  have hiff := hh.arrays.injective ha hb
  rw [Bool.eq_iff_iff, beq_iff_eq, beq_iff_eq, ArrayId.mk.injEq, ArrayId.mk.injEq]
  exact hiff

theorem objectId_beq {a a' b b' : ObjectId} (ha : p.object a.index a'.index)
    (hb : p.object b.index b'.index) : (a == b) = (a' == b') := by
  have hiff := hh.objects.injective ha hb
  rw [Bool.eq_iff_iff, beq_iff_eq, beq_iff_eq, ObjectId.mk.injEq, ObjectId.mk.injEq]
  exact hiff

theorem functionId_beq {a a' b b' : FunctionId} (ha : p.function a.index a'.index)
    (hb : p.function b.index b'.index) : (a == b) = (a' == b') := by
  have hiff := hh.functions.injective ha hb
  rw [Bool.eq_iff_iff, beq_iff_eq, beq_iff_eq, FunctionId.mk.injEq, FunctionId.mk.injEq]
  exact hiff

/-- Strict equality answers alike of paired values, since a pairing is one to one. -/
theorem strictEquals_eq {v v' u u' : Value} (hv : Value.Alike p v v') (hu : Value.Alike p u u') :
    v.strictEquals u = v'.strictEquals u' := by
  cases hv with
  | array ha =>
    cases hu with
    | array hb => exact hh.arrayId_beq ha hb
    | _ => rfl
  | object ha =>
    cases hu with
    | object hb => exact hh.objectId_beq ha hb
    | _ => rfl
  | function ha =>
    cases hu with
    | function hb => exact hh.functionId_beq ha hb
    | _ => rfl
  | _ => cases hu <;> rfl

theorem isCell_eq {v v' : Value} (hv : Value.Alike p v v') : h.isCell v = h'.isCell v' := by
  cases hv with
  | object ho => exact (hh.object ho).kind.isCell_eq
  | _ => rfl

theorem hasOwn_eq {v v' : Value} (hv : Value.Alike p v v') (key : String) :
    h.hasOwn v key = h'.hasOwn v' key := by
  cases hv with
  | object ho => exact (hh.object ho).fields.has_eq key
  | _ => rfl

/-- Paired values list the same keys in the same order. -/
theorem enumerableKeys_eq {v v' : Value} (hv : Value.Alike p v v') :
    h.enumerableKeys v = h'.enumerableKeys v' := by
  cases hv with
  | object ho => exact (hh.object ho).fields.keys_eq
  | array ha => simp only [Heap.enumerableKeys, (hh.array ha).size_eq]
  | _ => rfl

end Heap.Alike

/-! ### Following chains -/

/-- Two chains may be followed `n` and `n'` cells far from cells with the indices `i` and `i'`. -/
def Pairing.Reaches (p : Pairing) (h h' : Heap) (n n' i i' : Nat) : Prop :=
  n = n' ∨ (p.Layered h h' ∧ i < n ∧ i' < n')

theorem Pairing.Reaches.zero {n' i i' : Nat} (hr : p.Reaches h h' 0 n' i i') : n' = 0 := by
  rcases hr with h | ⟨-, h, -⟩ <;> omega

theorem Pairing.Reaches.succ {n n' i i' : Nat} (hr : p.Reaches h h' (n + 1) n' i i') :
    ∃ m, n' = m + 1 ∧
      ∀ {j j'}, (p.Layered h h' → j < i ∧ j' < i') → p.Reaches h h' n m j j' := by
  refine ⟨n' - 1, ?_, fun hj ↦ ?_⟩
  · rcases hr with h | ⟨-, -, h⟩ <;> omega
  · rcases hr with h | ⟨hl, h, h'⟩
    · exact .inl (by omega)
    · have := hj hl
      exact .inr ⟨hl, by omega, by omega⟩

theorem Pairing.Measured.reaches {i i' : Nat} (hm : p.Measured h h')
    (hi : p.Straight h h' → i = i') : p.Reaches h h' (i + 1) (i' + 1) i i' := by
  rcases hm.cases with hs | hl
  · exact .inl (by rw [hi hs])
  · exact .inr ⟨hl, Nat.lt_succ_self _, Nat.lt_succ_self _⟩

namespace Heap.Alike

variable (hh : Heap.Alike p h h')

include hh

theorem functionNameWithin_eq : ∀ {n n' : Nat} {f f' : FunctionId},
    p.function f.index f'.index → p.Reaches h h' n n' f.index f'.index →
    h.functionNameWithin n f = h'.functionNameWithin n' f' := by
  intro n
  induction n with
  | zero =>
    intro n' f f' _ hn
    obtain rfl := hn.zero
    rfl
  | succ n ih =>
    intro n' f f' hf hn
    obtain ⟨m, rfl, hnext⟩ := hn.succ
    have hfn := hh.function hf
    unfold Heap.functionNameWithin
    generalize hleft : h.function f = fn at hfn ⊢
    generalize hright : h'.function f' = fn' at hfn ⊢
    cases hfn with
    | closure _ => rfl
    | native hn => exact hn.name_eq
    | bound ht _ =>
      exact ih ht (hnext fun hl ↦
        ⟨hl.left.target ⟨_, hf⟩ hleft, hl.right.target ⟨_, hf⟩ hright⟩)

/-- Paired functions have the same name, however many functions are bound over them. -/
theorem functionName_eq {f f' : FunctionId} (hf : p.function f.index f'.index) :
    h.functionName f = h'.functionName f' :=
  hh.functionNameWithin_eq hf (hh.measured.reaches fun hs ↦ hs.functions.2 _ _ hf)

/-! ### Text and numbers -/

end Heap.Alike

/-- The same array or object, open on both sides. -/
inductive OpenCell.Alike (p : Pairing) : OpenCell → OpenCell → Prop
  | array {a a' : ArrayId} : p.array a.index a'.index → OpenCell.Alike p (.array a) (.array a')
  | object {o o' : ObjectId} : p.object o.index o'.index →
    OpenCell.Alike p (.object o) (.object o')

namespace Heap.Alike

variable (hh : Heap.Alike p h h')

include hh

theorem contains_eq {opened opened' : List OpenCell}
    (ho : ListAlike OpenCell.Alike p opened opened') {c c' : OpenCell} (hc : OpenCell.Alike p c c') :
    opened.contains c = opened'.contains c' := by
  rw [List.contains_eq_any_beq, List.contains_eq_any_beq]
  refine ho.any_eq fun d d' hd ↦ ?_
  cases hc with
  | array ha =>
    cases hd with
    | array hb =>
      have hiff := hh.arrays.injective ha hb
      rw [Bool.eq_iff_iff, beq_iff_eq, beq_iff_eq, OpenCell.array.injEq, OpenCell.array.injEq,
        ArrayId.mk.injEq, ArrayId.mk.injEq]
      exact hiff
    | object _ => rfl
  | object ha =>
    cases hd with
    | array _ => rfl
    | object hb =>
      have hiff := hh.objects.injective ha hb
      rw [Bool.eq_iff_iff, beq_iff_eq, beq_iff_eq, OpenCell.object.injEq, OpenCell.object.injEq,
        ObjectId.mk.injEq, ObjectId.mk.injEq]
      exact hiff

/-- The text of a value that refers to its own contents stops at paired cells, so paired values have one
text. -/
theorem textWithin_eq (room : Nat) : ∀ {opened opened' : List OpenCell} {v v' : Value},
    ListAlike OpenCell.Alike p opened opened' → Value.Alike p v v' →
    h.textWithin room opened v = h'.textWithin room opened' v' := by
  induction room with
  | zero =>
    intro opened opened' v v' _ hv
    cases hv with
    | function hf => simp only [Heap.textWithin, hh.functionName_eq hf]
    | @object o o' ho =>
      have hk := (hh.object ho).kind
      simp only [Heap.textWithin]
      generalize (h.object o).kind = k, (h'.object o').kind = k' at hk ⊢
      cases hk <;> rfl
    | _ => simp only [Heap.textWithin]
  | succ room ih =>
    intro opened opened' v v' hopened hv
    cases hv with
    | function hf => simp only [Heap.textWithin, hh.functionName_eq hf]
    | array ha =>
      simp only [Heap.textWithin, hh.contains_eq hopened (.array ha)]
      split
      · rfl
      · refine congrArg (",".intercalate ·) (ListAlike.map_eq (hh.array ha) fun u u' hu ↦ ?_)
        rw [hu.isNullish_eq, ih (.cons (.array ha) hopened) hu]
    | @object o o' ho =>
      have hk := (hh.object ho).kind
      have hvalue := ih (.cons (.object ho) hopened) (hh.ownValue ho "value")
      simp only [Heap.textWithin, hh.contains_eq hopened (.object ho), hvalue]
      generalize (h.object o).kind = k, (h'.object o').kind = k' at hk ⊢
      cases hk <;> rfl
    | _ => simp only [Heap.textWithin]

variable {v v' u u' : Value} (hv : Value.Alike p v v') (hu : Value.Alike p u u')

include hv in
theorem text_eq : h.text v = h'.text v' := hh.textWithin_eq _ .nil hv

theorem join_eq {a a' : ArrayId} (ha : p.array a.index a'.index) (separator : String) :
    h.join a separator = h'.join a' separator := by
  refine congrArg (separator.intercalate ·) (ListAlike.map_eq (hh.array ha) fun u u' hu ↦ ?_)
  rw [hu.isNullish_eq, hh.textWithin_eq (maxValueDepth - 1) (.cons (.array ha) .nil) hu]

theorem textReads_eq {target target' : ArrayId} (ht : p.array target.index target'.index)
    (room : Nat) : ∀ {opened opened' : List OpenCell} {v v' : Value},
    ListAlike OpenCell.Alike p opened opened' → Value.Alike p v v' →
    h.textReads target room opened v = h'.textReads target' room opened' v' := by
  induction room with
  | zero =>
    intro opened opened' v v' _ hv
    simp only [Heap.textReads]
  | succ room ih =>
    intro opened opened' v v' hopened hv
    cases hv with
    | array ha =>
      have hitems := ListAlike.any_eq (hh.array ha) fun u u' hu ↦
        ih (.cons (.array ha) hopened) hu
      simp only [Heap.textReads, hh.contains_eq hopened (.array ha), hh.arrayId_beq ha ht, hitems]
    | @object o o' ho =>
      have hk := (hh.object ho).kind
      have hvalue := ih (.cons (.object ho) hopened) (hh.ownValue ho "value")
      simp only [Heap.textReads, hh.contains_eq hopened (.object ho), hvalue]
      generalize (h.object o).kind = k, (h'.object o').kind = k' at hk ⊢
      cases hk <;> rfl
    | _ => simp only [Heap.textReads]

include hv in
/-- Paired values are read as the same number. -/
theorem number_eq : h.number v = h'.number v' := by
  have htext := hh.text_eq hv
  cases hv with
  | array ha => simp only [Heap.number, htext]
  | _ => rfl

include hv in
theorem numberReads_eq {target target' : ArrayId} (ht : p.array target.index target'.index) :
    h.numberReads target v = h'.numberReads target' v' := by
  cases hv with
  | array ha => exact hh.textReads_eq ht _ .nil (.array ha)
  | _ => rfl

include hv in
theorem key_eq : h.key v = h'.key v' := by
  have htext := hh.text_eq hv
  cases hv with
  | string s => rfl
  | number x => rfl
  | _ => exact htext

/-! ### Documents and what interpolations show -/

include hv in
theorem leftOut_eq : h.leftOut v = h'.leftOut v' := by
  cases hv with
  | object ho => exact (hh.object ho).kind.isComputed_eq
  | _ => rfl

/-- Paired values are read back as the same document, cycles cut at paired cells. -/
theorem documentWithin_eq (room : Nat) : ∀ {opened opened' : List OpenCell} {v v' : Value},
    ListAlike OpenCell.Alike p opened opened' → Value.Alike p v v' →
    h.documentWithin room opened v = h'.documentWithin room opened' v' := by
  induction room with
  | zero =>
    intro opened opened' v v' _ hv
    cases hv <;> simp only [Heap.documentWithin]
  | succ room ih =>
    intro opened opened' v v' hopened hv
    cases hv with
    | array ha =>
      have hitems := ListAlike.map_eq (hh.array ha) fun u u' hu ↦
        ih (.cons (.array ha) hopened) hu
      simp only [Heap.documentWithin, hh.contains_eq hopened (.array ha), hitems]
    | @object o o' ho =>
      have hk := (hh.object ho).kind
      have hvalue := ih (.cons (.object ho) hopened) (hh.ownValue ho "value")
      have hkept := (hh.object ho).fields.filter (f := fun f ↦ !h.leftOut f.2)
        (g := fun f ↦ !h'.leftOut f.2) fun f f' hf ↦ by rw [hh.leftOut_eq hf.2]
      have hfields := hkept.map_eq
        (f := fun f ↦ (f.1, h.documentWithin room (.object o :: opened) f.2))
        (g := fun f ↦ (f.1, h'.documentWithin room (.object o' :: opened') f.2)) fun f f' hf ↦ by
          rw [ih (.cons (.object ho) hopened) hf.2, show f.1 = f'.1 from hf.1]
      simp only [Heap.documentWithin, hh.contains_eq hopened (.object ho), hvalue, hfields]
      generalize (h.object o).kind = k, (h'.object o').kind = k' at hk ⊢
      cases hk <;> rfl
    | _ => simp only [Heap.documentWithin]

include hv in
theorem document_eq : h.document v = h'.document v' := hh.documentWithin_eq _ .nil hv

/-- Paired values carry paired payloads, or neither carries one. -/
theorem payload?_alike (fuel : Nat) : ∀ {v v' : Value}, Value.Alike p v v' →
    OptionAlike Value.Alike p (h.payload? fuel v) (h'.payload? fuel v') := by
  induction fuel with
  | zero =>
    intro v v' _
    exact .none
  | succ fuel ih =>
    intro v v' hv
    cases hv with
    | object ho =>
      simp only [Heap.payload?, (hh.object ho).kind.isCell_eq]
      split
      · exact ih (hh.ownValue ho "value")
      · exact .some (.object ho)
    | undefined => exact .some .undefined
    | null => exact .some .null
    | bool b => exact .some (.bool b)
    | number x => exact .some (.number x)
    | string s => exact .some (.string s)
    | array ha => exact .some (.array ha)
    | function hf => exact .some (.function hf)

/-! ### Equality and order -/

include hv in
theorem display_eq : h.display v = h'.display v' := by
  have hpayload := hh.payload?_alike maxValueDepth hv
  unfold Heap.display
  generalize h.payload? maxValueDepth v = left, h'.payload? maxValueDepth v' = right at hpayload
  cases hpayload with
  | none => rfl
  | some hu =>
    have htext := hh.text_eq hu
    have hdocument := hh.document_eq hu
    dsimp only
    rw [hu.isNullish_eq]
    split
    · rfl
    · cases hu with
      | array _ | object _ => exact congrArg Json.pretty hdocument
      | _ => exact htext

include hv in
theorem primitive_alike : Value.Alike p (h.primitive v) (h'.primitive v') := by
  have htext := hh.text_eq hv
  cases hv with
  | array ha | object ha | function ha =>
    simp only [Heap.primitive, htext]
    exact .string _
  | undefined => exact .undefined
  | null => exact .null
  | bool b => exact .bool b
  | number x => exact .number x
  | string s => exact .string s

include hv hu in
/-- Loose equality answers alike of paired values. -/
theorem looseEquals_eq : h.looseEquals v u = h'.looseEquals v' u' := by
  have hstrict := hh.strictEquals_eq hv hu
  have htext := hh.text_eq hv
  have htext' := hh.text_eq hu
  have hnumber := hh.number_eq hv
  have hnumber' := hh.number_eq hu
  unfold Heap.looseEquals
  rw [hv.isNullish_eq, hu.isNullish_eq]
  split
  · rfl
  · cases hv <;> cases hu <;> simp only [hstrict, htext, htext', hnumber, hnumber']

include hv hu in
/-- Paired values are ordered alike. -/
theorem compare_eq : h.compare v u = h'.compare v' u' := by
  unfold Heap.compare
  have hl := hh.primitive_alike hv
  have hr := hh.primitive_alike hu
  have hnl := hh.number_eq hl
  have hnr := hh.number_eq hr
  generalize h.primitive v = a, h'.primitive v' = a' at hl hnl
  generalize h.primitive u = b, h'.primitive u' = b' at hr hnr
  cases hl <;> cases hr <;> simp only [hnl, hnr]

end Heap.Alike

/-! ### Names -/

/-- The same meaning of a name. -/
inductive Resolution.Alike (p : Pairing) (name : String) : Resolution → Resolution → Prop
  | binding {s s' : ScopeId} {b b' : Binding} : p.scope s.index s'.index →
    p.allows s.index (.declare name) → Binding.Alike p b b' →
    Resolution.Alike p name (.binding s b) (.binding s' b')
  | field {target target' : Value} : Value.Alike p target target' →
    Resolution.Alike p name (.field target) (.field target')

namespace Heap.Alike

variable (hh : Heap.Alike p h h')

include hh

/-- The parents of paired scopes are paired, and are close enough. -/
theorem parent {s s' : ScopeId} (hs : p.scope s.index s'.index) :
    Option.Rel (fun t t' ↦ p.scope t.index t'.index ∧
      (∀ m, p.allows t.index m ↔ p.allows s.index m) ∧
      (p.Layered h h' → t.index < s.index ∧ t'.index < s'.index))
      (h.scope s).parent (h'.scope s').parent := by
  have hparent := (hh.scope hs).parent
  generalize hleft : (h.scope s).parent = t at hparent ⊢
  generalize hright : (h'.scope s').parent = t' at hparent ⊢
  cases hparent with
  | none => exact .none
  | some ht =>
    exact .some ⟨ht.1, ht.2, fun hl ↦
      ⟨hl.left.parent ⟨_, hs⟩ hleft, hl.right.parent ⟨_, hs⟩ hright⟩⟩

/-- A name that code may use is found in paired scopes, or missing on both sides. -/
theorem resolveWithin_alike {name : String} : ∀ {n n' : Nat} {s s' : ScopeId},
    p.scope s.index s'.index → p.allows s.index (.use name) →
    p.Reaches h h' n n' s.index s'.index →
    Option.Rel (Resolution.Alike p name) (h.resolveWithin name n s)
      (h'.resolveWithin name n' s') := by
  intro n
  induction n with
  | zero =>
    intro n' s s' _ _ hn
    obtain rfl := hn.zero
    exact .none
  | succ n ih =>
    intro n' s s' hs hname hn
    obtain ⟨m, rfl, hnext⟩ := hn.succ
    have hscope := hh.scope hs
    have hparent : Option.Rel (Resolution.Alike p name)
        ((h.scope s).parent.bind (h.resolveWithin name n))
        ((h'.scope s').parent.bind (h'.resolveWithin name m)) := by
      have hp := hh.parent hs
      generalize (h.scope s).parent = t, (h'.scope s').parent = t' at hp ⊢
      cases hp with
      | none => exact .none
      | some ht => exact ih ht.1 ((ht.2.1 _).2 hname) (hnext ht.2.2)
    have hbinding := hscope.binding hname
    have hfallback := hscope.fallback
    have hallowed : (h.scope s).bindings.get? name ≠ none → p.allows s.index (.declare name) :=
      fun hne ↦ Classical.byContradiction fun hd ↦ hne (hscope.unbound hd).1
    simp only [Heap.resolveWithin]
    generalize (h.scope s).bindings.get? name = b, (h'.scope s').bindings.get? name = b'
      at hbinding hallowed ⊢
    cases hbinding with
    | some hb => exact .some (.binding hs (hallowed nofun) hb)
    | none =>
      generalize (h.scope s).fallback = f, (h'.scope s').fallback = f' at hfallback ⊢
      cases hfallback with
      | none => exact hparent
      | some hf =>
        simp only [hh.hasOwn_eq hf name]
        split
        · exact .some (.field hf)
        · exact hparent

/-- A name that may be looked up means the same. -/
theorem resolve_alike {name : String} {s s' : ScopeId} (hs : p.scope s.index s'.index)
    (hname : p.allows s.index (.use name)) :
    Option.Rel (Resolution.Alike p name) (h.resolve name s) (h'.resolve name s') :=
  hh.resolveWithin_alike hs hname (hh.measured.reaches fun hst ↦ hst.scopes.2 _ _ hs)

/-- A name that may not be declared means nothing. -/
theorem resolve_eq_none {name : String} {s s' : ScopeId} (hs : p.scope s.index s'.index)
    (hname : ¬p.allows s.index (.declare name)) : h.resolve name s = none := by
  have hwithin (n : Nat) : ∀ {s s' : ScopeId}, p.scope s.index s'.index →
      ¬p.allows s.index (.declare name) → h.resolveWithin name n s = none := by
    induction n with
    | zero => exact fun _ _ ↦ rfl
    | succ n ih =>
      intro s s' hs hname
      obtain ⟨hbinding, hfallback⟩ := (hh.scope hs).unbound hname
      simp only [Heap.resolveWithin, hbinding, hfallback]
      have hp := hh.parent hs
      generalize (h.scope s).parent = t, (h'.scope s').parent = t' at hp ⊢
      cases hp with
      | none => rfl
      | some ht => exact ih ht.1 fun hd ↦ hname ((ht.2.1 _).1 hd)
  exact hwithin _ hs hname

theorem self_alike {s s' : ScopeId} (hs : p.scope s.index s'.index) :
    Value.Alike p (h.self s) (h'.self s') := by
  have hwithin (n : Nat) : ∀ {n' : Nat} {s s' : ScopeId}, p.scope s.index s'.index →
      p.Reaches h h' n n' s.index s'.index →
      Value.Alike p (h.selfWithin n s) (h'.selfWithin n' s') := by
    induction n with
    | zero =>
      intro n' s s' _ hn
      obtain rfl := hn.zero
      exact .undefined
    | succ n ih =>
      intro n' s s' hs hn
      obtain ⟨m, rfl, hnext⟩ := hn.succ
      have hself := (hh.scope hs).self
      have hp := hh.parent hs
      simp only [Heap.selfWithin]
      generalize (h.scope s).self = v, (h'.scope s').self = v' at hself ⊢
      generalize (h.scope s).parent = t, (h'.scope s').parent = t' at hp ⊢
      cases hself with
      | some hv => exact hv
      | none =>
        cases hp with
        | none => exact .undefined
        | some ht => exact ih ht.1 (hnext ht.2.2)
  exact hwithin _ hs (hh.measured.reaches fun hst ↦ hst.scopes.2 _ _ hs)

/-- Where `var` declarations end up, the same is allowed as where they stand. -/
theorem functionScope_alike {s s' : ScopeId} (hs : p.scope s.index s'.index) :
    p.scope (h.functionScope s).index (h'.functionScope s').index ∧
      ∀ m, p.allows (h.functionScope s).index m ↔ p.allows s.index m := by
  have hwithin (n : Nat) : ∀ {n' : Nat} {s s' : ScopeId}, p.scope s.index s'.index →
      p.Reaches h h' n n' s.index s'.index →
      p.scope (h.functionScopeWithin n s).index (h'.functionScopeWithin n' s').index ∧
        ∀ m, p.allows (h.functionScopeWithin n s).index m ↔ p.allows s.index m := by
    induction n with
    | zero =>
      intro n' s s' hs hn
      obtain rfl := hn.zero
      exact ⟨hs, fun _ ↦ Iff.rfl⟩
    | succ n ih =>
      intro n' s s' hs hn
      obtain ⟨m, rfl, hnext⟩ := hn.succ
      have hp := hh.parent hs
      simp only [Heap.functionScopeWithin, (hh.scope hs).isFunction]
      split
      · exact ⟨hs, fun _ ↦ Iff.rfl⟩
      · generalize (h.scope s).parent = t, (h'.scope s').parent = t' at hp ⊢
        cases hp with
        | none => exact ⟨hs, fun _ ↦ Iff.rfl⟩
        | some ht =>
          obtain ⟨hscope, hallows⟩ := ih ht.1 (hnext ht.2.2)
          exact ⟨hscope, fun k ↦ (hallows k).trans (ht.2.1 k)⟩
  exact hwithin _ hs (hh.measured.reaches fun hst ↦ hst.scopes.2 _ _ hs)

end Heap.Alike

end Nodecraft.Sandbox
