import Mathlib.Data.List.Sort
import Nodecraft.Proofs.Pairing.Later
import Nodecraft.Proofs.Sequence

/-!
# Sorting arrays

Sorting takes the items that the array has, inserts one after the other behind those before it that
do not come after it, and only then writes them back. Comparators may do anything meanwhile: what is
written is always a permutation of the items at the beginning, and a comparator that fails leaves the
world as the calls of it have made it (`Caller.Comparing`). If the comparisons agree with a total
preorder, what is written is what the stable sort makes.

What sorting by a total preorder makes of a list is determined by the items and by their order on
every level (`eq_of_filter_levelWith`). Inserting one item after the other, each of them behind those
that do not come after it, therefore makes what `List.mergeSort` makes (`reverse_insertionSort`).
-/

set_option autoImplicit false

namespace Nodecraft

variable {α : Type} {le : α → α → Bool}

/-- What comes as early as an item, and as late. -/
def levelWith (le : α → α → Bool) (x y : α) : Bool := le x y && le y x

/-- Two sorted arrangements are the same if they have the same items in the same order on every
level. -/
theorem eq_of_filter_levelWith (hrefl : ∀ x, le x x) {l₁ : List α} :
    ∀ {l₂ : List α}, l₁.Pairwise (fun x y ↦ le x y) → l₂.Pairwise (fun x y ↦ le x y) →
    l₁.Perm l₂ → (∀ x, l₁.filter (levelWith le x) = l₂.filter (levelWith le x)) → l₁ = l₂ := by
  induction l₁ with
  | nil => exact fun _ _ hperm _ ↦ hperm.nil_eq
  | cons a l₁ ih =>
    intro l₂ h₁ h₂ hperm hlevels
    cases l₂ with
    | nil => exact hperm.eq_nil
    | cons b l₂ =>
      have hab : le a b := by
        rcases List.mem_cons.1 (hperm.mem_iff.2 List.mem_cons_self) with rfl | hb
        · exact hrefl _
        · exact List.rel_of_pairwise_cons h₁ hb
      have hba : le b a := by
        rcases List.mem_cons.1 (hperm.mem_iff.1 List.mem_cons_self) with rfl | ha
        · exact hrefl _
        · exact List.rel_of_pairwise_cons h₂ ha
      have hheads := hlevels a
      rw [List.filter_cons_of_pos (by simp [levelWith, hrefl]),
        List.filter_cons_of_pos (by simp [levelWith, hab, hba])] at hheads
      obtain rfl := (List.cons.inj hheads).1
      refine congrArg (a :: ·) (ih h₁.of_cons h₂.of_cons hperm.cons_inv fun x ↦ ?_)
      have hlevel := hlevels x
      rw [List.filter_cons, List.filter_cons] at hlevel
      split at hlevel
      · exact (List.cons.inj hlevel).2
      · exact hlevel

/-- A permutation that keeps a level together in its order has the same level. -/
theorem filter_eq_of_sublist {p : α → Bool} {l l' : List α} (hperm : l'.Perm l)
    (h : (l.filter p).Sublist l') : l'.filter p = l.filter p := by
  have hsub := h.filter p
  simp only [List.filter_filter, Bool.and_self] at hsub
  exact (hsub.eq_of_length (hperm.filter p).length_eq.symm).symm

section

variable (htrans : ∀ x y z, le x y → le y z → le x z) (htotal : ∀ x y, le x y || le y x)

include htrans

/-- Items on one level are in either order to one another. -/
theorem pairwise_filter_levelWith (x : α) (l : List α) :
    (l.filter (levelWith le x)).Pairwise fun y z ↦ le y z ∧ le z y := by
  refine List.pairwise_of_forall_mem_list fun y hy z hz ↦ ?_
  have hy := Bool.and_eq_true_iff.1 (List.mem_filter.1 hy).2
  have hz := Bool.and_eq_true_iff.1 (List.mem_filter.1 hz).2
  exact ⟨htrans y x z hy.2 hz.1, htrans z x y hz.2 hy.1⟩

include htotal

/-- Inserting from the back into a list that is kept in descending order sorts stably. -/
theorem reverse_insertionSort_of_total (l : List α) :
    (l.reverse.insertionSort fun x y ↦ le y x).reverse = l.mergeSort le := by
  have : Std.Total fun x y ↦ le y x = true := ⟨fun x y ↦ Bool.or_eq_true_iff.1 (htotal y x)⟩
  have : IsTrans α fun x y ↦ le y x = true := ⟨fun x y z hxy hyz ↦ htrans z y x hyz hxy⟩
  have hinserted := List.perm_insertionSort (fun x y ↦ le y x = true) l.reverse
  refine eq_of_filter_levelWith (fun x ↦ by simpa using htotal x x) ?_
    (List.pairwise_mergeSort htrans htotal l) ?_ fun x ↦ ?_
  · exact List.pairwise_reverse.2 (List.pairwise_insertionSort _ _)
  · exact (List.reverse_perm _).trans
      (hinserted.trans ((List.reverse_perm l).trans (List.mergeSort_perm l le).symm))
  · have hmerged : (l.mergeSort le).filter (levelWith le x) = l.filter (levelWith le x) :=
      filter_eq_of_sublist (List.mergeSort_perm l le) (List.sublist_mergeSort htrans htotal
        ((pairwise_filter_levelWith htrans x l).imp And.left) List.filter_sublist)
    have hlevel := filter_eq_of_sublist (p := levelWith le x) hinserted (List.sublist_insertionSort
      ((pairwise_filter_levelWith htrans x l.reverse).imp And.right) List.filter_sublist)
    rw [hmerged, List.filter_reverse, hlevel, List.filter_reverse, List.reverse_reverse]

end

/-- A total preorder, as far as it is about some items. -/
structure PreordersOn (le : α → α → Bool) (l : List α) : Prop where
  trans : ∀ x ∈ l, ∀ y ∈ l, ∀ z ∈ l, le x y → le y z → le x z
  total : ∀ x ∈ l, ∀ y ∈ l, le x y || le y x

/-- Inserting one item after the other behind those that do not come after it sorts stably. -/
theorem reverse_insertionSort {l : List α} (hle : PreordersOn le l) :
    (l.reverse.insertionSort fun x y ↦ le y x).reverse = l.mergeSort le := by
  have hattached : (l.attach.reverse.insertionSort fun x y ↦ le y.1 x.1).reverse =
      l.attach.mergeSort fun x y ↦ le x.1 y.1 :=
    reverse_insertionSort_of_total (fun x y z ↦ hle.trans x.1 x.2 y.1 y.2 z.1 z.2)
      (fun x y ↦ hle.total x.1 x.2 y.1 y.2) l.attach
  have hinserted : (l.attach.reverse.insertionSort fun x y ↦ le y.1 x.1).map Subtype.val =
      l.reverse.insertionSort fun x y ↦ le y x := by
    rw [List.map_insertionSort _ (fun x y ↦ le y x = true) _ _ fun _ _ _ _ ↦ Iff.rfl,
      List.map_reverse, List.attach_map_subtype_val]
  have hmerged : (l.attach.mergeSort fun x y ↦ le x.1 y.1).map Subtype.val = l.mergeSort le := by
    rw [List.map_mergeSort (s := le) fun _ _ _ _ ↦ rfl, List.attach_map_subtype_val]
  rw [← hinserted, ← List.map_reverse, hattached, hmerged]

end Nodecraft

namespace Nodecraft.Sandbox

open Evaluation Pairing

/-! ### What comparators do -/

/-- The order that the number of a comparator stands for. -/
def signOrder (x : Float) : Ordering := if x < 0.0 then .lt else if x > 0.0 then .gt else .eq

namespace Caller

/-- The worlds that a comparator leads to when it is called on some values, one call after the
other. -/
inductive Compared (call : Caller) (f : Value) (values : List Value) (w : World) : World → Prop
  | refl : Compared call f values w w
  | step {w₁ w₂ : World} {x y v : Value} : Compared call f values w w₁ → x ∈ values → y ∈ values →
    call f .undefined [x, y] w₁ = .ok v w₂ → Compared call f values w w₂

/-- One of the calls has failed so. -/
def FailsComparing (call : Caller) (f : Value) (values : List Value) (w : World) (e : Failure)
    (w' : World) : Prop :=
  ∃ w₁ x y, call.Compared f values w w₁ ∧ x ∈ values ∧ y ∈ values ∧
    call f .undefined [x, y] w₁ = .error e w'

/-- Whenever the comparator returns, however often it has been called on the values, its number
says whether the second value is to come before the first. -/
def Decides (call : Caller) (f : Value) (values : List Value) (w : World)
    (le : Value → Value → Bool) : Prop :=
  ∀ w₁ x y v w₂, call.Compared f values w w₁ → x ∈ values → y ∈ values →
    call f .undefined [x, y] w₁ = .ok v w₂ → (signOrder (w₂.heap.number v)).isLE = le x y

/-- The outcome of something that only called the comparator on the values, in worlds that this led
to, and that failed only with it. -/
inductive Comparing (call : Caller) (f : Value) (values : List Value) (w : World) {α : Type}
    (Good : α → Prop) : Outcome α → Prop
  | ok {a : α} {w' : World} : call.Compared f values w w' → Good a →
    Comparing call f values w Good (.ok a w')
  | error {e : Failure} {w' : World} : call.FailsComparing f values w e w' →
    Comparing call f values w Good (.error e w')

variable {call : Caller} {f : Value} {values : List Value} {w : World}

/-- Comparing goes on with what has been compared. -/
theorem Comparing.bind {α β : Type} {Good : α → Prop} {Good' : β → Prop} {x : Action α}
    {g : α → Action β} {w₁ : World} (hx : call.Comparing f values w Good (x w₁))
    (hg : ∀ a w₂, Good a → call.Compared f values w w₂ →
      call.Comparing f values w Good' (g a w₂)) :
    call.Comparing f values w Good' ((x >>= g) w₁) := by
  rw [Action.bind_apply]
  generalize x w₁ = r at hx
  cases hx with
  | ok hw ha => exact hg _ _ ha hw
  | error he => exact .error he

theorem Comparing.imp {α : Type} {Good Good' : α → Prop} {r : Outcome α}
    (h : call.Comparing f values w Good r) (hgood : ∀ a, Good a → Good' a) :
    call.Comparing f values w Good' r := by
  cases h with
  | ok hw ha => exact .ok hw (hgood _ ha)
  | error he => exact .error he

/-- A comparison calls the comparator once and nothing else. -/
theorem Comparing.itemOrder {x y : Value} (hx : x ∈ values) (hy : y ∈ values) {w₁ : World}
    (hw : call.Compared f values w w₁) :
    call.Comparing f values w (fun o ↦ ∀ le, call.Decides f values w le → o.isLE = le x y)
      (Action.itemOrder call (some f) x y w₁) := by
  change call.Comparing f values w _ ((call f .undefined [x, y] >>= fun v ↦
    Action.heap >>= fun h ↦ pure (signOrder (h.number v))) w₁)
  rw [Action.bind_apply]
  cases hcall : call f .undefined [x, y] w₁ with
  | ok v w₂ => exact .ok (hw.step hx hy hcall) fun le hle ↦ hle _ _ _ _ _ hw hx hy hcall
  | error e w₂ => exact .error ⟨_, _, _, hw, hx, hy, hcall⟩

/-- Inserting an item makes a permutation, and for a comparator that decides an ordered one. -/
theorem Comparing.insertItem {v : Value} (hv : v ∈ values) {sorted : List Value} :
    (∀ x ∈ sorted, x ∈ values) → ∀ {w₁ : World}, call.Compared f values w w₁ →
    call.Comparing f values w (fun inserted ↦ inserted.Perm (v :: sorted) ∧
      ∀ le, call.Decides f values w le → inserted = sorted.orderedInsert (fun x y ↦ le y x) v)
      (Action.insertItem (Action.itemOrder call (some f)) v sorted w₁) := by
  induction sorted with
  | nil => exact fun _ w₁ hw ↦ .ok hw ⟨.refl _, fun _ _ ↦ rfl⟩
  | cons x rest ih =>
    intro hvalues w₁ hw
    refine (Comparing.itemOrder (hvalues x List.mem_cons_self) hv hw).bind fun o w₂ ho hw₂ ↦ ?_
    have hplaced (hne : o.isLE = true) : (v :: x :: rest).Perm (v :: x :: rest) ∧
        ∀ le, call.Decides f values w le →
          v :: x :: rest = (x :: rest).orderedInsert (fun x y ↦ le y x) v := by
      refine ⟨.refl _, fun le hle ↦ ?_⟩
      rw [List.orderedInsert_cons_of_le]
      exact (ho le hle).symm.trans hne
    cases o with
    | lt => exact .ok hw₂ (hplaced rfl)
    | eq => exact .ok hw₂ (hplaced rfl)
    | gt =>
      have hrest := ih (fun y hy ↦ hvalues y (List.mem_cons_of_mem x hy)) hw₂
      refine hrest.bind fun inserted w₃ hinserted hw₃ ↦ .ok hw₃ ⟨?_, fun le hle ↦ ?_⟩
      · exact (hinserted.1.cons x).trans (.swap v x rest)
      · rw [hinserted.2 le hle, List.orderedInsert_of_not_le]
        exact fun h ↦ nomatch (ho le hle).trans h

/-- All insertions: nothing is lost, and a comparator that decides an order has it followed. -/
theorem Comparing.insertAll {items : List Value} : ∀ {sorted : List Value},
    (∀ x ∈ items, x ∈ values) → (∀ x ∈ sorted, x ∈ values) → ∀ {w₁ : World},
    call.Compared f values w w₁ →
    call.Comparing f values w (fun all ↦ all.Perm (sorted ++ items) ∧
      ∀ le, call.Decides f values w le →
        all = (items.reverse.foldr (List.orderedInsert fun x y ↦ le y x) sorted).reverse)
      (Action.insertAll (Action.itemOrder call (some f)) sorted items w₁) := by
  induction items with
  | nil =>
    intro sorted _ _ w₁ hw
    rw [List.append_nil]
    exact .ok hw ⟨List.reverse_perm _, fun _ _ ↦ rfl⟩
  | cons v rest ih =>
    intro sorted hitems hsorted w₁ hw
    have hv := hitems v List.mem_cons_self
    refine (Comparing.insertItem hv hsorted hw).bind fun inserted w₂ hinserted hw₂ ↦ ?_
    obtain ⟨hperm, hordered⟩ := hinserted
    have hvalues (x : Value) (hx : x ∈ inserted) : x ∈ values := by
      rcases List.mem_cons.1 (hperm.mem_iff.1 hx) with rfl | hx
      · exact hv
      · exact hsorted x hx
    refine (ih (fun x hx ↦ hitems x (List.mem_cons_of_mem v hx)) hvalues hw₂).imp fun all hall ↦ ?_
    refine ⟨hall.1.trans ((hperm.append_right rest).trans List.perm_middle.symm), fun le hle ↦ ?_⟩
    rw [hall.2 le hle, hordered le hle, List.reverse_cons, List.foldr_append, List.foldr_cons,
      List.foldr_nil]

/-- For a comparator that decides a preorder, the items come out in its stable sort. -/
theorem Comparing.sorted :
    call.Comparing f values w (fun sorted ↦ sorted.Perm values ∧
      ∀ le, call.Decides f values w le → PreordersOn le values → sorted = values.mergeSort le)
      (Action.insertAll (Action.itemOrder call (some f)) [] values w) := by
  refine (Comparing.insertAll (fun _ ↦ id) (by simp) .refl).imp fun sorted h ↦ ?_
  exact ⟨h.1, fun le hdecides hle ↦ (h.2 le hdecides).trans (reverse_insertionSort hle)⟩

end Caller

/-! ### Sorting by texts -/

/-- The text of one value does not come after that of another, by the first code points that differ. -/
def Heap.textLe (h : Heap) (x y : Value) : Bool := decide (h.text x ≤ h.text y)

/-- Texts are totally ordered. -/
theorem preordersOn_textLe (h : Heap) (values : List Value) : PreordersOn h.textLe values where
  trans _ _ _ _ _ _ hxy hyz :=
    decide_eq_true (String.le_trans (of_decide_eq_true hxy) (of_decide_eq_true hyz))
  total x _ y _ := by simpa [Heap.textLe] using String.le_total (h.text x) (h.text y)

/-- Without a comparator nothing is called. -/
theorem Action.itemOrder_texts (call : Caller) (x y : Value) (w : World) : ∃ o,
    Action.itemOrder call none x y w = .ok o w ∧ o.isLE = w.heap.textLe x y := by
  refine ⟨if w.heap.text x < w.heap.text y then .lt
    else if w.heap.text x = w.heap.text y then .eq else .gt, rfl, ?_⟩
  unfold Heap.textLe
  by_cases hlt : w.heap.text x < w.heap.text y
  · rw [if_pos hlt, decide_eq_true (String.not_lt.1 (String.lt_asymm hlt))]
    rfl
  · by_cases heq : w.heap.text x = w.heap.text y
    · rw [if_neg hlt, if_pos heq, decide_eq_true (heq ▸ String.le_refl _)]
      rfl
    · have hnot : ¬w.heap.text x ≤ w.heap.text y := fun hle ↦
        heq (String.le_antisymm hle (String.not_lt.1 hlt))
      rw [if_neg hlt, if_neg heq, decide_eq_false hnot]
      rfl

/-- One insertion by texts. -/
theorem Action.insertItem_texts (call : Caller) (v : Value) (w : World) (sorted : List Value) :
    Action.insertItem (Action.itemOrder call none) v sorted w =
      .ok (sorted.orderedInsert (fun x y ↦ w.heap.textLe y x) v) w := by
  induction sorted with
  | nil => rfl
  | cons x rest ih =>
    obtain ⟨o, horder, ho⟩ := Action.itemOrder_texts call x v w
    unfold Action.insertItem
    rw [bind_of_ok horder, List.orderedInsert_cons, ← ho]
    cases o with
    | lt => rfl
    | eq => rfl
    | gt => exact bind_of_ok ih

/-- All insertions by texts. -/
theorem Action.insertAll_texts (call : Caller) (w : World) (items : List Value) :
    ∀ sorted, Action.insertAll (Action.itemOrder call none) sorted items w =
      .ok (items.reverse.foldr (List.orderedInsert fun x y ↦ w.heap.textLe y x) sorted).reverse w := by
  induction items with
  | nil => exact fun _ ↦ rfl
  | cons v rest ih =>
    intro sorted
    unfold Action.insertAll
    rw [bind_of_ok (Action.insertItem_texts call v w sorted), ih, List.reverse_cons,
      List.foldr_append, List.foldr_cons, List.foldr_nil]

/-- Without a comparator, the items come out in the stable sort by their texts. -/
theorem Action.sorted_texts (call : Caller) (w : World) (items : List Value) :
    Action.insertAll (Action.itemOrder call none) [] items w =
      .ok (items.mergeSort w.heap.textLe) w := by
  have hsorted : (items.reverse.insertionSort fun x y ↦ w.heap.textLe y x).reverse =
      items.mergeSort w.heap.textLe :=
    reverse_insertionSort (preordersOn_textLe w.heap items)
  rw [Action.insertAll_texts, ← hsorted]
  rfl

/-! ### What is written back -/

/-- Comparisons leave the arrays on the heap, and the functions what they are. -/
theorem Caller.Compared.grows {n : Nat} {f : Value} {values : List Value} {w w' : World}
    (h : (machineWithin n).call.Compared f values w w') :
    w.heap.arrays.size ≤ w'.heap.arrays.size ∧ w.heap.Later w'.heap := by
  induction h with
  | refl => exact ⟨Nat.le_refl _, .refl _⟩
  | @step w₁ w₂ x y v _ _ _ hcall ih =>
    have halike := (machine_alike total n).call total (Pairing.le_refl total) _ _ _ _ _ _
      (Value.Alike.refl reflexive_total f) .undefined
      (ListAlike.refl (Value.Alike.refl reflexive_total) [x, y])
    obtain ⟨q, hgrows, -⟩ := halike total (Pairing.le_refl total) w₁ w₁ w₁.alike_total
    rw [hcall] at hgrows
    exact ⟨Nat.le_trans ih.1 hgrows.arrays.size_le, ih.2.trans hgrows.later⟩

/-- The world in which items have been written to an array. -/
def World.setItems (w : World) (a : ArrayId) (values : List Value) : World :=
  { w with heap := w.heap.modifyArray a fun _ ↦ values.toArray }

/-- An array holds what has been written to it. Nothing is on an array that is not on the heap. -/
theorem World.toList_array_setItems (w : World) (a : ArrayId) {values : List Value}
    (ha : w.heap.arrays.size ≤ a.index → values = []) :
    ((w.setItems a values).heap.array a).toList = values := by
  have hmodify : (w.setItems a values).heap.array a =
      if a.index = a.index ∧ a.index < w.heap.arrays.size then values.toArray
      else w.heap.array a := Cells.getD_modify _ _ _ _ _
  rw [hmodify]
  by_cases hsize : a.index < w.heap.arrays.size
  · rw [if_pos ⟨rfl, hsize⟩]
  · have hnone : w.heap.array a = #[] := Cells.getD_of_le (Nat.le_of_not_lt hsize) _
    rw [if_neg fun h ↦ hsize h.2, hnone, ha (Nat.le_of_not_lt hsize)]

/-- An array that is not in the store has nothing to sort. -/
theorem Heap.eq_nil_of_perm {h : Heap} {a : ArrayId} {sorted : List Value}
    (hperm : sorted.Perm (h.array a).toList) (ha : h.arrays.size ≤ a.index) : sorted = [] := by
  have hnone : h.array a = #[] := Cells.getD_of_le ha _
  rw [hnone] at hperm
  exact hperm.eq_nil

/-- Items are written back when all of them are sorted. -/
theorem sort_apply (call : Caller) (a : ArrayId) (args : List Value) (w : World) :
    Action.arrayMethod call .sort (.array a) args w =
      (Action.insertAll (Action.itemOrder call (args.head?.filter Value.isFunction)) []
        (w.heap.array a).toList >>= fun sorted ↦ Action.setItems a sorted >>= fun _ ↦
          pure (Value.array a)) w := by
  have hsort : Action.arrayMethod call .sort (.array a) args w =
      ((Action.insertAll (Action.itemOrder call (args.head?.filter Value.isFunction)) []
        (w.heap.array a).toList >>= Action.setItems a) >>= fun _ ↦ pure (Value.array a)) w := rfl
  rw [hsort, bind_assoc]

/-- The sort without a comparator, on the array itself. -/
theorem sort_texts (call : Caller) (a : ArrayId) {args : List Value}
    (hargs : args.head?.filter Value.isFunction = none) (w : World) :
    Action.arrayMethod call .sort (.array a) args w =
      .ok (.array a) (w.setItems a ((w.heap.array a).toList.mergeSort w.heap.textLe)) := by
  rw [sort_apply, hargs]
  exact bind_of_ok (Action.sorted_texts call w _)

/-- Sorting by a comparator calls it on the items, and if it never fails writes them back. -/
theorem sort_comparing (call : Caller) (a : ArrayId) {f : Value} (hf : f.isFunction = true)
    (rest : List Value) (w : World) :
    (∃ w₁ sorted, Action.arrayMethod call .sort (.array a) (f :: rest) w =
        .ok (.array a) (w₁.setItems a sorted) ∧
      call.Compared f (w.heap.array a).toList w w₁ ∧ sorted.Perm (w.heap.array a).toList ∧
      ∀ le, call.Decides f (w.heap.array a).toList w le → PreordersOn le (w.heap.array a).toList →
        sorted = (w.heap.array a).toList.mergeSort le) ∨
    ∃ e w', Action.arrayMethod call .sort (.array a) (f :: rest) w = .error e w' ∧
      call.FailsComparing f (w.heap.array a).toList w e w' := by
  have hcomparator : (f :: rest).head?.filter Value.isFunction = some f := by simp [hf]
  have hsorted := @Caller.Comparing.sorted call f (w.heap.array a).toList w
  rw [sort_apply, hcomparator, Action.bind_apply]
  generalize Action.insertAll _ [] _ w = r at hsorted
  cases hsorted with
  | @ok sorted w₁ hw h => exact .inl ⟨w₁, sorted, rfl, hw, h⟩
  | @error e w' he => exact .inr ⟨e, w', rfl, he⟩

/-- What sorting an array comes to, whatever comparator it is given. If it returns, the array holds a
permutation of what it held. With a comparator, it fails only as a call of it on two of the items has
failed, and leaves the world as that call has left it, or else it writes the items back after the last
call. If the numbers agree with a total preorder of the items, as those of a comparator without effects
do if their signs are one, they are sorted stably by it. Without a comparator they are sorted stably by
their texts. -/
theorem sort_outcome (n : Nat) (a : ArrayId) (w : World) :
    (∀ args v w', Action.arrayMethod (machineWithin n).call .sort (.array a) args w = .ok v w' →
      v = .array a ∧ (w'.heap.array a).toList.Perm (w.heap.array a).toList) ∧
    (∀ f rest, f.isFunction = true →
      (∃ e w', Action.arrayMethod (machineWithin n).call .sort (.array a) (f :: rest) w =
          .error e w' ∧
        (machineWithin n).call.FailsComparing f (w.heap.array a).toList w e w') ∨
      ∃ w₁ sorted, Action.arrayMethod (machineWithin n).call .sort (.array a) (f :: rest) w =
          .ok (.array a) (w₁.setItems a sorted) ∧
        ((w₁.setItems a sorted).heap.array a).toList = sorted ∧
        (machineWithin n).call.Compared f (w.heap.array a).toList w w₁ ∧
        ∀ le, (machineWithin n).call.Decides f (w.heap.array a).toList w le →
          PreordersOn le (w.heap.array a).toList → sorted = (w.heap.array a).toList.mergeSort le) ∧
    ∀ args, args.head?.filter Value.isFunction = none →
      ∃ w', Action.arrayMethod (machineWithin n).call .sort (.array a) args w = .ok (.array a) w' ∧
        (w'.heap.array a).toList = (w.heap.array a).toList.mergeSort w.heap.textLe := by
  have hholds {w₁ : World} {sorted : List Value} (hle : w.heap.arrays.size ≤ w₁.heap.arrays.size)
      (hperm : sorted.Perm (w.heap.array a).toList) :
      ((w₁.setItems a sorted).heap.array a).toList = sorted :=
    w₁.toList_array_setItems a fun ha ↦ Heap.eq_nil_of_perm hperm (Nat.le_trans hle ha)
  have hmerged := List.mergeSort_perm (w.heap.array a).toList w.heap.textLe
  refine ⟨fun args v w' h ↦ ?_, fun f rest hf ↦ ?_, fun args hargs ↦ ?_⟩
  · cases hargs : args.head?.filter Value.isFunction with
    | none =>
      rw [sort_texts _ a hargs w] at h
      cases h
      exact ⟨rfl, by rwa [hholds (Nat.le_refl _) hmerged]⟩
    | some f =>
      obtain ⟨hhead, hf⟩ := Option.filter_eq_some_iff.1 hargs
      obtain ⟨rest, rfl⟩ := List.head?_eq_some_iff.1 hhead
      obtain ⟨w₁, sorted, hok, hw, hperm, -⟩ | ⟨e, w₁, herror, -⟩ :=
        sort_comparing (machineWithin n).call a hf rest w
      · cases hok.symm.trans h
        exact ⟨rfl, by rwa [hholds hw.grows.1 hperm]⟩
      · cases herror.symm.trans h
  · obtain ⟨w₁, sorted, hok, hw, hperm, hsorted⟩ | hfails :=
      sort_comparing (machineWithin n).call a hf rest w
    · exact .inr ⟨w₁, sorted, hok, hholds hw.grows.1 hperm, hw, hsorted⟩
    · exact .inl hfails
  · exact ⟨_, sort_texts _ a hargs w, hholds (Nat.le_refl _) hmerged⟩

/-! ### A comparator that tells no two items apart -/

/-- `() => 0` -/
def indifferent : Script.FunctionDef :=
  .make none [] none [.return (some (.literal (.number 0.0)))] true

/-- A world with an array and the comparator. -/
def World.unsorted : World :=
  let h := (Heap.empty.newScope ⟨[], none, none, none, true⟩).2
  ⟨((h.newArray #[.string "b", .string "a"]).2.newFunction (.closure indifferent ⟨0⟩)).2,
    Run.start .standard .undefined⟩

theorem signOrder_zero : (signOrder 0.0).isLE = true := by
  unfold signOrder
  by_cases hlt : (0.0 : Float) < 0.0
  · rw [if_pos hlt]
    rfl
  · rw [if_neg hlt, if_neg hlt]
    rfl

/-- Whatever world the action is run in, it returns nothing else. -/
def Action.OnlyReturns {α : Type} (x : Action α) (a : α) : Prop :=
  ∀ w b w', x w = .ok b w' → b = a

namespace Action.OnlyReturns

variable {α β : Type} {x : Action α} {a : α} {b : β}

theorem pure (a : α) : (Pure.pure a : Action α).OnlyReturns a := by
  intro w b w' h
  cases h
  rfl

theorem after {f : α → Action β} (hf : ∀ a, (f a).OnlyReturns b) : (x >>= f).OnlyReturns b := by
  intro w c w' h
  obtain ⟨a, w₁, -, hb⟩ := bind_eq_ok h
  exact hf a w₁ c w' hb

theorem bind (hx : x.OnlyReturns a) {f : α → Action β} (hf : (f a).OnlyReturns b) :
    (x >>= f).OnlyReturns b := by
  intro w c w' h
  obtain ⟨a', w₁, ha, hb⟩ := bind_eq_ok h
  obtain rfl := hx w a' w₁ ha
  exact hf w₁ c w' hb

/-- Changes of the world do not change what is returned. -/
theorem of_mapWorld (hx : x.OnlyReturns a) {g : World → World} {w w' : World} {c : α}
    (h : mapWorld g (x w) = .ok c w') : c = a := by
  cases hw : x w with
  | ok c' w₁ =>
    rw [hw] at h
    cases h
    exact hx w c w₁ hw
  | error e w₁ =>
    rw [hw] at h
    cases h

theorem entering (hx : x.OnlyReturns a) : (Action.entering x).OnlyReturns a := by
  intro w c w' h
  rw [Action.entering_apply] at h
  exact hx.of_mapWorld h

theorem calling (hx : x.OnlyReturns a) : (Action.calling x).OnlyReturns a := by
  intro w c w' h
  by_cases hdeep : w.run.limits.maxCallDepth ≤ w.run.depth
  · rw [Action.calling_of_le _ hdeep] at h
    cases h
  · rw [Action.calling_of_lt _ (Nat.lt_of_not_le hdeep)] at h
    exact hx.of_mapWorld h

/-- The comparator returns zero if it returns. -/
theorem indifferent (args : List Value) :
    (perform (machineWithin 3) .undefined args (.closure Sandbox.indifferent ⟨0⟩)).OnlyReturns
      (.number 0.0) := by
  have heval (s : ScopeId) :
      ((machineWithin 2).eval s (.literal (.number 0.0))).OnlyReturns (.number 0.0) :=
    after fun _ ↦ entering (pure _)
  have hexec (s : ScopeId) : ((machineWithin 3).exec s
      (.return (some (.literal (.number 0.0))))).OnlyReturns (.return (.number 0.0)) :=
    after fun _ ↦ entering (after fun _ ↦ (heval s).bind (pure _))
  have hblock (s : ScopeId) : (block (machineWithin 3) s
      [.return (some (.literal (.number 0.0)))]).OnlyReturns (.return (.number 0.0)) :=
    after fun _ ↦ (hexec s).bind (pure (Completion.return (.number 0.0)))
  exact after fun s ↦ after fun _ ↦
    (after fun _ ↦ entering (hblock s)).bind (pure (Value.number 0.0))

end Action.OnlyReturns

/-- A comparator that always returns zero tells no two items apart. -/
theorem decides_indifferent {values : List Value} {w : World}
    (hf : w.heap.function ⟨0⟩ = .closure indifferent ⟨0⟩) (hsize : 0 < w.heap.functions.size) :
    (machineWithin 4).call.Decides (.function ⟨0⟩) values w fun _ _ ↦ true := by
  intro w₁ x y v w₂ hw _ _ hcall
  have hf₁ := (hw.grows.2.function (f := ⟨0⟩) hsize).trans hf
  change (Action.room >>= fun _ ↦ Action.entering ((machineWithin 4).invoke ⟨0⟩ .undefined [x, y]))
    w₁ = .ok v w₂ at hcall
  obtain ⟨_, w₁', hroom, hentered⟩ := bind_eq_ok hcall
  obtain rfl : w₁' = w₁ := (congrArg finalWorld hroom).symm.trans (Action.finalWorld_room w₁)
  have hperform : Action.entering ((machineWithin 4).invoke ⟨0⟩ .undefined [x, y]) w₁' =
    Action.entering (Action.calling
      (perform (machineWithin 3) .undefined [x, y] (w₁'.heap.function ⟨0⟩))) w₁' := rfl
  rw [hperform, hf₁] at hentered
  obtain rfl := (Action.OnlyReturns.indifferent [x, y]).calling.entering _ _ _ hentered
  exact signOrder_zero

theorem Action.insertAll_pair {order : Value → Value → Action Ordering} {x y : Value} {o : Ordering}
    {w w' : World} (h : order x y w = .ok o w') (ho : o.isLE = true) :
    Action.insertAll order [] [x, y] w = .ok [x, y] w' := by
  have hinserted : Action.insertItem order y [x] w = .ok [y, x] w' := by
    unfold Action.insertItem
    rw [bind_of_ok h]
    cases o with
    | lt => rfl
    | eq => rfl
    | gt => cases ho
  exact bind_of_ok hinserted

theorem sort_unsorted_returns : ∃ w', Action.arrayMethod (machineWithin 4).call .sort (.array ⟨0⟩)
    [.function ⟨0⟩] .unsorted = .ok (.array ⟨0⟩) w' := by
  obtain ⟨w₁, horder⟩ : ∃ w₁, Action.itemOrder (machineWithin 4).call (some (.function ⟨0⟩))
    (.string "b") (.string "a") .unsorted = .ok (signOrder 0.0) w₁ := ⟨_, rfl⟩
  rw [sort_apply]
  exact ⟨_, bind_of_ok (Action.insertAll_pair horder signOrder_zero)⟩

/-- Items that are not told apart stay in their order. -/
theorem sort_outcome_indifferent : ∃ w',
    Action.arrayMethod (machineWithin 4).call .sort (.array ⟨0⟩) [.function ⟨0⟩] .unsorted =
      .ok (.array ⟨0⟩) w' ∧ (w'.heap.array ⟨0⟩).toList = [.string "b", .string "a"] := by
  obtain ⟨-, hcomparator, -⟩ := sort_outcome 4 ⟨0⟩ .unsorted
  obtain ⟨e, w', herror, -⟩ | ⟨w₁, sorted, hok, hsorted, -, hle⟩ := hcomparator (.function ⟨0⟩) [] rfl
  · obtain ⟨w₁, hok⟩ := sort_unsorted_returns
    cases herror.symm.trans hok
  · refine ⟨_, hok, hsorted.trans ((hle _ (decides_indifferent rfl (by decide)) ?_).trans ?_)⟩
    · exact ⟨fun _ _ _ _ _ _ _ _ ↦ rfl, fun _ _ _ _ ↦ rfl⟩
    · exact List.mergeSort_of_pairwise (List.pairwise_of_forall_mem_list fun _ _ _ _ ↦ rfl)

end Nodecraft.Sandbox
