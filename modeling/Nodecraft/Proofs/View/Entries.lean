import Nodecraft.Json.Basic

/-!
# Entries ordered by name

Sorting entries leaves every name once, in order (`Json.pairwise_sortFields`), with what stood last under it
(`Json.lookup_sortFields`).
-/

set_option autoImplicit false

namespace Nodecraft.Json

variable {α : Type}

/-- The order that entries are sorted by. -/
def keyLe (a b : String × α) : Bool := a.1 ≤ b.1

theorem keyLe_trans (a b c : String × α) (hab : keyLe a b) (hbc : keyLe b c) : keyLe a c :=
  decide_eq_true (String.le_trans (of_decide_eq_true hab) (of_decide_eq_true hbc))

theorem keyLe_total (a b : String × α) : keyLe a b || keyLe b a := by
  rcases String.le_total a.1 b.1 with hab | hba
  · exact Bool.or_eq_true_iff.2 (.inl (decide_eq_true hab))
  · exact Bool.or_eq_true_iff.2 (.inr (decide_eq_true hba))

/-- A look-up sees no more of a list than the entries under its key. -/
theorem lookup_eq_head? (fields : List (String × α)) (key : String) :
    fields.lookup key = ((fields.filter fun f ↦ f.1 == key).head?).map Prod.snd := by
  induction fields with
  | nil => rfl
  | cons f rest ih =>
    obtain ⟨k, a⟩ := f
    rw [List.lookup_cons, List.filter_cons, Bool.beq_comm]
    cases k == key with
    | true => rfl
    | false => exact ih

/-- Sorting is stable: the entries under one key stay in their order. -/
theorem filter_mergeSort (fields : List (String × α)) (key : String) :
    (fields.mergeSort keyLe).filter (fun f ↦ f.1 == key) = fields.filter fun f ↦ f.1 == key := by
  have hsame : (fields.filter fun f ↦ f.1 == key).Pairwise fun a b ↦ keyLe a b := by
    refine List.pairwise_of_forall_mem_list fun a ha b hb ↦ decide_eq_true ?_
    have hkeys : a.1 = b.1 :=
      (eq_of_beq (List.mem_filter.1 ha).2).trans (eq_of_beq (List.mem_filter.1 hb).2).symm
    exact hkeys ▸ String.le_refl _
  have hsublist := (List.sublist_mergeSort keyLe_trans keyLe_total hsame
    List.filter_sublist).filter fun f ↦ f.1 == key
  simp only [List.filter_filter, Bool.and_self] at hsublist
  exact (hsublist.eq_of_length
    ((List.mergeSort_perm fields keyLe).filter _).length_eq.symm).symm

/-- Sorting by keys keeps the order of equal keys, so the last entry of a key stays the last. -/
theorem lookup_reverse_mergeSort (fields : List (String × α)) (key : String) :
    (fields.mergeSort keyLe).reverse.lookup key = fields.reverse.lookup key := by
  rw [lookup_eq_head?, lookup_eq_head?, List.filter_reverse, List.filter_reverse, filter_mergeSort]

/-- An entry whose key differs from the next one's is the only one under its key. -/
theorem key_lt_of_pairwise {f g : String × α} {rest : List (String × α)}
    (hsorted : (f :: g :: rest).Pairwise fun a b ↦ keyLe a b) (hne : f.1 ≠ g.1) :
    ∀ e ∈ g :: rest, f.1 < e.1 := by
  intro e he
  obtain ⟨hf, hrest⟩ := List.pairwise_cons.1 hsorted
  have hfg : f.1 ≤ g.1 := of_decide_eq_true (hf g List.mem_cons_self)
  have hge : g.1 ≤ e.1 := by
    rcases List.mem_cons.1 he with rfl | he
    · exact String.le_refl _
    · exact of_decide_eq_true ((List.pairwise_cons.1 hrest).1 e he)
  refine Decidable.not_not.1 fun hlt ↦ hne ?_
  have hef : e.1 ≤ f.1 := String.not_lt.1 hlt
  exact String.le_antisymm hfg (String.le_trans hge hef)

/-- Only entries of the object are kept. -/
theorem mem_of_mem_keepLast (fields : List (String × α)) :
    ∀ f ∈ sortFields.keepLast fields, f ∈ fields := by
  fun_induction sortFields.keepLast fields with
  | case1 => exact fun f hf ↦ hf
  | case2 e => exact fun f hf ↦ hf
  | case3 e g rest heq ih => exact fun f hf ↦ List.mem_cons_of_mem _ (ih f hf)
  | case4 e g rest hne ih =>
    intro f hf
    rcases List.mem_cons.1 hf with rfl | hf
    · exact List.mem_cons_self
    · exact List.mem_cons_of_mem _ (ih f hf)

/-- Of each key one is kept. -/
theorem pairwise_keepLast {fields : List (String × α)} :
    fields.Pairwise (fun a b ↦ keyLe a b) →
      (sortFields.keepLast fields).Pairwise fun a b ↦ a.1 < b.1 := by
  fun_induction sortFields.keepLast fields with
  | case1 => exact fun _ ↦ .nil
  | case2 e => exact fun _ ↦ List.pairwise_singleton _ _
  | case3 e g rest heq ih => exact fun hsorted ↦ ih (List.pairwise_cons.1 hsorted).2
  | case4 e g rest hne ih =>
    intro hsorted
    exact .cons (fun f hf ↦ key_lt_of_pairwise hsorted hne f (mem_of_mem_keepLast _ f hf))
      (ih (List.pairwise_cons.1 hsorted).2)

theorem lookup_reverse_cons (f : String × α) (fields : List (String × α)) (key : String) :
    (f :: fields).reverse.lookup key =
      (fields.reverse.lookup key).or (if key = f.1 then some f.2 else none) := by
  obtain ⟨k, a⟩ := f
  rw [List.reverse_cons, List.lookup_append, List.lookup_cons, List.lookup_nil]
  by_cases hkey : key = k
  · rw [if_pos hkey, hkey, BEq.rfl]
  · rw [if_neg hkey, beq_false_of_ne hkey]

/-- The field that is kept of a sorted list is the last with its key. -/
theorem lookup_keepLast {fields : List (String × α)} (key : String) :
    fields.Pairwise (fun a b ↦ keyLe a b) →
      (sortFields.keepLast fields).lookup key = fields.reverse.lookup key := by
  fun_induction sortFields.keepLast fields with
  | case1 => exact fun _ ↦ rfl
  | case2 e => exact fun _ ↦ rfl
  | case3 e g rest heq ih =>
    intro hsorted
    rw [ih (List.pairwise_cons.1 hsorted).2, lookup_reverse_cons e, lookup_reverse_cons g,
      Option.or_assoc, heq]
    split
    · rfl
    · rfl
  | case4 e g rest hne ih =>
    intro hsorted
    have hlt := key_lt_of_pairwise hsorted hne
    rw [lookup_reverse_cons e, ← ih (List.pairwise_cons.1 hsorted).2]
    obtain ⟨k, a⟩ := e
    rw [List.lookup_cons]
    by_cases hkey : key = k
    · have hnone : (sortFields.keepLast (g :: rest)).lookup key = none := by
        rw [List.lookup_eq_none_iff]
        intro f hf
        have hltf := hlt f (mem_of_mem_keepLast _ f hf)
        rw [← hkey] at hltf
        have hne : key ≠ f.1 := fun heq ↦ String.lt_irrefl key (by rwa [← heq] at hltf)
        exact bne_iff_ne.2 hne
      rw [hnone, if_pos hkey, hkey, BEq.rfl]
      rfl
    · rw [beq_false_of_ne hkey, if_neg hkey, Option.or_none]

/-- Sorted entries stand in order, each name once. -/
theorem pairwise_sortFields (fields : List (String × α)) :
    (sortFields fields).Pairwise fun a b ↦ a.1 < b.1 :=
  pairwise_keepLast (List.pairwise_mergeSort keyLe_trans keyLe_total fields)

/-- Under a name stands what stood last under it before. -/
theorem lookup_sortFields (fields : List (String × α)) (key : String) :
    (sortFields fields).lookup key = fields.reverse.lookup key :=
  (lookup_keepLast key (List.pairwise_mergeSort keyLe_trans keyLe_total fields)).trans
    (lookup_reverse_mergeSort fields key)

/-- Sorting adds no entry. -/
theorem mem_of_mem_sortFields (fields : List (String × α)) :
    ∀ f ∈ sortFields fields, f ∈ fields :=
  fun f hf ↦ List.mem_mergeSort.1 (mem_of_mem_keepLast _ f hf)

/-- Entries with a name each are looked up from either end. -/
theorem lookup_reverse_of_pairwise {fields : List (String × α)} {key : String}
    (h : fields.Pairwise fun a b ↦ a.1 < b.1) : fields.reverse.lookup key = fields.lookup key := by
  induction h with
  | nil => rfl
  | @cons f rest hlt _ ih =>
    rw [lookup_reverse_cons, ih]
    obtain ⟨k, a⟩ := f
    rw [List.lookup_cons]
    by_cases hkey : key = k
    · have hnone : rest.lookup key = none := by
        rw [List.lookup_eq_none_iff]
        intro g hg
        refine bne_iff_ne.2 fun heq ↦ ?_
        have hlt := hlt g hg
        rw [← heq, hkey] at hlt
        exact String.lt_irrefl k hlt
      rw [hnone, if_pos hkey, hkey, BEq.rfl]
      rfl
    · rw [beq_false_of_ne hkey, if_neg hkey, Option.or_none]

end Nodecraft.Json
