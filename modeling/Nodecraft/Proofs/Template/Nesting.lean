import Mathlib.Data.Finset.Card
import Nodecraft.Proofs.Pairing.Reading
import Nodecraft.Template.Style

/-!
# Texts of nested arrays

The text of an array of classes or styles is that of its elements, and there is none if arrays nest
deeper than there are arrays on the heap. Arrays that nest so deep contain themselves and so nest as
deep as one likes (`Heap.nests_of_size`), so that it does not depend on what else is on the heap
whether there is a text: values that are alike have the same texts or both have none
(`arrayText?_alike`).
-/

set_option autoImplicit false

namespace Nodecraft

namespace Sandbox

/-- Below an array there are arrays so deep. -/
def Heap.Nests (h : Heap) : Nat → Value → Prop
  | 0, v => ∃ a, v = .array a
  | n + 1, v => ∃ a, v = .array a ∧ ∃ u ∈ (h.array a).toList, h.Nests n u

namespace Heap

variable {h : Heap}

/-- Only arrays nest. -/
theorem Nests.exists_array {n : Nat} {v : Value} (hv : h.Nests n v) : ∃ a, v = .array a := by
  cases n with
  | zero => exact hv
  | succ n => exact hv.imp fun _ ↦ And.left

/-- What nests deeply nests less deeply too. -/
theorem Nests.pred {n : Nat} : ∀ {v : Value}, h.Nests (n + 1) v → h.Nests n v := by
  induction n with
  | zero => exact fun hv ↦ hv.exists_array
  | succ n ih =>
    rintro v ⟨a, rfl, u, hu, hnests⟩
    exact ⟨a, rfl, u, hu, ih hnests⟩

/-- Some arrays of a heap that hold no others. -/
structure Contained (h : Heap) (P : ArrayId → Prop) : Prop where
  lt {a : ArrayId} : P a → a.index < h.arrays.size
  inner {a b : ArrayId} : P a → .array b ∈ (h.array a).toList → P b

section

variable {P : ArrayId → Prop} (hP : h.Contained P)

include hP

/-- If no fewer arrays nest one level deeper, all of them nest as deep as one likes. -/
theorem nests_of_stable {n : Nat}
    (hstable : ∀ a, P a → h.Nests n (.array a) → h.Nests (n + 1) (.array a)) (m : Nat) :
    ∀ a, P a → h.Nests n (.array a) → h.Nests (n + m) (.array a) := by
  induction m with
  | zero => exact fun a _ ha ↦ ha
  | succ m ih =>
    intro a ha hnests
    obtain ⟨b, hab, u, hu, hbelow⟩ := hstable a ha hnests
    obtain rfl : a = b := by injection hab
    obtain ⟨c, rfl⟩ := hbelow.exists_array
    exact ⟨a, rfl, .array c, hu, ih c (hP.inner ha hu) hbelow⟩

open Classical in
/-- Either some depth makes no difference any more, or fewer and fewer arrays nest so deep. -/
theorem exists_stable_or_card_le (n : Nat) :
    (∃ k ≤ n, ∀ a, P a → h.Nests k (.array a) → h.Nests (k + 1) (.array a)) ∨
      ((Finset.range h.arrays.size).filter fun i ↦ P ⟨i⟩ ∧ h.Nests n (.array ⟨i⟩)).card + n ≤
        h.arrays.size := by
  induction n with
  | zero =>
    have hcard := Finset.card_filter_le (Finset.range h.arrays.size)
      fun i ↦ P ⟨i⟩ ∧ h.Nests 0 (.array ⟨i⟩)
    rw [Finset.card_range] at hcard
    exact .inr hcard
  | succ n ih =>
    rcases ih with ⟨k, hk, hstable⟩ | hcard
    · exact .inl ⟨k, Nat.le_succ_of_le hk, hstable⟩
    by_cases hstable : ∀ a, P a → h.Nests n (.array a) → h.Nests (n + 1) (.array a)
    · exact .inl ⟨n, Nat.le_succ n, hstable⟩
    · push Not at hstable
      obtain ⟨a, ha, hnests, hnot⟩ := hstable
      refine .inr ?_
      have hless : ((Finset.range h.arrays.size).filter fun i ↦
          P ⟨i⟩ ∧ h.Nests (n + 1) (.array ⟨i⟩)) ⊂
          (Finset.range h.arrays.size).filter fun i ↦ P ⟨i⟩ ∧ h.Nests n (.array ⟨i⟩) := by
        refine Finset.ssubset_iff_subset_ne.2 ⟨fun i hi ↦ ?_, fun heq ↦ ?_⟩
        · obtain ⟨hi, hPi, hni⟩ := Finset.mem_filter.1 hi
          exact Finset.mem_filter.2 ⟨hi, hPi, hni.pred⟩
        · have hmem : a.index ∈ (Finset.range h.arrays.size).filter fun i ↦
              P ⟨i⟩ ∧ h.Nests n (.array ⟨i⟩) :=
            Finset.mem_filter.2 ⟨Finset.mem_range.2 (hP.lt ha), ha, hnests⟩
          rw [← heq] at hmem
          exact hnot (Finset.mem_filter.1 hmem).2.2
      have := Finset.card_lt_card hless
      omega

/-- Arrays that nest deeper than there are arrays nest as deep as one likes. -/
theorem nests_of_size {a : ArrayId} (ha : P a) (hnests : h.Nests h.arrays.size (.array a))
    (m : Nat) : h.Nests m (.array a) := by
  have hless {k : Nat} (hk : k ≤ h.arrays.size) : h.Nests k (.array a) := by
    refine Nat.le_induction (P := fun n _ ↦ h.Nests n (.array a) → h.Nests k (.array a))
      id (fun n _ ih hn ↦ ih hn.pred) _ hk hnests
  rcases exists_stable_or_card_le hP h.arrays.size with ⟨k, hk, hstable⟩ | hcard
  · by_cases hm : m ≤ k
    · exact hless (hm.trans hk)
    · have := nests_of_stable hP hstable (m - k) a ha (hless hk)
      rwa [Nat.add_sub_cancel' (Nat.le_of_not_le hm)] at this
  · classical
    have hmem : a.index ∈ (Finset.range h.arrays.size).filter fun i ↦
        P ⟨i⟩ ∧ h.Nests h.arrays.size (.array ⟨i⟩) :=
      Finset.mem_filter.2 ⟨Finset.mem_range.2 (hP.lt ha), ha, hnests⟩
    have := Finset.card_pos.2 ⟨_, hmem⟩
    omega

end

end Heap

/-- Arrays that stand for each other are on their heaps. -/
def Pairing.Within (p : Pairing) (h : Heap) : Prop :=
  ∀ {a a' : Nat}, p.array a a' → a < h.arrays.size

/-- Pairs stay within a heap that grows. -/
theorem Pairing.Within.grows {p q : Pairing} {h h₁ : Heap} (hp : p.Within h)
    (hg : Grows p h q h₁) : q.Within h₁ := by
  intro a a' ha
  rcases hg.arrays.fresh ha with hold | hnew
  · exact Nat.lt_of_lt_of_le (hp hold) hg.arrays.size_le
  · exact hnew.2

section

variable {p : Pairing} {h h' : Heap} (hh : Heap.Alike p h h')

include hh

theorem Heap.Alike.contained_left (hp : p.Within h) :
    h.Contained fun a ↦ ∃ a', p.array a.index a' where
  lt ha := hp ha.choose_spec
  inner := by
    rintro a b ⟨a', ha⟩ hb
    have hitems : ArrayAlike Value.Alike p (h.array a) (h'.array ⟨a'⟩) := hh.array ha
    obtain ⟨v, -, hv⟩ := ListAlike.exists_mem hitems hb
    cases hv with
    | array hb => exact ⟨_, hb⟩

theorem Heap.Alike.contained_right (hp : p.Within h) :
    h'.Contained fun a' ↦ ∃ a, p.array a a'.index where
  lt ha := (hh.arrays.lt_iff ha.choose_spec).1 (hp ha.choose_spec)
  inner := by
    rintro a' b' ⟨a, ha⟩ hb
    have hitems : ArrayAlike Value.Alike p (h.array ⟨a⟩) (h'.array a') := hh.array ha
    obtain ⟨v, -, hv⟩ := ListAlike.exists_mem_left hitems hb
    cases hv with
    | array hb => exact ⟨_, hb⟩

end

end Sandbox

namespace Template

open Sandbox

/-! ### Texts and the depth of arrays -/

section

variable (h : Heap) (separator : String) (leaf : Value → String)

/-- Going through several values fails at one of them. -/
theorem nestedTexts?_eq_none {n : Nat} {vs : List Value} :
    nestedTexts? h separator leaf n vs = none ↔
      ∃ v ∈ vs, nestedText? h separator leaf n v = none := by
  induction vs with
  | nil => simp [nestedTexts?]
  | cons v rest ih =>
    rw [nestedTexts?]
    cases hv : nestedText? h separator leaf n v with
    | none => simp [hv]
    | some text =>
      cases hrest : nestedTexts? h separator leaf n rest with
      | none => simpa [hv] using ih.1 hrest
      | some texts => simpa [hv, hrest] using ih

/-- There is no text exactly if arrays nest too deep. -/
theorem nestedText?_eq_none : ∀ {n : Nat} {v : Value},
    nestedText? h separator leaf n v = none ↔ h.Nests n v := by
  intro n
  induction n with
  | zero =>
    intro v
    cases v <;> simp [nestedText?, Heap.Nests]
  | succ n ih =>
    intro v
    cases v with
    | array a => simp [nestedText?, Heap.Nests, nestedTexts?_eq_none, ih]
    | _ => simp [nestedText?, Heap.Nests]

/-- More room makes no difference to a text. -/
theorem nestedText?_succ : ∀ {n : Nat} {v : Value} {text : String},
    nestedText? h separator leaf n v = some text →
      nestedText? h separator leaf (n + 1) v = some text := by
  intro n
  induction n with
  | zero =>
    intro v text hv
    cases v with
    | array a => simp [nestedText?] at hv
    | _ => simpa [nestedText?] using hv
  | succ n ih =>
    have hlist {vs : List Value} : ∀ {texts : List String},
        nestedTexts? h separator leaf n vs = some texts →
          nestedTexts? h separator leaf (n + 1) vs = some texts := by
      induction vs with
      | nil => simp [nestedTexts?]
      | cons v rest ihrest =>
        intro texts htexts
        rw [nestedTexts?] at htexts ⊢
        obtain ⟨text, hv, htexts⟩ := Option.bind_eq_some_iff.1 htexts
        obtain ⟨others, hrest, htexts⟩ := Option.bind_eq_some_iff.1 htexts
        rw [ih hv, ihrest hrest]
        exact htexts
    intro v text hv
    cases v with
    | array a =>
      rw [nestedText?] at hv ⊢
      obtain ⟨texts, htexts, rfl⟩ := Option.map_eq_some_iff.1 hv
      rw [hlist htexts]
      rfl
    | _ => simpa [nestedText?] using hv

/-- More calls do not change what is written. -/
theorem nestedText?_of_le {n m : Nat} (hnm : n ≤ m) {v : Value} {text : String}
    (hv : nestedText? h separator leaf n v = some text) :
    nestedText? h separator leaf m v = some text := by
  induction hnm with
  | refl => exact hv
  | step _ ih => exact nestedText?_succ h separator leaf ih

end

/-! ### Values that are alike -/

section

variable {p : Pairing} {h h' : Heap} (hh : Heap.Alike p h h') {leaf leaf' : Value → String}
  (hleaf : ∀ v v', Value.Alike p v v' → leaf v = leaf' v') (separator : String)

include hh hleaf

/-- With the same room, values that are alike have the same texts. -/
theorem nestedText?_alike : ∀ {n : Nat} {v v' : Value}, Value.Alike p v v' →
    nestedText? h separator leaf n v = nestedText? h' separator leaf' n v' := by
  intro n
  induction n with
  | zero =>
    intro v v' hv
    have hshown := hleaf v v' hv
    cases hv with
    | array ha => simp [nestedText?]
    | _ => simpa [nestedText?] using hshown
  | succ n ih =>
    intro v v' hv
    have hshown := hleaf v v' hv
    have htexts {vs vs' : List Value} (hvs : ListAlike Value.Alike p vs vs') :
        nestedTexts? h separator leaf n vs = nestedTexts? h' separator leaf' n vs' := by
      induction hvs with
      | nil => simp [nestedTexts?]
      | cons hv _ ihrest => rw [nestedTexts?, nestedTexts?, ih hv, ihrest]
    cases hv with
    | array ha =>
      rw [nestedText?, nestedText?, htexts (hh.array ha)]
    | _ => simpa [nestedText?] using hshown

/-- Values that are alike have the same texts, however many arrays their heaps hold besides. -/
theorem arrayText?_alike (hp : p.Within h) {v v' : Value} (hv : Value.Alike p v v') :
    arrayText? h separator leaf v = arrayText? h' separator leaf' v' := by
  have hsame {n : Nat} := nestedText?_alike hh hleaf separator (n := n) hv
  unfold arrayText?
  cases hleft : nestedText? h separator leaf h.arrays.size v with
  | none =>
    have hnests := (nestedText?_eq_none h separator leaf).1 hleft
    obtain ⟨a, rfl⟩ := hnests.exists_array
    cases hv with
    | array ha =>
      have hdeep := h.nests_of_size (hh.contained_left hp) ⟨_, ha⟩ hnests h'.arrays.size
      exact (hsame.symm.trans ((nestedText?_eq_none h separator leaf).2 hdeep)).symm
  | some text =>
    cases hright : nestedText? h' separator leaf' h'.arrays.size v' with
    | none =>
      have hnests := (nestedText?_eq_none h' separator leaf').1 hright
      obtain ⟨a', rfl⟩ := hnests.exists_array
      cases hv with
      | array ha =>
        have hdeep := h'.nests_of_size (hh.contained_right hp) ⟨_, ha⟩ hnests h.arrays.size
        rw [hsame, (nestedText?_eq_none h' separator leaf').2 hdeep] at hleft
        exact nomatch hleft
    | some text' =>
      rw [← hsame] at hright
      have hl := nestedText?_of_le h separator leaf (Nat.le_max_left _ h'.arrays.size) hleft
      have hr := nestedText?_of_le h separator leaf (Nat.le_max_right h.arrays.size _) hright
      exact hl.symm.trans hr

end

/-! ### Classes and styles -/

section

variable {p : Pairing} {h h' : Heap} (hh : Heap.Alike p h h') {v v' : Value}
  (hv : Value.Alike p v v')

include hh hv

theorem classLeaf_alike : classLeaf h v = classLeaf h' v' := by
  cases hv with
  | object ho =>
    have hfields := ListAlike.filter (hh.object ho).fields
      (f := fun field ↦ field.2.isTruthy) (g := fun field ↦ field.2.isTruthy)
      fun _ _ hf ↦ hf.2.isTruthy_eq
    exact congrArg (" ".intercalate ·) (ListAlike.map_eq hfields fun _ _ hf ↦ hf.1)
  | _ => rfl

omit hh in
theorem isStated_alike : isStated v = isStated v' := by
  cases hv <;> rfl

theorem styleLeaf_alike : styleLeaf h v = styleLeaf h' v' := by
  cases hv with
  | object ho =>
    have hfields := ListAlike.filter (hh.object ho).fields
      (f := fun field ↦ isStated field.2) (g := fun field ↦ isStated field.2)
      fun _ _ hf ↦ isStated_alike hf.2
    refine congrArg ("; ".intercalate ·) (ListAlike.map_eq hfields fun field field' hf ↦ ?_)
    obtain ⟨k, u⟩ := field
    obtain ⟨k', u'⟩ := field'
    obtain ⟨rfl, hu⟩ : k = k' ∧ Value.Alike p u u' := hf
    exact congrArg (styleName k ++ ": " ++ ·) (hh.text_eq hu)
  | _ => rfl

variable (hp : p.Within h)

include hp

/-- Values that are alike give the same classes. -/
theorem classText?_alike : classText? h v = classText? h' v' :=
  arrayText?_alike hh (fun _ _ ↦ classLeaf_alike hh) " " hp hv

/-- Values that are alike give the same styles. -/
theorem styleText?_alike : styleText? h v = styleText? h' v' :=
  arrayText?_alike hh (fun _ _ ↦ styleLeaf_alike hh) "; " hp hv

end

end Template

end Nodecraft
