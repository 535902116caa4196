/-!
# Arrays of cells of which some stand for each other

Two heaps are compared kind of cell by kind of cell: a relation between indices says which cells
stand for each other, and `Cells.Alike` says that it pairs each cell with at most one other, that
it pairs the same places beyond the ends of both arrays, and that the contents of paired cells are
related. New cells at the two ends may then always be paired (`Cells.Alike.push`).

`Cells.Kept` compares an array with a later state of itself: it only grows, pairs are only added
between new cells, and cells without a counterpart keep their content.
-/

set_option autoImplicit false

namespace Nodecraft.Sandbox.Cells

variable {α : Type}

theorem getD_push (xs : Array α) (x d : α) (i : Nat) :
    (xs.push x).getD i d = if i = xs.size then x else xs.getD i d := by
  simp only [Array.getD_eq_getD_getElem?, Array.getElem?_push]
  split <;> rfl

theorem getD_modify (xs : Array α) (f : α → α) (d : α) (i j : Nat) :
    (xs.modify i f).getD j d = if i = j ∧ j < xs.size then f (xs.getD j d) else xs.getD j d := by
  by_cases hj : j < xs.size
  · by_cases hi : i = j
    · simp [Array.getD, hj, hi, Array.getElem_modify]
    · simp [Array.getD, hj, hi, Array.getElem_modify]
  · simp [Array.getD, hj]

/-- The pairs of a relation and one more. -/
def extend (R : Nat → Nat → Prop) (n n' : Nat) : Nat → Nat → Prop :=
  fun a a' ↦ R a a' ∨ (a = n ∧ a' = n')

/-- Paired cells have related contents, and no cell has two counterparts. -/
structure Alike (d : α) (R : Nat → Nat → Prop) (C : Nat → α → α → Prop) (xs xs' : Array α) :
    Prop where
  injective {a a' b b' : Nat} : R a a' → R b b' → (a = b ↔ a' = b')
  frontier {a a' : Nat} : R a a' → ∀ k, a = xs.size + k ↔ a' = xs'.size + k
  content {a a' : Nat} : R a a' → C a (xs.getD a d) (xs'.getD a' d)

namespace Alike

variable {d : α} {R : Nat → Nat → Prop} {C D : Nat → α → α → Prop} {xs xs' : Array α}

theorem mono (h : Alike d R C xs xs') (hCD : ∀ {a a' x x'}, R a a' → C a x x' → D a x x') :
    Alike d R D xs xs' where
  injective := h.injective
  frontier := h.frontier
  content hR := hCD hR (h.content hR)

theorem lt_iff (h : Alike d R C xs xs') {a a' : Nat} (hR : R a a') :
    a < xs.size ↔ a' < xs'.size := by
  have hk := h.frontier hR
  constructor
  · intro ha
    refine Nat.lt_of_not_le fun hle ↦ ?_
    have := (hk (a' - xs'.size)).2 (by omega)
    omega
  · intro ha'
    refine Nat.lt_of_not_le fun hle ↦ ?_
    have := (hk (a - xs.size)).1 (by omega)
    omega

theorem eq_size_iff (h : Alike d R C xs xs') {a a' : Nat} (hR : R a a') :
    a = xs.size ↔ a' = xs'.size :=
  h.frontier hR 0

/-- Two new cells are paired with each other. -/
theorem push (h : Alike d R C xs xs') {x x' : α}
    (hold : ∀ {a a' y y'}, R a a' → a ≠ xs.size → C a y y' → D a y y') (hnew : D xs.size x x') :
    Alike d (extend R xs.size xs'.size) D (xs.push x) (xs'.push x') where
  injective := by
    rintro a a' b b' (ha | ⟨rfl, rfl⟩) (hb | ⟨rfl, rfl⟩)
    · exact h.injective ha hb
    · exact h.eq_size_iff ha
    · exact eq_comm.trans ((h.eq_size_iff hb).trans eq_comm)
    · simp
  frontier := by
    rintro a a' (ha | ⟨rfl, rfl⟩) k
    · have := h.frontier ha (k + 1)
      simp only [Array.size_push]
      omega
    · simp only [Array.size_push]
      omega
  content := by
    intro a a' ha
    have hiff : a = xs.size ↔ a' = xs'.size := by
      rcases ha with ha | ⟨rfl, rfl⟩
      · exact h.eq_size_iff ha
      · simp
    rw [getD_push, getD_push]
    by_cases hsize : a = xs.size
    · rw [if_pos hsize, if_pos (hiff.1 hsize), hsize]
      exact hnew
    · rw [if_neg hsize, if_neg fun h' ↦ hsize (hiff.2 h')]
      rcases ha with ha | ⟨ha, -⟩
      · exact hold ha hsize (h.content ha)
      · exact absurd ha hsize

/-- Paired cells may be changed together. -/
theorem modify (h : Alike d R C xs xs') {i i' : Nat} (hi : R i i') {f f' : α → α}
    (hf : C i (xs.getD i d) (xs'.getD i' d) → C i (f (xs.getD i d)) (f' (xs'.getD i' d))) :
    Alike d R C (xs.modify i f) (xs'.modify i' f') where
  injective := h.injective
  frontier := by
    simp only [Array.size_modify]
    exact h.frontier
  content := by
    intro a a' ha
    rw [getD_modify, getD_modify]
    have hia := h.injective hi ha
    have hlt := h.lt_iff ha
    by_cases hcond : i = a ∧ a < xs.size
    · obtain ⟨rfl, hsize⟩ := hcond
      obtain rfl := hia.1 rfl
      rw [if_pos ⟨rfl, hsize⟩, if_pos ⟨rfl, hlt.1 hsize⟩]
      exact hf (h.content hi)
    · rw [if_neg hcond, if_neg fun h' ↦ hcond ⟨hia.2 h'.1, hlt.2 h'.2⟩]
      exact h.content ha

end Alike

/-- A later state of an array and of the relation that pairs its cells with others. -/
structure Kept (d : α) (R S : Nat → Nat → Prop) (xs ys : Array α) : Prop where
  size_le : xs.size ≤ ys.size
  mono {a a' : Nat} : R a a' → S a a'
  fresh {a a' : Nat} : S a a' → R a a' ∨ (xs.size ≤ a ∧ a < ys.size)
  covered {a : Nat} : xs.size ≤ a → a < ys.size → ∃ a', S a a'
  unpaired {a : Nat} : a < xs.size → (∀ a', ¬R a a') → ys.getD a d = xs.getD a d

namespace Kept

variable {d : α} {R S T : Nat → Nat → Prop} {xs ys zs : Array α}

theorem refl : Kept d R R xs xs where
  size_le := Nat.le_refl _
  mono h := h
  fresh h := .inl h
  covered h h' := absurd h' (Nat.not_lt_of_le h)
  unpaired _ _ := rfl

theorem trans (h : Kept d R S xs ys) (h' : Kept d S T ys zs) : Kept d R T xs zs where
  size_le := Nat.le_trans h.size_le h'.size_le
  mono hR := h'.mono (h.mono hR)
  fresh hT := by
    rcases h'.fresh hT with hS | ⟨hle, hlt⟩
    · rcases h.fresh hS with hR | ⟨hle, hlt⟩
      · exact .inl hR
      · exact .inr ⟨hle, Nat.lt_of_lt_of_le hlt h'.size_le⟩
    · exact .inr ⟨Nat.le_trans h.size_le hle, hlt⟩
  covered {a} hle hlt := by
    by_cases ha : a < ys.size
    · obtain ⟨a', hS⟩ := h.covered hle ha
      exact ⟨a', h'.mono hS⟩
    · exact h'.covered (Nat.le_of_not_lt ha) hlt
  unpaired {a} ha hR := by
    have hS (a' : Nat) : ¬S a a' := fun hS ↦ by
      rcases h.fresh hS with h | ⟨h, -⟩
      · exact hR a' h
      · exact Nat.not_lt_of_le h ha
    exact (h'.unpaired (Nat.lt_of_lt_of_le ha h.size_le) hS).trans (h.unpaired ha hR)

theorem push (x : α) (n' : Nat) : Kept d R (extend R xs.size n') xs (xs.push x) where
  size_le := by simp
  mono h := .inl h
  fresh h := h.imp_right fun h ↦ by simp [h.1]
  covered {a} hle hlt := by
    rw [Array.size_push] at hlt
    exact ⟨n', .inr ⟨by omega, rfl⟩⟩
  unpaired {a} ha _ := by
    rw [getD_push, if_neg (Nat.ne_of_lt ha)]

theorem modify {i i' : Nat} (hi : R i i') (f : α → α) : Kept d R R xs (xs.modify i f) where
  size_le := by simp
  mono h := h
  fresh h := .inl h
  covered h h' := absurd h' (by simpa using h)
  unpaired {a} _ hR := by
    rw [getD_modify, if_neg]
    rintro ⟨rfl, -⟩
    exact hR i' hi

end Kept

end Nodecraft.Sandbox.Cells
