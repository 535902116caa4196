import Mathlib.Tactic.FieldSimp
import Nodecraft.Proofs.Number.Fields
import Nodecraft.Proofs.Number.Whole

/-!
# Correct rounding

A decimal numeral is read as the double nearest to it, and as the infinity of its sign where it lies
beyond the doubles by half a unit of the last place or more; of two doubles that are equally near,
the one with the even mantissa is taken. The argument follows a mantissa with its round bit and its
sticky bit: the bits tell all that rounding depends on, shifting a bit out keeps that so, and the
product or quotient that a numeral is made from supplies bits of which it holds at the start.
-/

set_option autoImplicit false

namespace Nodecraft.Number

open Float.Model Float.Model.UnpackedFloat
open Float.Model.Format (binary64)

/-! ### Extended mantissas -/

/-- The mantissa and its two bits tell all of a number that rounding it depends on. -/
def Describes (em : ExtendedMantissa) (z : ℚ) : Prop :=
  match em.roundBit, em.stickyBit with
  | false, false => z = em.mantissa
  | false, true => em.mantissa < z ∧ z < em.mantissa + 1 / 2
  | true, false => z = em.mantissa + 1 / 2
  | true, true => em.mantissa + 1 / 2 < z ∧ z < em.mantissa + 1

/-- A whole number nearest to another one, which is even if two are. -/
structure Nearest (k : ℕ) (z : ℚ) : Prop where
  near : |(k : ℚ) - z| ≤ 1 / 2
  even : |(k : ℚ) - z| = 1 / 2 → k % 2 = 0

namespace Describes

variable {em : ExtendedMantissa} {z : ℚ}

theorem le (h : Describes em z) : em.mantissa ≤ z := by
  obtain ⟨m, r, s⟩ := em
  cases r <;> cases s <;> simp only [Describes] at h ⊢ <;> linarith

theorem lt (h : Describes em z) : z < em.mantissa + 1 := by
  obtain ⟨m, r, s⟩ := em
  cases r <;> cases s <;> simp only [Describes] at h ⊢ <;> linarith

/-- Shifting a bit out halves the number. -/
theorem shiftRightOne (h : Describes em z) : Describes em.shiftRightOne (z / 2) := by
  obtain ⟨m, r, s⟩ := em
  change Describes ⟨m / 2, m % 2 != 0, r || s⟩ (z / 2)
  obtain ⟨k, rfl | rfl⟩ : ∃ k, m = 2 * k ∨ m = 2 * k + 1 := ⟨m / 2, by omega⟩
  · rw [show 2 * k / 2 = k by omega, show (2 * k % 2 != 0) = false by simp]
    cases r <;> cases s <;>
      simp only [Describes, Bool.or_false, Bool.false_or, Nat.cast_mul, Nat.cast_ofNat] at h ⊢
    · linarith
    all_goals exact ⟨by linarith, by linarith⟩
  · rw [show (2 * k + 1) / 2 = k by omega, show ((2 * k + 1) % 2 != 0) = true by simp]
    cases r <;> cases s <;>
      simp only [Describes, Bool.or_false, Bool.false_or, Nat.cast_add, Nat.cast_one, Nat.cast_mul,
        Nat.cast_ofNat] at h ⊢
    · linarith
    all_goals exact ⟨by linarith, by linarith⟩

/-- A mantissa that is shifted goes on describing its number. -/
theorem shifts (h : Describes em z) (k : ℕ) :
    Describes (Nat.repeat ExtendedMantissa.shiftRightOne k em) (z / 2 ^ k) := by
  induction k with
  | zero => rwa [pow_zero, div_one]
  | succ k ih =>
    rw [pow_succ, ← div_div]
    exact ih.shiftRightOne

/-- What the bits say about rounding is so. -/
theorem nearest (h : Describes em z) : Nearest em.roundedMantissa z := by
  obtain ⟨m, r, s⟩ := em
  cases r <;> cases s <;> simp only [Describes] at h
  · change Nearest m z
    rw [h]
    exact ⟨by norm_num, by norm_num⟩
  · change Nearest m z
    have habs : |(m : ℚ) - z| < 1 / 2 := abs_lt.2 ⟨by linarith, by linarith⟩
    exact ⟨habs.le, fun h ↦ absurd h habs.ne⟩
  · change Nearest (m + m % 2) z
    have heven : (m + m % 2) % 2 = 0 := by omega
    refine ⟨?_, fun _ ↦ heven⟩
    rw [h]
    rcases Nat.mod_two_eq_zero_or_one m with hmod | hmod
    · rw [hmod, abs_le]
      push_cast
      exact ⟨by linarith, by linarith⟩
    · rw [hmod, abs_le]
      push_cast
      exact ⟨by linarith, by linarith⟩
  · change Nearest (m + 1) z
    have habs : |((m + 1 : ℕ) : ℚ) - z| < 1 / 2 := by
      push_cast
      exact abs_lt.2 ⟨by linarith, by linarith⟩
    exact ⟨habs.le, fun h ↦ absurd h habs.ne⟩

/-- Rounding adds one at most. -/
theorem roundedMantissa_le (em : ExtendedMantissa) :
    em.mantissa ≤ em.roundedMantissa ∧ em.roundedMantissa ≤ em.mantissa + 1 := by
  obtain ⟨m, r, s⟩ := em
  cases r <;> cases s
  · exact ⟨Nat.le_refl m, Nat.le_succ m⟩
  · exact ⟨Nat.le_refl m, Nat.le_succ m⟩
  · change m ≤ m + m % 2 ∧ m + m % 2 ≤ m + 1
    omega
  · exact ⟨Nat.le_succ m, Nat.le_refl _⟩

end Describes

/-- A shift divides by a power of two. -/
theorem mantissa_shifts (em : ExtendedMantissa) (k : ℕ) :
    (Nat.repeat ExtendedMantissa.shiftRightOne k em).mantissa = em.mantissa / 2 ^ k := by
  induction k with
  | zero => exact (Nat.div_one _).symm
  | succ k ih =>
    change (Nat.repeat ExtendedMantissa.shiftRightOne k em).mantissa / 2 = _
    rw [ih, Nat.div_div_eq_div_mul, Nat.pow_succ]

/-! ### The nearest double -/

/-- The nearest number is so among all numbers, and even where there are two. -/
theorem Nearest.among {k : ℕ} {z : ℚ} (h : Nearest k z) (j : ℕ) :
    |(k : ℚ) - z| ≤ |(j : ℚ) - z| ∧ (j ≠ k → |(k : ℚ) - z| = |(j : ℚ) - z| → k % 2 = 0) := by
  rcases eq_or_ne j k with rfl | hne
  · exact ⟨le_rfl, fun hne ↦ absurd rfl hne⟩
  · have hone : (1 : ℚ) ≤ |(j : ℚ) - k| := by
      have : (1 : ℤ) ≤ |(j : ℤ) - k| := Int.one_le_abs (sub_ne_zero.2 (by exact_mod_cast hne))
      exact_mod_cast this
    have htriangle := abs_sub_le (j : ℚ) z k
    rw [abs_sub_comm z] at htriangle
    have hhalf := h.near
    exact ⟨by linarith, fun _ heq ↦ h.even (by linarith)⟩

/-- The mantissa and the exponent of a finite double. -/
structure IsDouble (v : Exact) : Prop where
  mantissa_lt : v.mantissa < 2 ^ 53
  leading : 2 ^ 52 ≤ v.mantissa ∨ v.exponent = -1074
  le_exponent : -1074 ≤ v.exponent
  exponent_le : v.exponent ≤ 971

/-- What a float stands for is a double. -/
theorem isDouble_of_decode? {x : Float} {v : Exact} (h : decode? x = some v) : IsDouble v := by
  rw [decode?_eq, show x.toModel.unpack = UnpackedFloat.unpack binary64 x.toModel.toBits.toBitVec
    from rfl, exactOf?_unpack] at h
  generalize x.toModel.toBits.toBitVec.toNat = b at h
  split at h
  · exact nomatch h
  · split at h
    · obtain rfl := Option.some.inj h
      exact ⟨by dsimp only; omega, .inr rfl, le_rfl, by dsimp only; omega⟩
    · obtain rfl := Option.some.inj h
      exact ⟨by dsimp only; omega, .inl (by dsimp only; omega), by dsimp only; omega,
        by dsimp only; omega⟩

/-- A number that is scaled by the exponent which its double has, up to rounding. -/
structure Scaled (q : ℚ) (m : ℕ) (t : ℤ) : Prop where
  le : (m : ℚ) ≤ q / 2 ^ t
  lt : q / 2 ^ t < m + 1
  mantissa_lt : m < 2 ^ 53
  leading : 2 ^ 52 ≤ m ∨ t = -1074
  le_exponent : -1074 ≤ t

theorem two_zpow_pos (t : ℤ) : (0 : ℚ) < 2 ^ t := zpow_pos (by norm_num) t

namespace Scaled

variable {q : ℚ} {m k : ℕ} {t : ℤ}

/-- A number with a smaller exponent is smaller than all mantissas with the larger one. -/
theorem magnitude_lt {v : Exact} (hv : IsDouble v) (hlt : v.exponent < t) :
    v.magnitude < 2 ^ 52 * 2 ^ t := by
  have hmantissa : (v.mantissa : ℚ) < 2 ^ 53 := by exact_mod_cast hv.mantissa_lt
  have hexponent : (2 : ℚ) ^ v.exponent ≤ 2 ^ (t - 1) :=
    zpow_le_zpow_right₀ (by norm_num) (by omega)
  calc v.magnitude < 2 ^ 53 * 2 ^ v.exponent :=
        mul_lt_mul_of_pos_right hmantissa (two_zpow_pos _)
    _ ≤ 2 ^ 53 * 2 ^ (t - 1) := mul_le_mul_of_nonneg_left hexponent (by norm_num)
    _ = 2 ^ 52 * 2 ^ t := by rw [zpow_sub_one₀ (by norm_num)]; ring

/-- A larger exponent makes a multiple. -/
theorem magnitude_eq {v : Exact} (hle : t ≤ v.exponent) :
    ∃ j : ℕ, v.magnitude = j * 2 ^ t := by
  obtain ⟨n, hn⟩ := Int.le.dest hle
  refine ⟨v.mantissa * 2 ^ n, ?_⟩
  unfold Exact.magnitude
  rw [← hn, zpow_add₀ (by norm_num), zpow_natCast]
  push_cast
  ring

theorem nearest (h : Scaled q m t) (hk : Nearest k (q / 2 ^ t)) {v : Exact} (hv : IsDouble v) :
    |k * 2 ^ t - q| ≤ |v.magnitude - q| ∧
      (v.magnitude ≠ k * 2 ^ t → |k * 2 ^ t - q| = |v.magnitude - q| → k % 2 = 0) := by
  have hpos := two_zpow_pos t
  have hq : q = q / 2 ^ t * 2 ^ t := (div_mul_cancel₀ q hpos.ne').symm
  have hscale (a : ℚ) : |a * 2 ^ t - q| = |a - q / 2 ^ t| * 2 ^ t := by
    conv_lhs => rw [hq, ← sub_mul, abs_mul, abs_of_pos hpos]
  rcases le_or_gt t v.exponent with hle | hlt
  · obtain ⟨j, hj⟩ := magnitude_eq hle
    obtain ⟨hnear, heven⟩ := hk.among j
    rw [hj, hscale, hscale]
    refine ⟨mul_le_mul_of_nonneg_right hnear hpos.le, fun hne heq ↦ heven ?_ ?_⟩
    · exact fun hjk ↦ hne (by rw [hjk])
    · exact mul_right_cancel₀ hpos.ne' heq
  · have hleading : (2 : ℚ) ^ 52 ≤ m := by
      have := h.leading.resolve_right (by have := hv.le_exponent; omega)
      exact_mod_cast this
    have hmagnitude := magnitude_lt hv hlt
    have hnear := (hk.among (2 ^ 52)).1
    have hle := h.le
    have hover : 0 ≤ q / 2 ^ t - 2 ^ 52 := by linarith
    rw [Nat.cast_pow, Nat.cast_ofNat, abs_sub_comm (2 ^ 52 : ℚ), abs_of_nonneg hover] at hnear
    have hbelow : |k * 2 ^ t - q| ≤ q - 2 ^ 52 * 2 ^ t := by
      rw [hscale]
      calc |(k : ℚ) - q / 2 ^ t| * 2 ^ t ≤ (q / 2 ^ t - 2 ^ 52) * 2 ^ t :=
            mul_le_mul_of_nonneg_right hnear hpos.le
        _ = q - 2 ^ 52 * 2 ^ t := by rw [sub_mul, ← hq]
    have hfar : q - 2 ^ 52 * 2 ^ t < |v.magnitude - q| := by
      rw [abs_sub_comm]
      exact lt_of_lt_of_le (by linarith) (le_abs_self _)
    exact ⟨by linarith, fun _ heq ↦ absurd heq (by linarith)⟩

end Scaled

/-! ### Rounding to 53 bits -/

/-- The exponent that a double has whose value is about `m · 2 ^ e`. -/
def target (m : ℕ) (e : ℤ) : ℤ := max ((m.log2 : ℤ) + 1 + e - 53) (-1074)

/-- The shift to the exponent that a double of this size has. -/
theorem shiftToTargetExponent_eq (m : ℕ) (e : ℤ) (acc : Accuracy) :
    shiftToTargetExponent binary64 m e acc =
      (Nat.repeat ExtendedMantissa.shiftRightOne (target m e - e).toNat
        (ExtendedMantissa.ofMantissaAndAccuracy m acc), e + ((target m e - e).toNat : ℤ)) :=
  rfl

theorem mantissa_ofMantissaAndAccuracy (m : ℕ) (acc : Accuracy) :
    (ExtendedMantissa.ofMantissaAndAccuracy m acc).mantissa = m := by
  cases acc with
  | exact => rfl
  | inexact o => cases o <;> rfl

/-- The bits that the target exponent leaves are those of a mantissa. -/
theorem mantissa_target {m : ℕ} {e : ℤ} (he : e ≤ target m e) :
    m / 2 ^ (target m e - e).toNat < 2 ^ 53 ∧
      (2 ^ 52 ≤ m / 2 ^ (target m e - e).toNat ∨ target m e = -1074) := by
  obtain ⟨k, hk⟩ := Int.le.dest he
  have hshift : (target m e - e).toNat = k := by omega
  have htarget : target m e = max ((m.log2 : ℤ) + 1 + e - 53) (-1074) := rfl
  have hpow := Nat.two_pow_pos k
  rw [hshift]
  constructor
  · rw [Nat.div_lt_iff_lt_mul hpow, ← Nat.pow_add]
    exact Nat.lt_of_lt_of_le Nat.lt_log2_self (Nat.pow_le_pow_right (by decide) (by omega))
  · rcases le_or_gt ((m.log2 : ℤ) + 1 + e - 53) (-1074) with hle | hlt
    · exact .inr (by omega)
    · left
      have hlog : m.log2 = 52 + k := by omega
      have hm : m ≠ 0 := by
        rintro rfl
        have : (0 : ℕ).log2 = 0 := Nat.log2_zero
        omega
      rw [Nat.le_div_iff_mul_le hpow, ← Nat.pow_add, ← hlog]
      exact Nat.log2_self_le hm

/-- After the shift the mantissa has the digits of a double. -/
theorem scaled_shift {m : ℕ} {e : ℤ} {acc : Accuracy} {q : ℚ}
    (h : Describes (.ofMantissaAndAccuracy m acc) (q / 2 ^ e)) (he : e ≤ target m e) :
    ∃ em, shiftToTargetExponent binary64 m e acc = (em, target m e) ∧
      Describes em (q / 2 ^ target m e) ∧ Scaled q em.mantissa (target m e) := by
  obtain ⟨k, hk⟩ := Int.le.dest he
  have hshift : (target m e - e).toNat = k := by omega
  have hscale : q / 2 ^ e / 2 ^ k = q / 2 ^ target m e := by
    rw [div_div, ← hk, zpow_add₀ (by norm_num), zpow_natCast]
  have hdescribes := h.shifts k
  rw [hscale] at hdescribes
  obtain ⟨hlt, hleading⟩ := mantissa_target he
  rw [hshift] at hlt hleading
  have hmantissa := mantissa_shifts (.ofMantissaAndAccuracy m acc) k
  rw [mantissa_ofMantissaAndAccuracy] at hmantissa
  rw [← hmantissa] at hlt hleading
  refine ⟨_, ?_, hdescribes, hdescribes.le, hdescribes.lt, hlt, hleading, le_max_right _ _⟩
  rw [shiftToTargetExponent_eq, hshift, hk]

/-- The number `± m · 2 ^ e`, which may be zero. -/
def numeral (s : Sign) (m : ℕ) (e : ℤ) : UnpackedFloat :=
  if h : m = 0 then .zero s else .finite s m e (Nat.pos_of_ne_zero h)

theorem numeral_zero (s : Sign) (e : ℤ) : numeral s 0 e = .zero s := rfl

theorem numeral_of_ne (s : Sign) {m : ℕ} (e : ℤ) (hm : m ≠ 0) :
    numeral s m e = .finite s m e (Nat.pos_of_ne_zero hm) := dif_neg hm

/-- Rounding shifts, rounds, and shifts once more if the rounding carried. -/
theorem roundWithAccuracy_eq (s : Sign) {m : ℕ} {e t t' : ℤ} {acc : Accuracy}
    {em em' : ExtendedMantissa} (h : shiftToTargetExponent binary64 m e acc = (em, t))
    (h' : shiftToTargetExponent binary64 em.roundedMantissa t .exact = (em', t')) :
    roundWithAccuracy binary64 s m e acc = numeral s em'.mantissa t' := by
  have hfinish (a : ExtendedMantissa × ℤ) (ha : shiftToTargetExponent binary64 m e acc = a)
      (b : ExtendedMantissa × ℤ)
      (hb : shiftToTargetExponent binary64 a.1.roundedMantissa a.2 .exact = b) :
      roundWithAccuracy binary64 s m e acc = numeral s b.1.mantissa b.2 := by
    subst ha hb
    rfl
  exact hfinish _ h _ h'

/-- A mantissa of 53 bits stays. -/
theorem shift_kept {k : ℕ} {t : ℤ} (hk : k < 2 ^ 53) (hleading : 2 ^ 52 ≤ k ∨ t = -1074)
    (ht : -1074 ≤ t) :
    shiftToTargetExponent binary64 k t .exact = (⟨k, false, false⟩, t) := by
  have hlog : k.log2 ≤ 52 := by
    rcases Nat.eq_zero_or_pos k with rfl | hpos
    · exact Nat.zero_le 52
    · exact Nat.le_of_lt_succ ((Nat.log2_lt (Nat.ne_of_gt hpos)).2 hk)
  have hle : target k t ≤ t := max_le (by omega) ht
  rw [shiftToTargetExponent_eq, show (target k t - t).toNat = 0 by omega, Int.natCast_zero,
    add_zero]
  rfl

/-- A mantissa that rounding has made too long loses a zero. -/
theorem shift_carry {t : ℤ} (ht : -1074 ≤ t) :
    shiftToTargetExponent binary64 (2 ^ 53) t .exact = (⟨2 ^ 52, false, false⟩, t + 1) := by
  have hlog : ((2 : ℕ) ^ 53).log2 = 53 := Nat.log2_two_pow
  have htarget : target (2 ^ 53) t = t + 1 := by
    unfold target
    rw [hlog]
    omega
  rw [shiftToTargetExponent_eq, htarget, show (t + 1 - t).toNat = 1 by omega]
  rfl

/-! ### Numbers that have bits -/

/-- A number as it is unpacked from bits. -/
inductive Canonical : UnpackedFloat → Prop
  | notANumber : Canonical .notANumber
  | infinity (s : Sign) : Canonical (.infinity s)
  | zero (s : Sign) : Canonical (.zero s)
  | subnormal (s : Sign) {m : ℕ} (hm : 0 < m) (hlt : m < 2 ^ 52) :
    Canonical (.finite s m (-1074) hm)
  | normal (s : Sign) {m : ℕ} {e : ℤ} (h : Normal m e) : Canonical (normal s h)

/-- A number without a leading bit is stored with the least exponent. -/
theorem pack_subnormal (s : Sign) {m : ℕ} (hm : 0 < m) (hlt : m < 2 ^ 52) :
    UnpackedFloat.pack binary64 (.finite s m (-1074) hm) =
      packComponents binary64 s 0#11 (BitVec.ofNat 52 m) := by
  have hlog : m.log2 + 1 ≠ 53 := by
    have := (Nat.log2_lt (Nat.ne_of_gt hm)).2 hlt
    omega
  change (if 2 ^ 11 ≤ ((-1074 : ℤ) + 1023 + 52).toNat + 1 then packedInfinity binary64 s
    else if m.log2 + 1 = 53 then
      packComponents binary64 s (BitVec.ofNat 11 ((-1074 : ℤ) + 1023 + 52).toNat)
        (BitVec.ofNat 52 m)
    else packComponents binary64 s 0#11 (BitVec.ofNat 52 m)) = _
  rw [if_neg (by decide), if_neg hlog]

/-- A canonical number has the value of its bits. -/
theorem exactOf?_pack {u : UnpackedFloat} (h : Canonical u) :
    exactOf? (UnpackedFloat.unpack binary64 (UnpackedFloat.pack binary64 u)) = exactOf? u := by
  cases h with
  | notANumber => decide
  | infinity s => cases s <;> decide
  | zero s => cases s <;> decide
  | subnormal s hm hlt =>
    rw [pack_subnormal s hm hlt, exactOf?_subnormal _ unpackExponent_packComponents,
      ← sign_beq_negative, ← toNat_unpackMantissa, unpackSign_packComponents,
      unpackMantissa_packComponents, BitVec.toNat_ofNat, Nat.mod_eq_of_lt hlt]
    rfl
  | normal s h => rw [unpack_pack_normal]

theorem decode?_pack {u : UnpackedFloat} (h : Canonical u) :
    decode? (.ofModel (.pack u)) = exactOf? u :=
  (decode?_eq _).trans (exactOf?_pack h)

/-- What bits stand for is canonical. -/
theorem canonical_unpack (b : BitVec binary64.numBits) :
    Canonical (UnpackedFloat.unpack binary64 b) := by
  by_cases hinfinite : unpackExponent b = -1#11
  · change Canonical (if unpackExponent b = -1#11 then
      if unpackMantissa b = 0#52 then .infinity _ else .notANumber else _)
    rw [if_pos hinfinite]
    split
    · exact .infinity _
    · exact .notANumber
  · by_cases hsubnormal : unpackExponent b = 0#11
    · change Canonical (if unpackExponent b = -1#11 then _ else if unpackExponent b = 0#11 then
        if h : unpackMantissa b = 0#52 then .zero _
        else .finite _ (unpackMantissa b).toNat ((unpackExponent b).toNat - 1075 + 1) _ else _)
      rw [if_neg hinfinite, if_pos hsubnormal]
      by_cases hzero : unpackMantissa b = 0#52
      · rw [dif_pos hzero]
        exact .zero _
      · rw [dif_neg hzero]
        have hexponent : ((unpackExponent b).toNat : ℤ) - 1075 + 1 = -1074 := by
          rw [hsubnormal]
          rfl
        have hpos : 0 < (unpackMantissa b).toNat :=
          Nat.pos_of_ne_zero fun h ↦ hzero (BitVec.eq_of_toNat_eq h)
        have hfinite : UnpackedFloat.finite (Sign.ofBitVec (unpackSign b)) (unpackMantissa b).toNat
            ((unpackExponent b).toNat - 1075 + 1) hpos = .finite _ _ (-1074) hpos :=
          finite_congr rfl rfl hexponent
        rw [hfinite]
        exact .subnormal _ hpos (unpackMantissa b).isLt
    · have hleading := toNat_leading_append b
      have hmod := Nat.mod_lt b.toNat (Nat.two_pow_pos 52)
      have hlt : (unpackExponent b).toNat < 2 ^ 11 := (unpackExponent b).isLt
      have hne : (unpackExponent b).toNat ≠ 2047 := fun h ↦ hinfinite (BitVec.eq_of_toNat_eq h)
      have hne' : (unpackExponent b).toNat ≠ 0 := fun h ↦ hsubnormal (BitVec.eq_of_toNat_eq h)
      have hnormal : Normal (1#1 ++ unpackMantissa b).toNat ((unpackExponent b).toNat - 1075) :=
        ⟨by omega, by omega, by omega, by omega⟩
      rw [unpack_of_range hinfinite hsubnormal hnormal.pos]
      exact .normal _ hnormal

theorem Canonical.neg {u : UnpackedFloat} (h : Canonical u) : Canonical u.neg := by
  cases h with
  | notANumber => exact .notANumber
  | infinity s => exact .infinity (-s)
  | zero s => exact .zero (-s)
  | subnormal s hm hlt => exact .subnormal (-s) hm hlt
  | normal s h => exact .normal (-s) h

theorem neg_beq_negative (s : Sign) : (-s == .negative) = !(s == .negative) := by
  cases s <;> rfl

/-- The opposite number has the opposite value. -/
theorem exactOf?_neg (u : UnpackedFloat) :
    exactOf? u.neg = (exactOf? u).map fun v ↦ { v with negative := !v.negative } := by
  cases u with
  | notANumber => rfl
  | infinity s => rfl
  | zero s => exact congrArg (fun b ↦ some (Exact.mk b 0 (-1074))) (neg_beq_negative s)
  | finite s m e hm => exact congrArg (fun b ↦ some (Exact.mk b m e)) (neg_beq_negative s)

/-- Negation changes the sign alone. -/
theorem decode?_neg (x : Float) :
    decode? (-x) = (decode? x).map fun v ↦ { v with negative := !v.negative } := by
  have hcanonical : Canonical x.toModel.unpack := canonical_unpack x.toModel.toBits.toBitVec
  change decode? (.ofModel (.pack x.toModel.unpack.neg)) = _
  rw [decode?_pack hcanonical.neg, exactOf?_neg, decode?_eq]

/-! ### Correctly rounded doubles -/

/-- Magnitudes from here on are rounded to infinity: the largest double and half its last place. -/
def overflow : ℚ := (2 ^ 54 - 1) * 2 ^ (970 : ℤ)

theorem two_zpow_971 : (2 : ℚ) ^ (971 : ℤ) = 2 ^ (970 : ℤ) * 2 := zpow_add_one₀ (by norm_num) 970

theorem two_zpow_972 : (2 : ℚ) ^ (972 : ℤ) = 2 ^ (970 : ℤ) * 4 := by
  rw [show (972 : ℤ) = 971 + 1 from rfl, zpow_add_one₀ (by norm_num), two_zpow_971]
  ring

/-- `x` is the double nearest to `± q`, the one with the even mantissa if two are, or infinite. -/
inductive Rounds (negative : Bool) (q : ℚ) (x : Float) : Prop
  | finite {v : Exact} (decodes : decode? x = some v) (sign : v.negative = negative)
    (lt_overflow : q < overflow)
    (nearest : ∀ y u, decode? y = some u → |v.magnitude - q| ≤ |u.magnitude - q|)
    (even : ∀ y u, decode? y = some u → u.magnitude ≠ v.magnitude →
      |v.magnitude - q| = |u.magnitude - q| → v.mantissa % 2 = 0)
  | infinite (overflow_le : overflow ≤ q) (eq : x = negateIf negative infinity)

/-- The opposite of a number rounds to the opposite. -/
theorem Rounds.neg {q : ℚ} {x : Float} (h : Rounds false q x) : Rounds true q (-x) := by
  cases h with
  | @finite v hx hsign hlt hnearest heven =>
    have hneg : decode? (-x) = some { v with negative := true } := by
      rw [decode?_neg, hx, Option.map_some, hsign]
      rfl
    exact .finite hneg rfl hlt hnearest heven
  | infinite hle hx => exact .infinite hle (congrArg (- ·) hx)

theorem Rounds.negateIf {q : ℚ} {x : Float} (h : Rounds false q x) (negative : Bool) :
    Rounds negative q (negateIf negative x) := by
  cases negative with
  | false => exact h
  | true => exact h.neg

/-- The largest mantissa is odd, so no tie is rounded to it. -/
theorem Nearest.lt_of_lt {k : ℕ} {z : ℚ} (h : Nearest k z) (hlt : k < 2 ^ 53) :
    z < 2 ^ 53 - 1 / 2 := by
  rcases Nat.lt_or_ge k (2 ^ 53 - 1) with hk | hk
  · have habs := abs_le.1 h.near
    have : (k : ℚ) + 1 < 2 ^ 53 := by exact_mod_cast (by omega : k + 1 < 2 ^ 53)
    linarith
  · obtain rfl : k = 2 ^ 53 - 1 := by omega
    have habs := abs_lt.1 (lt_of_le_of_ne h.near (mt h.even (by decide)))
    push_cast at habs
    linarith

namespace Scaled

variable {q : ℚ} {m k : ℕ} {t : ℤ}

/-- A number that rounds within range is below the overflow. -/
theorem lt_overflow (h : Scaled q m t) (hk : Nearest k (q / 2 ^ t))
    (hrange : t ≤ 970 ∨ t = 971 ∧ k < 2 ^ 53) : q < overflow := by
  have hpos := two_zpow_pos t
  have hq : q = q / 2 ^ t * 2 ^ t := (div_mul_cancel₀ q hpos.ne').symm
  rcases hrange with ht | ⟨rfl, hlt⟩
  · have hm : (m : ℚ) + 1 ≤ 2 ^ 53 := by exact_mod_cast h.mantissa_lt
    have hpow : (2 : ℚ) ^ t ≤ 2 ^ (970 : ℤ) := zpow_le_zpow_right₀ (by norm_num) ht
    calc q = q / 2 ^ t * 2 ^ t := hq
      _ < 2 ^ 53 * 2 ^ t := mul_lt_mul_of_pos_right (lt_of_lt_of_le h.lt hm) hpos
      _ ≤ 2 ^ 53 * 2 ^ (970 : ℤ) := mul_le_mul_of_nonneg_left hpow (by norm_num)
      _ < overflow := mul_lt_mul_of_pos_right (by norm_num) (two_zpow_pos 970)
  · have hbelow := hk.lt_of_lt hlt
    calc q = q / 2 ^ (971 : ℤ) * 2 ^ (971 : ℤ) := hq
      _ < (2 ^ 53 - 1 / 2) * 2 ^ (971 : ℤ) := mul_lt_mul_of_pos_right hbelow hpos
      _ = overflow := by rw [two_zpow_971, overflow]; ring

/-- A number that does not is beyond it. -/
theorem overflow_le (h : Scaled q m t) (hk : Nearest k (q / 2 ^ t))
    (hrange : 972 ≤ t ∨ t = 971 ∧ 2 ^ 53 ≤ k) : overflow ≤ q := by
  have hpos := two_zpow_pos t
  have hq : q = q / 2 ^ t * 2 ^ t := (div_mul_cancel₀ q hpos.ne').symm
  rcases hrange with ht | ⟨rfl, hle⟩
  · have hm : (2 : ℚ) ^ 52 ≤ m := by
      exact_mod_cast h.leading.resolve_right (by omega)
    have hpow : (2 : ℚ) ^ (972 : ℤ) ≤ 2 ^ t := zpow_le_zpow_right₀ (by norm_num) ht
    calc overflow ≤ 2 ^ 54 * 2 ^ (970 : ℤ) :=
        mul_le_mul_of_nonneg_right (by norm_num) (two_zpow_pos 970).le
      _ = 2 ^ 52 * 2 ^ (972 : ℤ) := by rw [two_zpow_972]; ring
      _ ≤ 2 ^ 52 * 2 ^ t := mul_le_mul_of_nonneg_left hpow (by norm_num)
      _ ≤ q / 2 ^ t * 2 ^ t := mul_le_mul_of_nonneg_right (hm.trans h.le) hpos.le
      _ = q := hq.symm
  · have hk' : (2 : ℚ) ^ 53 ≤ k := by exact_mod_cast hle
    have habs := abs_le.1 hk.near
    calc overflow = (2 ^ 53 - 1 / 2) * 2 ^ (971 : ℤ) := by rw [two_zpow_971, overflow]; ring
      _ ≤ q / 2 ^ (971 : ℤ) * 2 ^ (971 : ℤ) :=
        mul_le_mul_of_nonneg_right (by linarith) hpos.le
      _ = q := hq.symm

end Scaled

/-- The value of digits and exponent. -/
theorem exactOf?_numeral (s : Sign) {k : ℕ} {t : ℤ} (hleading : 2 ^ 52 ≤ k ∨ t = -1074) :
    exactOf? (numeral s k t) = some ⟨s == .negative, k, t⟩ := by
  by_cases hk : k = 0
  · subst hk
    obtain rfl := hleading.resolve_left (by decide)
    rfl
  · rw [numeral_of_ne s t hk]
    rfl

/-- Digits of full length in range are canonical. -/
theorem canonical_numeral (s : Sign) {k : ℕ} {t : ℤ} (hlt : k < 2 ^ 53)
    (hleading : 2 ^ 52 ≤ k ∨ t = -1074) (hle : -1074 ≤ t) (hle' : t ≤ 971) :
    Canonical (numeral s k t) := by
  by_cases hzero : k = 0
  · rw [hzero, numeral_zero]
    exact .zero s
  · rw [numeral_of_ne s t hzero]
    rcases Nat.lt_or_ge k (2 ^ 52) with hk | hk
    · obtain rfl := hleading.resolve_left (Nat.not_le_of_gt hk)
      exact .subnormal s (Nat.pos_of_ne_zero hzero) hk
    · exact .normal s ⟨hk, hlt, hle, hle'⟩

/-- A number that is too large for its bits is infinite. -/
theorem pack_numeral (s : Sign) {k : ℕ} {t : ℤ} (hk : k ≠ 0) (ht : 972 ≤ t) :
    Float.ofModel (.pack (numeral s k t)) = negateIf (s == .negative) infinity := by
  have hinfinite : UnpackedFloat.pack binary64 (numeral s k t) = packedInfinity binary64 s := by
    rw [numeral_of_ne s t hk]
    change (if 2 ^ 11 ≤ (t + 1023 + 52).toNat + 1 then packedInfinity binary64 s else _) = _
    exact if_pos (by omega)
  have hpack : Float.Model.pack (numeral s k t) = .pack (.infinity s) :=
    (Float.Model.mk.injEq ..).mpr (congrArg UInt64.ofBitVec hinfinite)
  rw [hpack]
  cases s <;> rfl

/-- Digits and exponent, whether they carried or not, round the number. -/
theorem rounds_numeral {q : ℚ} {m k k' : ℕ} {t t' : ℤ} (h : Scaled q m t)
    (hk : Nearest k (q / 2 ^ t)) (s : Sign) (hvalue : (k' : ℚ) * 2 ^ t' = k * 2 ^ t)
    (heven : k % 2 = 0 → k' % 2 = 0) (hlt : k' < 2 ^ 53) (hleading : 2 ^ 52 ≤ k' ∨ t' = -1074)
    (hle : -1074 ≤ t') (hfinite : t' ≤ 971 → t ≤ 970 ∨ t = 971 ∧ k < 2 ^ 53)
    (hinfinite : 972 ≤ t' → 972 ≤ t ∨ t = 971 ∧ 2 ^ 53 ≤ k) :
    Rounds (s == .negative) q (.ofModel (.pack (numeral s k' t'))) := by
  rcases le_or_gt t' 971 with hle' | hgt
  · have hdecodes : decode? (.ofModel (.pack (numeral s k' t'))) = some ⟨s == .negative, k', t'⟩ :=
      (decode?_pack (canonical_numeral s hlt hleading hle hle')).trans (exactOf?_numeral s hleading)
    have hmagnitude : (Exact.mk (s == .negative) k' t').magnitude = k * 2 ^ t := hvalue
    refine .finite hdecodes rfl (h.lt_overflow hk (hfinite hle')) (fun y u hu ↦ ?_)
      fun y u hu hne heq ↦ ?_
    · rw [hmagnitude]
      exact (h.nearest hk (isDouble_of_decode? hu)).1
    · rw [hmagnitude] at hne heq
      exact heven ((h.nearest hk (isDouble_of_decode? hu)).2 hne heq)
  · have hne : k' ≠ 0 := by
      have := hleading.resolve_right (by omega)
      omega
    exact .infinite (h.overflow_le hk (hinfinite hgt)) (pack_numeral s hne hgt)

/-- A mantissa with bits about what is behind it is rounded to the nearest double. -/
theorem rounds_roundWithAccuracy (s : Sign) {m : ℕ} {e : ℤ} {acc : Accuracy} {q : ℚ}
    (h : Describes (.ofMantissaAndAccuracy m acc) (q / 2 ^ e)) (he : e ≤ target m e) :
    Rounds (s == .negative) q (.ofModel (.pack (roundWithAccuracy binary64 s m e acc))) := by
  obtain ⟨em, hem, hdescribes, hscaled⟩ := scaled_shift h he
  have hnearest := hdescribes.nearest
  have hlt := hscaled.mantissa_lt
  have hle := hscaled.le_exponent
  obtain ⟨hmk, hkm⟩ := Describes.roundedMantissa_le em
  rcases Nat.lt_or_ge em.roundedMantissa (2 ^ 53) with hk | hk
  · have hleading := hscaled.leading.imp_left fun h ↦ h.trans hmk
    rw [roundWithAccuracy_eq s hem (shift_kept hk hleading hle)]
    exact rounds_numeral hscaled hnearest s rfl id hk hleading hle (by omega) (by omega)
  · have hcarry : em.roundedMantissa = 2 ^ 53 := by omega
    have hshift := shift_carry hle
    rw [← hcarry] at hshift
    rw [roundWithAccuracy_eq s hem hshift]
    refine rounds_numeral hscaled hnearest s ?_ (fun _ ↦ by decide) (by decide) (.inl le_rfl)
      (by omega) (by omega) (by omega)
    rw [hcarry, zpow_add_one₀ (by norm_num)]
    push_cast
    ring

/-! ### Products and quotients -/

theorem le_target {m : ℕ} (hm : 2 ^ 52 ≤ m) (e : ℤ) : e ≤ target m e := by
  have hlog : 52 ≤ m.log2 := (Nat.le_log2 (by omega)).2 hm
  exact le_max_of_le_left (by omega)

/-- Rounding a number that is given exactly. -/
theorem rounds_exact (s : Sign) {m : ℕ} (hm : 2 ^ 52 ≤ m) (e : ℤ) :
    Rounds (s == .negative) (m * 2 ^ e)
      (.ofModel (.pack (roundWithAccuracy binary64 s m e .exact))) := by
  refine rounds_roundWithAccuracy s ?_ (le_target hm e)
  exact mul_div_cancel_right₀ _ (two_zpow_pos e).ne'

/-- A quotient is described by its whole part and what is left over. -/
theorem describes_quotient (a : ℕ) {b : ℕ} (hb : 0 < b) :
    Describes (.ofMantissaAndAccuracy (a / b) (accuracyOfFraction (a % b) b)) ((a : ℚ) / b) := by
  have hb' : (0 : ℚ) < b := by exact_mod_cast hb
  have ha : (a : ℚ) / b = (a / b : ℕ) + ((a % b : ℕ) : ℚ) / b := by
    rw [div_eq_iff hb'.ne', add_mul, div_mul_cancel₀ _ hb'.ne']
    exact_mod_cast (Nat.div_add_mod' a b).symm
  have hrest : ((a % b : ℕ) : ℚ) / b < 1 := by
    rw [div_lt_one hb']
    exact_mod_cast Nat.mod_lt a hb
  change Describes (.ofMantissaAndAccuracy (a / b)
    (if a % b = 0 then .exact else .inexact (compare (2 * (a % b)) b))) _
  rw [ha]
  split
  · rename_i hzero
    rw [hzero, Nat.cast_zero, zero_div, add_zero]
    exact rfl
  · rename_i hne
    have hpos : 0 < ((a % b : ℕ) : ℚ) / b :=
      div_pos (by exact_mod_cast Nat.pos_of_ne_zero hne) hb'
    cases hcompare : compare (2 * (a % b)) b with
    | lt =>
      have hlt : ((a % b : ℕ) : ℚ) / b < 1 / 2 := by
        have : (2 : ℚ) * (a % b : ℕ) < b := by exact_mod_cast Nat.compare_eq_lt.1 hcompare
        rw [div_lt_iff₀ hb']
        linarith
      change ((a / b : ℕ) : ℚ) < _ ∧ _ < ((a / b : ℕ) : ℚ) + 1 / 2
      exact ⟨by linarith, by linarith⟩
    | eq =>
      have heq : ((a % b : ℕ) : ℚ) / b = 1 / 2 := by
        have : (2 : ℚ) * (a % b : ℕ) = b := by exact_mod_cast Nat.compare_eq_eq.1 hcompare
        rw [div_eq_iff hb'.ne']
        linarith
      exact congrArg _ heq
    | gt =>
      have hgt : 1 / 2 < ((a % b : ℕ) : ℚ) / b := by
        have : (b : ℚ) < 2 * (a % b : ℕ) := by exact_mod_cast Nat.compare_eq_gt.1 hcompare
        rw [lt_div_iff₀ hb']
        linarith
      change ((a / b : ℕ) : ℚ) + 1 / 2 < _ ∧ _ < ((a / b : ℕ) : ℚ) + 1
      exact ⟨by linarith, by linarith⟩

/-- The exponent in which a quotient is taken. -/
def quotientExponent (m₁ : ℕ) (e₁ : ℤ) (m₂ : ℕ) (e₂ : ℤ) : ℤ :=
  min (e₁ - e₂) (max (((m₁.log2 : ℤ) + 1 + e₁ - ((m₂.log2 : ℤ) + 1 + e₂)) - 53) (-1074))

/-- The quotient has enough bits for a mantissa. -/
theorem quotient_le_target {m₁ m₂ : ℕ} (h₁ : 0 < m₁) (h₂ : 0 < m₂) (e₁ e₂ : ℤ) {k : ℕ}
    (hk : quotientExponent m₁ e₁ m₂ e₂ + k = e₁ - e₂) :
    quotientExponent m₁ e₁ m₂ e₂ ≤ target (m₁ * 2 ^ k / m₂) (quotientExponent m₁ e₁ m₂ e₂) := by
  have hmax : quotientExponent m₁ e₁ m₂ e₂ ≤
      max (((m₁.log2 : ℤ) + 1 + e₁ - ((m₂.log2 : ℤ) + 1 + e₂)) - 53) (-1074) := min_le_right _ _
  rcases le_or_gt (quotientExponent m₁ e₁ m₂ e₂) (-1074) with hle | hlt
  · exact le_max_of_le_right hle
  · have hle := (le_max_iff.1 hmax).resolve_right (not_le.2 hlt)
    obtain ⟨j, hj⟩ : ∃ j : ℕ, m₁.log2 + k = m₂.log2 + 1 + (52 + j) :=
      ⟨m₁.log2 + k - (m₂.log2 + 1 + 52), by omega⟩
    refine le_target ?_ _
    calc 2 ^ 52 ≤ 2 ^ (52 + j) := Nat.pow_le_pow_right (by decide) (Nat.le_add_right 52 j)
      _ ≤ m₁ * 2 ^ k / m₂ := by
        rw [Nat.le_div_iff_mul_le h₂]
        calc 2 ^ (52 + j) * m₂ ≤ 2 ^ (52 + j) * 2 ^ (m₂.log2 + 1) :=
              Nat.mul_le_mul_left _ (Nat.le_of_lt Nat.lt_log2_self)
          _ = 2 ^ m₁.log2 * 2 ^ k := by rw [← Nat.pow_add, ← Nat.pow_add, hj, Nat.add_comm]
          _ ≤ m₁ * 2 ^ k := Nat.mul_le_mul_right _ (Nat.log2_self_le (Nat.ne_of_gt h₁))

/-- Quotients are rounded correctly. -/
theorem rounds_quotient (s₁ s₂ : Sign) {m₁ m₂ : ℕ} (h₁ : 0 < m₁) (h₂ : 0 < m₂) (e₁ e₂ : ℤ) :
    Rounds (s₁ / s₂ == .negative) (m₁ * 2 ^ e₁ / (m₂ * 2 ^ e₂)) (.ofModel (.pack
      (UnpackedFloat.div binary64 (.finite s₁ m₁ e₁ h₁) (.finite s₂ m₂ e₂ h₂)))) := by
  obtain ⟨k, hk⟩ : ∃ k : ℕ, quotientExponent m₁ e₁ m₂ e₂ + k = e₁ - e₂ :=
    Int.le.dest (min_le_left _ _)
  have hshift : (e₁ - e₂ - quotientExponent m₁ e₁ m₂ e₂).toNat = k := by omega
  change Rounds _ _ (.ofModel (.pack (roundWithAccuracy binary64 (s₁ / s₂)
    (m₁ <<< (e₁ - e₂ - quotientExponent m₁ e₁ m₂ e₂).toNat / m₂) (quotientExponent m₁ e₁ m₂ e₂)
    (accuracyOfFraction (m₁ <<< (e₁ - e₂ - quotientExponent m₁ e₁ m₂ e₂).toNat % m₂) m₂))))
  rw [hshift, Nat.shiftLeft_eq]
  refine rounds_roundWithAccuracy _ ?_ (quotient_le_target h₁ h₂ e₁ e₂ hk)
  have hscale : (m₁ : ℚ) * 2 ^ e₁ / (m₂ * 2 ^ e₂) / 2 ^ quotientExponent m₁ e₁ m₂ e₂ =
      (m₁ * 2 ^ k : ℕ) / (m₂ : ℚ) := by
    have hsplit : (2 : ℚ) ^ e₁ = 2 ^ quotientExponent m₁ e₁ m₂ e₂ * 2 ^ k * 2 ^ e₂ := by
      rw [← zpow_natCast, ← zpow_add₀ (by norm_num), ← zpow_add₀ (by norm_num), hk,
        sub_add_cancel]
    have hm₂ : (m₂ : ℚ) ≠ 0 := by exact_mod_cast h₂.ne'
    have hne := (two_zpow_pos e₂).ne'
    have hne' := (two_zpow_pos (quotientExponent m₁ e₁ m₂ e₂)).ne'
    rw [hsplit]
    push_cast
    field_simp
  rw [hscale]
  exact describes_quotient _ h₂

/-! ### Powers of ten -/

section

variable {x y : Float} {m₁ m₂ : ℕ} {e₁ e₂ : ℤ} {h₁ : Normal m₁ e₁} {h₂ : Normal m₂ e₂}

/-- So are products of floats. -/
theorem rounds_mul (hx : x.toModel.unpack = normal .positive h₁)
    (hy : y.toModel.unpack = normal .positive h₂) :
    Rounds false (m₁ * 2 ^ e₁ * (m₂ * 2 ^ e₂)) (x * y) := by
  have hmantissa : 2 ^ 52 ≤ m₁ * m₂ := h₁.le_mantissa.trans (Nat.le_mul_of_pos_right m₁ h₂.pos)
  have hvalue : (m₁ : ℚ) * 2 ^ e₁ * (m₂ * 2 ^ e₂) = (m₁ * m₂ : ℕ) * 2 ^ (e₁ + e₂) := by
    rw [zpow_add₀ (by norm_num)]
    push_cast
    ring
  change Rounds _ _ (.ofModel (.pack (UnpackedFloat.mul binary64 x.toModel.unpack
    y.toModel.unpack)))
  rw [hx, hy, hvalue]
  exact rounds_exact .positive hmantissa (e₁ + e₂)

/-- So are their quotients. -/
theorem rounds_div (hx : x.toModel.unpack = normal .positive h₁)
    (hy : y.toModel.unpack = normal .positive h₂) :
    Rounds false (m₁ * 2 ^ e₁ / (m₂ * 2 ^ e₂)) (x / y) := by
  change Rounds _ _ (.ofModel (.pack (UnpackedFloat.div binary64 x.toModel.unpack
    y.toModel.unpack)))
  rw [hx, hy]
  exact rounds_quotient .positive .positive h₁.pos h₂.pos e₁ e₂

end

theorem five_pow_lt {e : ℕ} (he : e ≤ 22) : 5 ^ e < 2 ^ 53 :=
  Nat.lt_of_le_of_lt (Nat.pow_le_pow_right (by decide) he) (by decide)

/-- The mantissa and the exponent of a power of ten. -/
theorem normal_powerOfTen {e : ℕ} (he : e ≤ 22) :
    Normal (5 ^ e * 2 ^ room (5 ^ e)) (e - room (5 ^ e)) := by
  have hfive := normal_of_lt (Nat.pow_pos (by decide)) (five_pow_lt he)
  have hle := hfive.le_exponent
  have hge := hfive.exponent_le
  exact ⟨hfive.le_mantissa, hfive.mantissa_lt, by omega, by omega⟩

/-- The powers of ten in the table are exact. -/
theorem exactOf?_powerOfTen : ∀ e : Fin Float.exactlyRepresentablePowersOfTen.size,
    exactOf? Float.exactlyRepresentablePowersOfTen[e].toModel.unpack =
      some ⟨false, 5 ^ e.1 * 2 ^ room (5 ^ e.1), e.1 - room (5 ^ e.1)⟩ := by
  decide

/-- A number of full length has one form. -/
theorem eq_normal_of_exactOf? {u : UnpackedFloat} {m : ℕ} {e : ℤ} (h : Normal m e)
    (hu : exactOf? u = some ⟨false, m, e⟩) : u = normal .positive h := by
  have hne := h.pos.ne
  cases u with
  | notANumber => exact nomatch hu
  | infinity s => exact nomatch hu
  | zero s => exact absurd (congrArg Exact.mantissa (Option.some.inj hu)) hne
  | finite s m' e' hm =>
    cases s with
    | negative => exact nomatch congrArg Exact.negative (Option.some.inj hu)
    | positive =>
      obtain ⟨-, rfl, rfl⟩ := Exact.mk.inj (Option.some.inj hu)
      rfl

theorem unpack_powerOfTen {e : ℕ} (he : e ≤ 22)
    (h : e < Float.exactlyRepresentablePowersOfTen.size) :
    Float.exactlyRepresentablePowersOfTen[e].toModel.unpack =
      normal .positive (normal_powerOfTen he) :=
  eq_normal_of_exactOf? _ (exactOf?_powerOfTen ⟨e, h⟩)

/-- The form of a power of ten has its value. -/
theorem value_powerOfTen (e : ℕ) :
    ((5 ^ e * 2 ^ room (5 ^ e) : ℕ) : ℚ) * 2 ^ ((e : ℤ) - room (5 ^ e)) = 10 ^ e := by
  rw [zpow_sub₀ (by norm_num), zpow_natCast, zpow_natCast, show (10 : ℚ) = 5 * 2 by norm_num,
    mul_pow]
  push_cast
  field_simp

/-- The form of a whole number has its value. -/
theorem value_whole (n : ℕ) : ((n * 2 ^ room n : ℕ) : ℚ) * 2 ^ (-(room n : ℤ)) = n := by
  rw [zpow_neg, zpow_natCast]
  push_cast
  field_simp

/-- The exponent of a numeral, whose sign is given apart. -/
def scale (negative : Bool) (e : ℕ) : ℤ :=
  if negative then -(e : ℤ) else e

/-- A numeral that is short is made of two doubles. -/
theorem rounds_short {m e : ℕ} (hpos : 0 < m) (hlt : m < 2 ^ 53) (he : e ≤ 22) (negative : Bool) :
    Rounds false (m * 10 ^ scale negative e) (Float.ofScientific m negative e) := by
  have hx := unpack_toFloat hpos hlt
  have hy := unpack_powerOfTen he (Nat.lt_succ_of_le he)
  change Rounds _ _ (if h : m < 2 ^ 53 ∧ e ≤ 22 then _ else _)
  rw [dif_pos ⟨hlt, he⟩]
  cases negative with
  | false =>
    have hround := rounds_mul hx hy
    rwa [value_whole, value_powerOfTen, ← zpow_natCast] at hround
  | true =>
    have hround := rounds_div hx hy
    rwa [value_whole, value_powerOfTen, div_eq_mul_inv, ← zpow_natCast, ← zpow_neg] at hround

/-! ### Decimals -/

/-- What is at most half of the least double is rounded to zero. -/
theorem rounds_zero {q : ℚ} {x : Float} (hx : decode? x = some ⟨false, 0, -1074⟩) (hq : 0 ≤ q)
    (hle : q ≤ 2 ^ (-1075 : ℤ)) : Rounds false q x := by
  have hmagnitude : (Exact.mk false 0 (-1074)).magnitude = 0 := by simp [Exact.magnitude]
  have hpow : (2 : ℚ) ^ (-1075 : ℤ) ≤ 2 ^ (970 : ℤ) := zpow_le_zpow_right₀ (by norm_num) (by decide)
  refine .finite hx rfl ?_ (fun y u hu ↦ ?_) fun _ _ _ _ _ ↦ rfl
  · calc q ≤ 1 * 2 ^ (970 : ℤ) := by rw [one_mul]; exact hle.trans hpow
      _ < overflow := mul_lt_mul_of_pos_right (by norm_num) (two_zpow_pos 970)
  · rw [hmagnitude, zero_sub, abs_neg, abs_of_nonneg hq]
    rcases Nat.eq_zero_or_pos u.mantissa with hzero | hpos
    · have : u.magnitude = 0 := by simp [Exact.magnitude, hzero]
      rw [this, zero_sub, abs_neg, abs_of_nonneg hq]
    · have hleast : (2 : ℚ) ^ (-1075 : ℤ) * 2 ≤ u.magnitude := by
        have hone : (1 : ℚ) ≤ u.mantissa := by exact_mod_cast hpos
        have hexponent : (2 : ℚ) ^ (-1074 : ℤ) ≤ 2 ^ u.exponent :=
          zpow_le_zpow_right₀ (by norm_num) (isDouble_of_decode? hu).le_exponent
        calc (2 : ℚ) ^ (-1075 : ℤ) * 2 = 1 * 2 ^ (-1074 : ℤ) := by
              rw [one_mul, ← zpow_add_one₀ (by norm_num)]
              rfl
          _ ≤ u.mantissa * 2 ^ u.exponent :=
              mul_le_mul hone hexponent (two_zpow_pos _).le (Nat.cast_nonneg _)
      have hfar : u.magnitude - q ≤ |u.magnitude - q| := le_abs_self _
      linarith

theorem overflow_le_two_pow : overflow ≤ 2 ^ (1024 : ℤ) := by
  calc overflow ≤ 2 ^ 54 * 2 ^ (970 : ℤ) :=
        mul_le_mul_of_nonneg_right (by norm_num) (two_zpow_pos 970).le
    _ = 2 ^ (1024 : ℤ) := by
        rw [← zpow_natCast, ← zpow_add₀ (by norm_num)]
        rfl

theorem two_zpow_le_ten_zpow {e : ℤ} (he : 0 ≤ e) : (2 : ℚ) ^ e ≤ 10 ^ e := by
  obtain ⟨n, rfl⟩ := Int.eq_ofNat_of_zero_le he
  rw [zpow_natCast, zpow_natCast]
  exact pow_le_pow_left₀ (by norm_num) (by norm_num) n

/-- A decimal with a large exponent is beyond the overflow. -/
theorem overflow_le_decimal {m : ℕ} (hpos : 0 < m) {e : ℤ} (he : 1024 ≤ e) :
    overflow ≤ m * 10 ^ e := by
  have hone : (1 : ℚ) ≤ m := by exact_mod_cast hpos
  calc overflow ≤ 2 ^ (1024 : ℤ) := overflow_le_two_pow
    _ ≤ 2 ^ e := zpow_le_zpow_right₀ (by norm_num) he
    _ ≤ 1 * 10 ^ e := by rw [one_mul]; exact two_zpow_le_ten_zpow (by omega)
    _ ≤ m * 10 ^ e := mul_le_mul_of_nonneg_right hone (zpow_nonneg (by norm_num) e)

/-- A decimal with a small exponent is below half of the least double. -/
theorem decimal_le {m : ℕ} {e : ℤ} (he : e + m.log2 ≤ -1076) :
    m * (10 : ℚ) ^ e ≤ 2 ^ (-1075 : ℤ) := by
  have hm : (m : ℚ) ≤ 2 ^ ((m.log2 : ℤ) + 1) := by
    have : m ≤ 2 ^ (m.log2 + 1) := Nat.le_of_lt Nat.lt_log2_self
    exact_mod_cast this
  have hten : (10 : ℚ) ^ e ≤ 2 ^ e := by
    have := two_zpow_le_ten_zpow (e := -e) (by omega)
    rwa [zpow_neg, zpow_neg, inv_le_inv₀ (two_zpow_pos e) (zpow_pos (by norm_num) e)] at this
  calc m * (10 : ℚ) ^ e ≤ 2 ^ ((m.log2 : ℤ) + 1) * 2 ^ e :=
        mul_le_mul hm hten (zpow_nonneg (by norm_num) e) (two_zpow_pos _).le
    _ = 2 ^ ((m.log2 : ℤ) + 1 + e) := (zpow_add₀ (by norm_num) _ _).symm
    _ ≤ 2 ^ (-1075 : ℤ) := zpow_le_zpow_right₀ (by norm_num) (by omega)

/-- A numeral that is long goes through the exact product or quotient. -/
theorem rounds_long {m : ℕ} (hpos : 0 < m) (e : ℤ) :
    Rounds false (m * 10 ^ e) (.ofModel (.ofScientific m e)) := by
  have hm : m ≠ 0 := Nat.ne_of_gt hpos
  have hten (n : ℕ) : 0 < 10 ^ n := Nat.pow_pos (by decide)
  change Rounds _ _ (.ofModel (.pack (if hm : m = 0 then .zero .positive
    else if e > 2 ^ 11 then .infinity .positive
    else if e < -((2 ^ 11 : ℤ) + m.log2) then .zero .positive
    else if 0 ≤ e then UnpackedFloat.mul binary64 (.finite .positive (m <<< 53) (-53) _)
      (.finite .positive (10 ^ e.toNat) 0 (hten _))
    else UnpackedFloat.div binary64 (.finite .positive m 0 hpos)
      (.finite .positive (10 ^ (-e).toNat) 0 (hten _)))))
  rw [dif_neg hm]
  by_cases hlarge : e > 2 ^ 11
  · rw [if_pos hlarge]
    exact .infinite (overflow_le_decimal hpos (by omega)) rfl
  rw [if_neg hlarge]
  by_cases hsmall : e < -((2 ^ 11 : ℤ) + m.log2)
  · rw [if_pos hsmall]
    exact rounds_zero (by decide) (by positivity) (decimal_le (by omega))
  rw [if_neg hsmall]
  by_cases hwhole : 0 ≤ e
  · rw [if_pos hwhole]
    obtain ⟨n, rfl⟩ := Int.eq_ofNat_of_zero_le hwhole
    have hmantissa : 2 ^ 52 ≤ m <<< 53 * 10 ^ n := by
      rw [Nat.shiftLeft_eq]
      calc 2 ^ 52 ≤ 1 * 2 ^ 53 * 1 := by decide
        _ ≤ m * 2 ^ 53 * 10 ^ n :=
          Nat.mul_le_mul (Nat.mul_le_mul_right _ hpos) (hten n)
    have hvalue : (m : ℚ) * (10 : ℚ) ^ (n : ℤ) =
        (m <<< 53 * 10 ^ n : ℕ) * 2 ^ (-53 + 0 : ℤ) := by
      rw [Nat.shiftLeft_eq, zpow_natCast, add_zero, zpow_neg]
      push_cast
      field_simp
    rw [hvalue]
    exact rounds_exact .positive hmantissa (-53 + 0)
  · rw [if_neg hwhole]
    obtain ⟨n, hn⟩ : ∃ n : ℕ, (-e).toNat = n := ⟨_, rfl⟩
    have he : e = -(n : ℤ) := by omega
    have hvalue : (m : ℚ) * (10 : ℚ) ^ e =
        m * 2 ^ (0 : ℤ) / ((10 ^ (-e).toNat : ℕ) * 2 ^ (0 : ℤ)) := by
      rw [hn, he, zpow_zero, mul_one, mul_one, zpow_neg, zpow_natCast, Nat.cast_pow,
        Nat.cast_ofNat, div_eq_mul_inv]
    rw [hvalue]
    exact rounds_quotient .positive .positive hpos (hten _) 0 0

/-- Every decimal is rounded correctly. -/
theorem rounds_ofScientific {m : ℕ} (hpos : 0 < m) (negative : Bool) (e : ℕ) :
    Rounds false (m * 10 ^ scale negative e) (Float.ofScientific m negative e) := by
  by_cases hshort : m < 2 ^ 53 ∧ e ≤ 22
  · exact rounds_short hpos hshort.1 hshort.2 negative
  · have hlong : Float.ofScientific m negative e =
        .ofModel (.ofScientific m (scale negative e)) := by
      cases negative <;> exact dif_neg hshort
    rw [hlong]
    exact rounds_long hpos (scale negative e)

end Nodecraft.Number
