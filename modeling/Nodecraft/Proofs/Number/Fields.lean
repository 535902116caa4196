import Mathlib.Algebra.Order.Field.Power
import Mathlib.Algebra.Order.Field.Rat
import Mathlib.Tactic.Linarith
import Mathlib.Tactic.Positivity
import Mathlib.Tactic.Ring
import Nodecraft.Number.Exact

/-!
# The values of doubles

The exact value of a double is that of the number which its bits stand for (`Number.decode?_eq`). It is a
rational number (`Exact.toRat`), and which whole number it is, if it is one, can be told from its mantissa
and exponent (`Exact.truncate_of_toRat`).
-/

set_option autoImplicit false

namespace Nodecraft.Number

open Float.Model Float.Model.UnpackedFloat
open Float.Model.Format (binary64)

/-- The exact value of a number that is finite. -/
def exactOf? : UnpackedFloat → Option Exact
  | .notANumber => none
  | .infinity _ => none
  | .zero s => some ⟨s == .negative, 0, -1074⟩
  | .finite s m e _ => some ⟨s == .negative, m, e⟩

theorem exactOf?_of_isNaN {u : UnpackedFloat} (h : u.isNaN = true) : exactOf? u = none := by
  cases u with
  | notANumber => rfl
  | _ => exact nomatch h

section

variable (b : BitVec binary64.numBits)

theorem toNat_unpackMantissa :
    (unpackMantissa b).toNat = b.toNat % 2 ^ 52 := by
  change (b.extractLsb' 0 52).toNat = _
  rw [BitVec.extractLsb'_toNat, Nat.shiftRight_zero]

theorem toNat_unpackExponent :
    (unpackExponent b).toNat = b.toNat / 2 ^ 52 % 2 ^ 11 := by
  change (b.extractLsb' 52 11).toNat = _
  rw [BitVec.extractLsb'_toNat, Nat.shiftRight_eq_div_pow]

theorem toNat_unpackSign : (unpackSign b).toNat = b.toNat / 2 ^ 63 := by
  change (b.extractLsb' 63 1).toNat = _
  have hlt : b.toNat < 2 ^ 64 := b.isLt
  rw [BitVec.extractLsb'_toNat, Nat.shiftRight_eq_div_pow]
  omega

/-- The bit of the sign tells it. -/
theorem sign_beq_negative :
    (Sign.ofBitVec (unpackSign b) == .negative) = (b.toNat / 2 ^ 63 == 1) := by
  have hlt : b.toNat < 2 ^ 64 := b.isLt
  have hsign := toNat_unpackSign b
  unfold Sign.ofBitVec
  split
  · rename_i hzero
    rw [hzero] at hsign
    rw [← hsign]
    rfl
  · rename_i hne
    have hone : b.toNat / 2 ^ 63 = 1 := by
      have : (unpackSign b).toNat ≠ 0 := fun h ↦ hne (BitVec.eq_of_toNat_eq h)
      omega
    rw [hone]
    rfl

theorem toNat_leading_append :
    (1#1 ++ unpackMantissa b).toNat = 2 ^ 52 + b.toNat % 2 ^ 52 := by
  rw [BitVec.toNat_append, toNat_unpackMantissa]
  change 2 ^ 52 ||| b.toNat % 2 ^ 52 = _
  rw [Nat.or_comm, Nat.or_two_pow_eq_add_of_lt (Nat.mod_lt _ (Nat.two_pow_pos 52)), Nat.add_comm]

/-- With the largest exponent there is no value. -/
theorem exactOf?_infinite (h : unpackExponent b = -1#11) :
    exactOf? (UnpackedFloat.unpack binary64 b) = none := by
  change exactOf? (if unpackExponent b = -1#11 then
    if unpackMantissa b = 0#52 then _ else _ else _) = none
  rw [if_pos h]
  split <;> rfl

/-- With the least exponent there is no leading bit. -/
theorem exactOf?_subnormal (h : unpackExponent b = 0#11) :
    exactOf? (UnpackedFloat.unpack binary64 b) =
      some ⟨b.toNat / 2 ^ 63 == 1, b.toNat % 2 ^ 52, -1074⟩ := by
  change exactOf? (if unpackExponent b = -1#11 then _
    else if unpackExponent b = 0#11 then
      if _ : unpackMantissa b = 0#52 then _
      else .finite _ (unpackMantissa b).toNat
        ((unpackExponent b).toNat - 1075 + 1) _
    else _) = _
  rw [if_neg (by rw [h]; decide), if_pos h, ← sign_beq_negative, ← toNat_unpackMantissa, h]
  by_cases hzero : unpackMantissa b = 0#52
  · rw [dif_pos hzero, hzero]
    rfl
  · rw [dif_neg hzero]
    rfl

/-- With any other exponent there is one. -/
theorem exactOf?_range (hinfinite : unpackExponent b ≠ -1#11)
    (hsubnormal : unpackExponent b ≠ 0#11) :
    exactOf? (UnpackedFloat.unpack binary64 b) = some ⟨b.toNat / 2 ^ 63 == 1,
      2 ^ 52 + b.toNat % 2 ^ 52, (b.toNat / 2 ^ 52 % 2 ^ 11 : Nat) - 1075⟩ := by
  change exactOf? (if unpackExponent b = -1#11 then _
    else if unpackExponent b = 0#11 then _ else
      .finite _ (1#1 ++ unpackMantissa b).toNat
        ((unpackExponent b).toNat - 1075) _) = _
  rw [if_neg hinfinite, if_neg hsubnormal, ← sign_beq_negative, ← toNat_leading_append,
    ← toNat_unpackExponent]
  rfl

/-- The value of bits, read from its three fields. -/
theorem exactOf?_unpack : exactOf? (UnpackedFloat.unpack binary64 b) =
    if b.toNat / 2 ^ 52 % 2 ^ 11 = 2047 then none
    else if b.toNat / 2 ^ 52 % 2 ^ 11 = 0 then
      some ⟨b.toNat / 2 ^ 63 == 1, b.toNat % 2 ^ 52, -1074⟩
    else some ⟨b.toNat / 2 ^ 63 == 1, 2 ^ 52 + b.toNat % 2 ^ 52,
      (b.toNat / 2 ^ 52 % 2 ^ 11 : Nat) - 1075⟩ := by
  have hexponent := toNat_unpackExponent b
  split
  · rename_i hinfinite
    exact exactOf?_infinite b (BitVec.eq_of_toNat_eq (hexponent.trans hinfinite))
  · rename_i hinfinite
    split
    · rename_i hsubnormal
      exact exactOf?_subnormal b (BitVec.eq_of_toNat_eq (hexponent.trans hsubnormal))
    · rename_i hsubnormal
      exact exactOf?_range b
        (fun h ↦ hinfinite (hexponent.symm.trans (congrArg BitVec.toNat h)))
        fun h ↦ hsubnormal (hexponent.symm.trans (congrArg BitVec.toNat h))

end

/-- The exact value of a double is the one of the number that its bits stand for. -/
theorem decode?_eq (x : Float) : decode? x = exactOf? x.toModel.unpack :=
  (exactOf?_unpack x.toModel.toBits.toBitVec).symm

/-! ### Rational values -/

namespace Exact

/-- The value without its sign. -/
def magnitude (v : Exact) : ℚ := v.mantissa * 2 ^ v.exponent

def toRat (v : Exact) : ℚ := if v.negative then -v.magnitude else v.magnitude

variable {v : Exact}

theorem magnitude_nonneg : 0 ≤ v.magnitude := mul_nonneg (Nat.cast_nonneg _) (zpow_nonneg (by norm_num) _)

/-- A magnitude that is whole is the whole part. -/
theorem wholePart_of_magnitude {n : ℕ} (h : v.magnitude = n) :
    v.isIntegral = true ∧ v.wholePart = n := by
  unfold isIntegral wholePart
  rcases le_or_gt 0 v.exponent with hexponent | hexponent
  · obtain ⟨k, hk⟩ := Int.eq_ofNat_of_zero_le hexponent
    have hn : v.mantissa * 2 ^ k = n := by
      unfold magnitude at h
      rw [hk, zpow_natCast] at h
      exact_mod_cast h
    rw [hk, if_pos (Int.natCast_nonneg k)]
    exact ⟨by simp, hn⟩
  · obtain ⟨k, hk⟩ : ∃ k : ℕ, v.exponent = -k := ⟨v.exponent.natAbs, by omega⟩
    have hn : v.mantissa = n * 2 ^ k := by
      unfold magnitude at h
      rw [hk, zpow_neg, zpow_natCast, mul_inv_eq_iff_eq_mul₀ (by positivity)] at h
      exact_mod_cast h
    have hpow : Nat.pow 2 (-v.exponent).toNat = 2 ^ k := by
      rw [hk, neg_neg]
      rfl
    rw [if_neg (by omega), hpow, hn]
    refine ⟨?_, Nat.mul_div_cancel n (Nat.two_pow_pos k)⟩
    rw [Nat.mul_mod_left]
    simp

/-- A value that is whole is what is left without a fractional part. -/
theorem truncate_of_toRat {n : ℤ} (h : v.toRat = n) : v.isIntegral = true ∧ v.truncate = n := by
  have hnonneg := magnitude_nonneg (v := v)
  unfold toRat at h
  unfold truncate
  split at h
  · rename_i hnegative
    rw [neg_eq_iff_eq_neg] at h
    obtain ⟨k, rfl⟩ : ∃ k : ℕ, n = -k := ⟨n.natAbs, by
      have : (n : ℚ) ≤ 0 := by linarith
      have : n ≤ 0 := by exact_mod_cast this
      omega⟩
    obtain ⟨hintegral, hwhole⟩ := wholePart_of_magnitude (n := k) (by rw [h]; push_cast; ring)
    exact ⟨hintegral, by rw [if_pos hnegative, hwhole]⟩
  · rename_i hpositive
    obtain ⟨k, rfl⟩ : ∃ k : ℕ, n = k := ⟨n.natAbs, by
      have : (0 : ℚ) ≤ n := by linarith
      have : 0 ≤ n := by exact_mod_cast this
      omega⟩
    obtain ⟨hintegral, hwhole⟩ := wholePart_of_magnitude (n := k) (by rw [h]; push_cast; ring)
    exact ⟨hintegral, by rw [if_neg hpositive, hwhole]⟩

end Exact

end Nodecraft.Number
