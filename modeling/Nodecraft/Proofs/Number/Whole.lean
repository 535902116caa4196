import Mathlib.Algebra.Group.Nat.Defs
import Nodecraft.Sandbox.Conversion

/-!
# Whole numbers as doubles

Every whole number of magnitude below `2 ^ 53` is a double, and is read back from it exactly
(`Sandbox.numberDocument_ofInt`).

Such a number is scaled to a mantissa of 53 bits (`normal_of_lt`). Rounding a mantissa with zeros at
its end only drops these (`roundWithAccuracy_exact`), which is what reading a numeral comes to, and
the bits of a normal number give its mantissa and its exponent (`decode?_normal`).
-/

set_option autoImplicit false

namespace Nodecraft.Number

open Float.Model Float.Model.UnpackedFloat
open Float.Model.Format (binary64)

/-- A mantissa of 53 bits with an exponent in the range of doubles. -/
structure Normal (m : Nat) (e : Int) : Prop where
  le_mantissa : 2 ^ 52 ≤ m
  mantissa_lt : m < 2 ^ 53
  le_exponent : -1074 ≤ e
  exponent_le : e ≤ 971

namespace Normal

variable {m : Nat} {e : Int}

theorem pos (h : Normal m e) : 0 < m := Nat.lt_of_lt_of_le (Nat.two_pow_pos 52) h.le_mantissa

theorem log2 (h : Normal m e) : m.log2 = 52 :=
  (Nat.log2_eq_iff (Nat.ne_of_gt h.pos)).2 ⟨h.le_mantissa, h.mantissa_lt⟩

end Normal

/-- The number `± m · 2 ^ e`. -/
def normal (s : Sign) {m : Nat} {e : Int} (h : Normal m e) : UnpackedFloat := .finite s m e h.pos

/-- A power of two adds to the logarithm. -/
theorem log2_mul_two_pow {m : Nat} (hm : 0 < m) (k : Nat) : (m * 2 ^ k).log2 = m.log2 + k := by
  have hne : m ≠ 0 := Nat.ne_of_gt hm
  have hlog := (Nat.log2_eq_iff hne).1 rfl
  refine (Nat.log2_eq_iff (Nat.ne_of_gt (Nat.mul_pos hm (Nat.two_pow_pos k)))).2 ⟨?_, ?_⟩
  · rw [Nat.pow_add]
    exact Nat.mul_le_mul_right _ hlog.1
  · rw [Nat.add_right_comm, Nat.pow_add]
    exact Nat.mul_lt_mul_of_pos_right hlog.2 (Nat.two_pow_pos k)

/-! ### Rounding -/

/-- Zeros that are shifted out leave nothing to round. -/
theorem shiftRight_exact (m : Nat) : ∀ i k : Nat,
    Nat.repeat ExtendedMantissa.shiftRightOne k
      (⟨m * 2 ^ (i + k), false, false⟩ : ExtendedMantissa) = ⟨m * 2 ^ i, false, false⟩
  | i, 0 => rfl
  | i, k + 1 => by
    have h := shiftRight_exact m (i + 1) k
    rw [show i + 1 + k = i + (k + 1) by omega] at h
    change ExtendedMantissa.shiftRightOne (Nat.repeat _ k _) = _
    rw [h]
    change (⟨m * 2 ^ (i + 1) / 2, m * 2 ^ (i + 1) % 2 != 0, false || false⟩ :
      ExtendedMantissa) = _
    rw [Nat.pow_succ, ← Nat.mul_assoc, Nat.mul_div_cancel _ (by decide), Nat.mul_mod_left]
    rfl

/-- Zeros at the end are shifted out without loss. -/
theorem shift_exact {m : Nat} {e : Int} (h : Normal m e) (k : Nat) :
    shiftToTargetExponent binary64 (m * 2 ^ k) (e - k) .exact = (⟨m, false, false⟩, e) := by
  have htarget : binary64.targetExponent (totalExponent (m * 2 ^ k) (e - k)) = e := by
    change max ((((m * 2 ^ k).log2 : Int) + 1 + (e - k)) - 53) (-1074) = e
    rw [log2_mul_two_pow h.pos, h.log2]
    have := h.le_exponent
    omega
  have hshift (t : Int) (ht : t = e) : shiftToExponent (m * 2 ^ k) (e - k) .exact t =
      (⟨m, false, false⟩, e) := by
    subst ht
    have hzeros := shiftRight_exact m 0 k
    rw [Nat.zero_add, Nat.pow_zero, Nat.mul_one] at hzeros
    change (Nat.repeat ExtendedMantissa.shiftRightOne (t - (t - k)).toNat
      ⟨m * 2 ^ k, false, false⟩, (t - k) + ((t - (t - k)).toNat : Int)) = _
    rw [show (t - (t - k)).toNat = k by omega, hzeros, Int.sub_add_cancel]
  exact hshift _ htarget

/-- A mantissa with zeros at its end is rounded to the one without. -/
theorem roundWithAccuracy_exact (s : Sign) {m : Nat} {e : Int} (h : Normal m e) (k : Nat) :
    roundWithAccuracy binary64 s (m * 2 ^ k) (e - k) .exact = normal s h := by
  have hfinish (em : ExtendedMantissa × Int)
      (hem : shiftToTargetExponent binary64 (m * 2 ^ k) (e - k) .exact = em)
      (em' : ExtendedMantissa × Int)
      (hem' : shiftToTargetExponent binary64 em.1.roundedMantissa em.2 .exact = em') :
      roundWithAccuracy binary64 s (m * 2 ^ k) (e - k) .exact =
        if hz : em'.1.mantissa = 0 then .zero s
        else .finite s em'.1.mantissa em'.2 (Nat.pos_of_ne_zero hz) := by
    subst hem hem'
    rfl
  have hagain := shift_exact h 0
  rw [Nat.pow_zero, Nat.mul_one, Int.natCast_zero, Int.sub_zero] at hagain
  rw [hfinish _ (shift_exact h k) _ hagain, dif_neg (Nat.ne_of_gt h.pos)]
  rfl

/-! ### Bits -/

/-- The field of the exponent. -/
def exponentField (e : Int) : BitVec 11 := BitVec.ofNat 11 (e + 1075).toNat

theorem toNat_exponentField {m : Nat} {e : Int} (h : Normal m e) :
    (exponentField e).toNat = (e + 1075).toNat :=
  Nat.mod_eq_of_lt (by have := h.exponent_le; omega)

/-- A number with a leading bit is stored without it. -/
theorem pack_normal (s : Sign) {m : Nat} {e : Int} (h : Normal m e) :
    UnpackedFloat.pack binary64 (normal s h) =
      packComponents binary64 s (exponentField e) (BitVec.ofNat 52 m) := by
  have hrange : ¬2 ^ 11 ≤ (e + 1023 + 52).toNat + 1 := by
    have := h.exponent_le
    omega
  have hlog : m.log2 + 1 = 53 := congrArg (· + 1) h.log2
  change (if 2 ^ 11 ≤ (e + 1023 + 52).toNat + 1 then _ else if m.log2 + 1 = 53
    then packComponents binary64 s (BitVec.ofNat 11 (e + 1023 + 52).toNat) _ else _) = _
  rw [if_neg hrange, if_pos hlog, show e + 1023 + 52 = e + 1075 by omega]
  rfl

/-- The sign can be read back from the bits. -/
theorem unpackSign_packComponents (s : Sign) (exponent : BitVec 11) (mantissa : BitVec 52) :
    Sign.ofBitVec (unpackSign (packComponents binary64 s exponent mantissa)) = s := by
  have hbit : unpackSign (packComponents binary64 s exponent mantissa) = s.toBitVec := by
    change (s.toBitVec ++ exponent ++ mantissa).extractLsb' 63 1 = _
    rw [BitVec.extractLsb'_append_eq_of_le (by decide),
      BitVec.extractLsb'_append_eq_of_le (by decide)]
    exact BitVec.extractLsb'_eq_self
  rw [hbit]
  cases s with
  | negative => rfl
  | positive => rfl

/-- The leading bit is not stored. -/
theorem toNat_leading {m : Nat} {e : Int} (h : Normal m e) :
    (1#1 ++ BitVec.ofNat 52 m).toNat = m := by
  have hm := h.le_mantissa
  have hm' := h.mantissa_lt
  change 2 ^ 52 ||| m % 2 ^ 52 = m
  rw [Nat.or_comm, Nat.or_two_pow_eq_add_of_lt (Nat.mod_lt m (Nat.two_pow_pos 52))]
  omega

/-- The bits of a number that is neither too small for a leading bit nor too large. -/
theorem unpack_of_range {b : BitVec binary64.numBits} (hinfinite : unpackExponent b ≠ -1#11)
    (hsubnormal : unpackExponent b ≠ 0#11) (hpos : 0 < (1#1 ++ unpackMantissa b).toNat) :
    UnpackedFloat.unpack binary64 b = .finite (Sign.ofBitVec (unpackSign b))
      (1#1 ++ unpackMantissa b).toNat ((unpackExponent b).toNat - 1075) hpos := by
  change (if unpackExponent b = -1#11 then _ else if unpackExponent b = 0#11 then _ else _) = _
  rw [if_neg hinfinite, if_neg hsubnormal]
  rfl

theorem finite_congr {s s' : Sign} {m m' : Nat} {e e' : Int} {hm : 0 < m} {hm' : 0 < m'}
    (hs : s = s') (hmantissa : m = m') (hexponent : e = e') :
    UnpackedFloat.finite s m e hm = .finite s' m' e' hm' := by
  subst hs hmantissa hexponent
  rfl

/-- A number of full length can be read back from its bits. -/
theorem unpack_pack_normal (s : Sign) {m : Nat} {e : Int} (h : Normal m e) :
    UnpackedFloat.unpack binary64 (UnpackedFloat.pack binary64 (normal s h)) = normal s h := by
  have hexponent := toNat_exponentField h
  have hlo := h.le_exponent
  have hhi := h.exponent_le
  have hinfinite : exponentField e ≠ -1#11 := by
    intro heq
    have : (e + 1075).toNat = 2047 := hexponent.symm.trans (congrArg BitVec.toNat heq)
    omega
  have hsubnormal : exponentField e ≠ 0#11 := by
    intro heq
    have : (e + 1075).toNat = 0 := hexponent.symm.trans (congrArg BitVec.toNat heq)
    omega
  rw [pack_normal]
  have hfield : unpackExponent (packComponents binary64 s (exponentField e) (BitVec.ofNat 52 m)) =
      exponentField e := unpackExponent_packComponents
  have hmantissa : unpackMantissa (packComponents binary64 s (exponentField e) (BitVec.ofNat 52 m)) =
      BitVec.ofNat 52 m := unpackMantissa_packComponents
  have hleading : (1#1 ++ unpackMantissa (packComponents binary64 s (exponentField e)
      (BitVec.ofNat 52 m))).toNat = m := by
    rw [hmantissa, toNat_leading h]
  rw [unpack_of_range (by rwa [hfield]) (by rwa [hfield]) (by rw [hleading]; exact h.pos)]
  refine finite_congr (unpackSign_packComponents s _ _) hleading ?_
  rw [hfield, hexponent]
  omega

/-- Whether the bit of the sign is set. -/
def signBit : Sign → Nat
  | .negative => 1
  | .positive => 0

/-- The bits of a number of full length. -/
theorem toNat_pack_normal (s : Sign) {m : Nat} {e : Int} (h : Normal m e) :
    (UnpackedFloat.pack binary64 (normal s h)).toNat =
      signBit s * 2 ^ 63 + (e + 1075).toNat * 2 ^ 52 + (m - 2 ^ 52) := by
  have hexponent := toNat_exponentField h
  have hlo := h.le_mantissa
  have hhi := h.mantissa_lt
  have hlt : (e + 1075).toNat < 2 ^ 11 := by
    have := h.exponent_le
    omega
  have hsign : s.toBitVec.toNat = signBit s := by
    cases s with
    | negative => rfl
    | positive => rfl
  rw [pack_normal]
  change (s.toBitVec ++ exponentField e ++ BitVec.ofNat 52 m).toNat = _
  rw [BitVec.toNat_append, BitVec.toNat_append, hexponent, hsign,
    ← Nat.shiftLeft_add_eq_or_of_lt hlt, BitVec.toNat_ofNat,
    ← Nat.shiftLeft_add_eq_or_of_lt (Nat.mod_lt m (Nat.two_pow_pos 52)), Nat.shiftLeft_eq,
    Nat.shiftLeft_eq]
  omega

/-- The value of such bits. -/
theorem decode?_of_bits {x : Float} {sign biased fraction : Nat}
    (hbits : x.toBits.toNat = sign * 2 ^ 63 + biased * 2 ^ 52 + fraction)
    (hlo : 0 < biased) (hhi : biased < 2047) (hfraction : fraction < 2 ^ 52) :
    decode? x = some ⟨sign == 1, 2 ^ 52 + fraction, (biased : Int) - 1075⟩ := by
  have h52 : Nat.pow 2 52 = 2 ^ 52 := rfl
  have h11 : Nat.pow 2 11 = 2 ^ 11 := rfl
  have h63 : Nat.pow 2 63 = 2 ^ 63 := rfl
  unfold decode?
  dsimp only
  rw [hbits, h52, h11, h63,
    show (sign * 2 ^ 63 + biased * 2 ^ 52 + fraction) % 2 ^ 52 = fraction by omega,
    show (sign * 2 ^ 63 + biased * 2 ^ 52 + fraction) / 2 ^ 52 % 2 ^ 11 = biased by omega,
    show (sign * 2 ^ 63 + biased * 2 ^ 52 + fraction) / 2 ^ 63 = sign by omega,
    if_neg (by omega), if_neg (by omega)]

/-- The bits of a normal number give back its mantissa and exponent. -/
theorem decode?_normal (s : Sign) {m : Nat} {e : Int} (h : Normal m e) :
    decode? (.ofModel (.pack (normal s h))) = some ⟨signBit s == 1, m, e⟩ := by
  have hlo := h.le_mantissa
  have hhi := h.mantissa_lt
  have hle := h.le_exponent
  have hge := h.exponent_le
  rw [decode?_of_bits (x := .ofModel (.pack (normal s h))) (toNat_pack_normal s h) (by omega)
    (by omega) (by omega), show 2 ^ 52 + (m - 2 ^ 52) = m by omega,
    show (((e + 1075).toNat : Int) - 1075) = e by omega]

/-! ### Whole numbers -/

/-- The factor that gives a whole number a mantissa of 53 bits, as a power of two. -/
def room (n : Nat) : Nat := 52 - n.log2

/-- With its room a whole number has full length. -/
theorem log2_add_room {n : Nat} (hpos : 0 < n) (hlt : n < 2 ^ 53) : n.log2 + room n = 52 := by
  have hlog := (Nat.log2_lt (Nat.ne_of_gt hpos)).2 hlt
  unfold room
  omega

/-- A whole number below `2 ^ 53` has a mantissa and an exponent. -/
theorem normal_of_lt {n : Nat} (hpos : 0 < n) (hlt : n < 2 ^ 53) :
    Normal (n * 2 ^ room n) (-(room n : Int)) := by
  have hroom := log2_add_room hpos hlt
  have hlog : (n * 2 ^ room n).log2 = 52 := (log2_mul_two_pow hpos _).trans hroom
  have hbounds := (Nat.log2_eq_iff (Nat.ne_of_gt (Nat.mul_pos hpos (Nat.two_pow_pos _)))).1 hlog
  exact ⟨hbounds.1, hbounds.2, by omega, by omega⟩

/-- Whole numbers of up to 53 bits are not rounded. -/
theorem round_whole (s : Sign) {n : Nat} (hpos : 0 < n) (hlt : n < 2 ^ 53) :
    UnpackedFloat.round binary64 s n 0 = normal s (normal_of_lt hpos hlt) := by
  have hroom := log2_add_room hpos hlt
  have htarget : binary64.targetExponent (totalExponent n 0) = -(room n : Int) := by
    change max ((n.log2 : Int) + 1 + 0 - 53) (-1074) = _
    omega
  have hround := roundWithAccuracy_exact s (normal_of_lt hpos hlt) 0
  rw [Nat.pow_zero, Nat.mul_one, Int.natCast_zero, Int.sub_zero] at hround
  change roundWithAccuracy binary64 s
    (n <<< ((0 : Int) - binary64.targetExponent (totalExponent n 0)).toNat)
    (0 - (((0 : Int) - binary64.targetExponent (totalExponent n 0)).toNat : Int)) .exact = _
  rw [htarget, Int.zero_sub, Int.neg_neg, Int.toNat_natCast, Nat.shiftLeft_eq, Int.zero_sub]
  exact hround

theorem normal_one : Normal (2 ^ 52) (-52) := ⟨by decide, by decide, by decide, by decide⟩

/-- Multiplying by one changes nothing. -/
theorem mul_one_normal (s : Sign) {m : Nat} {e : Int} (h : Normal m e) :
    UnpackedFloat.mul binary64 (normal s h) (normal .positive normal_one) = normal s h := by
  have hround := roundWithAccuracy_exact s h 52
  change roundWithAccuracy binary64 (s * .positive) (m * 2 ^ 52) (e + -52) .exact = _
  rw [show s * Sign.positive = s by cases s <;> rfl]
  exact hround

theorem unpack_one : Float.Model.unpack (.ofBits 0x3FF0000000000000) =
    normal .positive normal_one :=
  rfl

/-- They can be converted and read back. -/
theorem unpack_toFloat {n : Nat} (hpos : 0 < n) (hlt : n < 2 ^ 53) :
    n.toUInt64.toFloat.toModel.unpack = normal .positive (normal_of_lt hpos hlt) := by
  have hword : n.toUInt64.toNat = n := Nat.mod_eq_of_lt (by omega : n < 2 ^ 64)
  have hnormalize : UnpackedFloat.ofNat binary64 n.toUInt64.toNat =
      normal .positive (normal_of_lt hpos hlt) := by
    rw [hword, ← round_whole .positive hpos hlt]
    obtain ⟨k, rfl⟩ := Nat.exists_eq_succ_of_ne_zero (Nat.ne_of_gt hpos)
    rfl
  change UnpackedFloat.unpack binary64 (UnpackedFloat.pack binary64
    (UnpackedFloat.ofNat binary64 n.toUInt64.toNat)) = _
  rw [hnormalize, unpack_pack_normal]

/-- The double of a whole number below `2 ^ 53`. -/
theorem ofNat_eq {n : Nat} (hpos : 0 < n) (hlt : n < 2 ^ 53) :
    Float.ofNat n = .ofModel (.pack (normal .positive (normal_of_lt hpos hlt))) := by
  change (if h : n < 2 ^ 53 ∧ 0 ≤ 22 then _ else _) = _
  rw [dif_pos ⟨hlt, by decide⟩]
  change Float.ofModel (.pack (UnpackedFloat.mul binary64 n.toUInt64.toFloat.toModel.unpack
    (Float.Model.unpack (.ofBits 0x3FF0000000000000)))) = _
  rw [unpack_toFloat hpos hlt, unpack_one, mul_one_normal]

/-- So can their opposites. -/
theorem neg_ofNat_eq {n : Nat} (hpos : 0 < n) (hlt : n < 2 ^ 53) :
    Float.neg (Float.ofNat n) = .ofModel (.pack (normal .negative (normal_of_lt hpos hlt))) := by
  rw [ofNat_eq hpos hlt]
  change Float.ofModel (.pack (UnpackedFloat.neg (UnpackedFloat.unpack binary64
    (UnpackedFloat.pack binary64 (normal .positive (normal_of_lt hpos hlt)))))) = _
  rw [unpack_pack_normal]
  rfl

namespace Exact

variable (negative : Bool) (n : Nat) {k : Nat}

/-- A whole number written over a power of two is whole. -/
theorem isIntegral_scaled : (Exact.mk negative (n * 2 ^ k) (-(k : Int))).isIntegral = true := by
  have hmod : n * 2 ^ k % Nat.pow 2 (-(-(k : Int))).toNat = 0 := by
    rw [Int.neg_neg]
    exact Nat.mul_mod_left n (2 ^ k)
  unfold isIntegral
  rw [hmod, beq_self_eq_true, Bool.or_true]

/-- The whole part of a whole number written over a power of two is the number. -/
theorem wholePart_scaled : (Exact.mk negative (n * 2 ^ k) (-(k : Int))).wholePart = n := by
  unfold wholePart
  dsimp only
  split
  · obtain rfl : k = 0 := by omega
    rw [Nat.pow_zero, Nat.mul_one]
    exact Nat.mul_one n
  · rw [Int.neg_neg]
    exact Nat.mul_div_cancel n (Nat.two_pow_pos k)

end Exact

end Nodecraft.Number

namespace Nodecraft.Sandbox

open Number Float.Model.UnpackedFloat

/-- An exponent that cancels a factor of the mantissa gives back the number. -/
theorem numberDocument_scaled {x : Float} {negative : Bool} {n k : Nat} (hlt : n < 2 ^ 53)
    (hx : decode? x = some ⟨negative, n * 2 ^ k, -(k : Int)⟩) :
    numberDocument x = .number (.whole (if negative then -n else n)) := by
  unfold numberDocument
  rw [hx]
  dsimp only
  rw [Exact.isIntegral_scaled, Exact.wholePart_scaled, if_pos ⟨rfl, hlt⟩]
  unfold Exact.truncate
  rw [Exact.wholePart_scaled]

/-- A whole number of magnitude below `2 ^ 53` is read and written exactly. -/
theorem numberDocument_ofInt {n : Int} (hn : n.natAbs < 2 ^ 53) :
    numberDocument (Float.ofInt n) = .number (.whole n) := by
  cases n with
  | ofNat n =>
    rcases Nat.eq_zero_or_pos n with rfl | hpos
    · have hzero : decode? (Float.ofInt 0) = some ⟨false, 0, -(1074 : Nat)⟩ := by decide
      rw [← Nat.zero_mul (2 ^ 1074)] at hzero
      exact numberDocument_scaled (Nat.two_pow_pos 53) hzero
    · change numberDocument (Float.ofNat n) = _
      rw [ofNat_eq hpos hn]
      exact numberDocument_scaled hn (decode?_normal .positive (normal_of_lt hpos hn))
  | negSucc n =>
    change numberDocument (Float.neg (Float.ofNat (n + 1))) = _
    rw [neg_ofNat_eq (Nat.succ_pos n) hn]
    exact numberDocument_scaled hn (decode?_normal .negative (normal_of_lt (Nat.succ_pos n) hn))

end Nodecraft.Sandbox
