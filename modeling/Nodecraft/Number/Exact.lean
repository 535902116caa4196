/-!
Finite doubles as exact numbers `± mantissa · 2 ^ exponent`, and the whole-number operations read
off that form.
-/

set_option autoImplicit false

namespace Nodecraft.Number

/-- The number `mantissa · 2 ^ exponent`, negated when `negative`. -/
structure Exact where
  negative : Bool
  mantissa : Nat
  exponent : Int
  deriving Repr, DecidableEq, Inhabited

/-- The exact value of a finite double; none for infinities and NaN. -/
def decode? (x : Float) : Option Exact :=
  let bits : Nat := x.toBits.toNat
  let fraction : Nat := bits % Nat.pow 2 52
  let biased : Nat := bits / Nat.pow 2 52 % Nat.pow 2 11
  let negative := bits / Nat.pow 2 63 == 1
  if biased = 2047 then none
  else if biased = 0 then some ⟨negative, fraction, -1074⟩
  else some ⟨negative, Nat.pow 2 52 + fraction, (biased : Int) - 1075⟩

namespace Exact

/-- The magnitude without its fractional part. -/
def wholePart (v : Exact) : Nat :=
  if 0 ≤ v.exponent then v.mantissa * Nat.pow 2 v.exponent.toNat
  else v.mantissa / Nat.pow 2 (-v.exponent).toNat

def isIntegral (v : Exact) : Bool :=
  0 ≤ v.exponent || v.mantissa % Nat.pow 2 (-v.exponent).toNat == 0

def truncate (v : Exact) : Int :=
  if v.negative then -(v.wholePart : Int) else v.wholePart

/-- The magnitude as a multiple of `2 ^ scale`, for a scale at most the exponent. -/
def rescale (v : Exact) (scale : Int) : Nat :=
  v.mantissa * Nat.pow 2 (v.exponent - scale).toNat

end Exact

def isFinite (x : Float) : Bool := (decode? x).isSome

def isIntegral (x : Float) : Bool :=
  match decode? x with
  | some v => v.isIntegral
  | none => false

/-- The number without its fractional part; infinities and NaN give zero. -/
def truncate (x : Float) : Int :=
  match decode? x with
  | some v => v.truncate
  | none => 0

def isNegativeZero (x : Float) : Bool := x.toBits == 0x8000000000000000

def infinity : Float := Float.ofBits 0x7FF0000000000000

def nan : Float := Float.ofBits 0x7FF8000000000000

/-- Saturating conversion to the range `[lo, hi]`; NaN gives zero. -/
def clampTo (lo hi : Int) (x : Float) : Int :=
  if x.isNaN then 0
  else if !isFinite x then (if x < 0 then lo else hi)
  else max lo (min hi (truncate x))

def negateIf (negative : Bool) (x : Float) : Float := if negative then -x else x

/-- The remainder of truncating division, with the sign of the dividend. -/
def remainder (x y : Float) : Float :=
  match decode? x, decode? y with
  | none, _ => nan
  | some _, none => if y.isNaN then nan else x
  | some a, some b =>
    if b.mantissa = 0 then nan
    else
      let scale := min a.exponent b.exponent
      let r := a.rescale scale % b.rescale scale
      if r = 0 then negateIf a.negative 0.0
      else
        -- `r` is below both mantissas' range, so the scaled value is a double.
        negateIf a.negative (Float.scaleB (Float.ofNat r) scale)

end Nodecraft.Number
