import Nodecraft.Number.Shortest

/-!
Numbers with a fixed count of decimals, and whole numbers in other bases.
-/

set_option autoImplicit false

namespace Nodecraft.Number

/-- The whole number nearest to a fraction; a half goes to the even neighbour. -/
def roundToEven (num den : Nat) : Nat :=
  let q := num / den
  let r := num % den
  if 2 * r < den then q
  else if den < 2 * r then q + 1
  else if q % 2 = 0 then q
  else q + 1

/-- The magnitude as a multiple of `10 ^ -places`. -/
def Exact.inPlaces (v : Exact) (places : Nat) : Nat :=
  roundToEven (v.mantissa * Nat.pow 10 places * Nat.pow 2 v.exponent.toNat)
    (Nat.pow 2 (-v.exponent).toNat)

/-- A finite number with exactly `places` decimals. A negative one keeps its sign even as zero. -/
def fixedText (places : Nat) (x : Float) : String :=
  match decode? x with
  | none => scriptText x
  | some v =>
    let n := v.inPlaces places
    let whole := Nat.toDigits 10 (n / Nat.pow 10 places)
    let decimals := Nat.toDigits 10 (n % Nat.pow 10 places)
    let fraction := if places = 0 then []
      else '.' :: (List.replicate (places - decimals.length) '0' ++ decimals)
    String.ofList (signText v.negative ++ whole ++ fraction)

def digitChar (d : Nat) : Char := if d < 10 then Char.ofNat (48 + d) else Char.ofNat (87 + d)

/-- Digits of a positive number, least first; the fuel bounds their number. -/
def digitsUp (base : Nat) : Nat → Nat → List Char
  | 0, _ => []
  | fuel + 1, n => if n = 0 then [] else digitChar (n % base) :: digitsUp base fuel (n / base)

/-- A whole number in a base from 2 to 36. -/
def inBase (base : Nat) (n : Int) : String :=
  if n = 0 then "0"
  else String.ofList (signText (n < 0) ++ (digitsUp base (n.natAbs.log2 + 1) n.natAbs).reverse)

end Nodecraft.Number
