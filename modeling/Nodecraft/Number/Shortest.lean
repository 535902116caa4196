import Nodecraft.Number.Exact

/-!
Decimal texts of doubles: the fewest digits that read back as the same double, and of those the
ones nearest to it, laid out by a record of conventions.
-/

set_option autoImplicit false

namespace Nodecraft.Number

/-- Digits of a positive decimal, the first of them at place `10 ^ exponent`. -/
structure Decimal where
  digits : List Char
  exponent : Int
  deriving Repr, DecidableEq

/-- The reals that round to one double, as fractions over a common denominator. -/
structure RoundingInterval where
  low : Nat
  middle : Nat
  high : Nat
  denominator : Nat
  closed : Bool

/-- Half a unit on each side, and a quarter below a power of two. An even mantissa owns its ends. -/
def Exact.interval (v : Exact) : RoundingInterval :=
  let below := if v.mantissa = Nat.pow 2 52 ∧ -1074 < v.exponent then 1 else 2
  let up := (v.exponent - 2).toNat
  let down := (2 - v.exponent).toNat
  { low := (4 * v.mantissa - below) * Nat.pow 2 up
    middle := 4 * v.mantissa * Nat.pow 2 up
    high := (4 * v.mantissa + 2) * Nat.pow 2 up
    denominator := Nat.pow 2 down
    closed := v.mantissa % 2 = 0 }

def RoundingInterval.contains (i : RoundingInterval) (num den : Nat) : Bool :=
  if i.closed then
    decide (i.low * den ≤ num * i.denominator ∧ num * i.denominator ≤ i.high * den)
  else decide (i.low * den < num * i.denominator ∧ num * i.denominator < i.high * den)

/-- The place of the leading digit of the interval's middle. -/
def RoundingInterval.leadingPlace (i : RoundingInterval) : Int :=
  let bits := (i.middle.log2 : Int) - (i.denominator.log2 : Int)
  let guess := bits * 30103 / 100000
  let next := guess + 1
  if i.denominator * Nat.pow 10 next.toNat ≤ i.middle * Nat.pow 10 (-next).toNat then next
  else guess

/-- The nearer of the two multiples of `10 ^ place` around the middle, if one lies inside. -/
def RoundingInterval.onGrid? (i : RoundingInterval) (place : Int) : Option Nat :=
  let unit := Nat.pow 10 place.toNat
  let inverse := Nat.pow 10 (-place).toNat
  let num := i.middle * inverse
  let den := i.denominator * unit
  let floor := num / den
  let lower := i.contains (floor * unit) inverse
  let upper := i.contains ((floor + 1) * unit) inverse
  if lower && upper then
    some (if 2 * (num % den) ≤ den then floor else floor + 1)
  else if lower then some floor
  else if upper then some (floor + 1)
  else none

def dropTrailingZeros (ds : List Char) : List Char := (ds.reverse.dropWhile (· == '0')).reverse

/-- The coarsest decimal grid that meets the interval, tried from the leading digit down. -/
def RoundingInterval.coarsest (i : RoundingInterval) (place : Int) : Nat → Decimal
  | 0 => ⟨['0'], 0⟩
  | fuel + 1 =>
    match i.onGrid? place with
    | some n =>
      let ds := Nat.toDigits 10 n
      ⟨dropTrailingZeros ds, place + ds.length - 1⟩
    | none => i.coarsest (place - 1) fuel

/-- Seventeen digits always suffice. -/
def Exact.shortest (v : Exact) : Decimal :=
  if v.mantissa = 0 then ⟨['0'], 0⟩
  else v.interval.coarsest v.interval.leadingPlace 18

/-- How a decimal is written out. -/
structure Layout where
  /-- Least place of the leading digit that is still written positionally. -/
  least : Int
  /-- Greatest such place. -/
  greatest : Int
  /-- Whether whole numbers end in a point and a zero. -/
  pointKept : Bool
  /-- Whether a positive exponent carries its sign. -/
  plusKept : Bool

def signText (negative : Bool) : List Char := if negative then ['-'] else []

def Decimal.positional (d : Decimal) (pointKept : Bool) : List Char :=
  if d.exponent < 0 then
    '0' :: '.' :: (List.replicate (-d.exponent - 1).toNat '0' ++ d.digits)
  else
    let whole := d.exponent.toNat + 1
    if d.digits.length ≤ whole then
      d.digits ++ List.replicate (whole - d.digits.length) '0' ++
        (if pointKept then ['.', '0'] else [])
    else d.digits.take whole ++ '.' :: d.digits.drop whole

def Decimal.scientific (d : Decimal) (plusKept : Bool) : List Char :=
  let mantissa := match d.digits with
    | [] => []
    | [c] => [c]
    | c :: rest => c :: '.' :: rest
  let sign := if d.exponent < 0 then ['-'] else if plusKept then ['+'] else []
  mantissa ++ 'e' :: (sign ++ Nat.toDigits 10 d.exponent.natAbs)

def Layout.write (l : Layout) (d : Decimal) : List Char :=
  if l.least ≤ d.exponent ∧ d.exponent ≤ l.greatest then d.positional l.pointKept
  else d.scientific l.plusKept

/-- Numbers of a JSON text that are not integers of the document. -/
def jsonLayout : Layout := ⟨-5, 15, true, true⟩

/-- Numbers as a script converts them to text. -/
def scriptLayout : Layout := ⟨-6, 20, false, true⟩

/-- A finite number in JSON text. -/
def jsonText (x : Float) : String :=
  match decode? x with
  | none => "null"
  | some v => String.ofList (signText v.negative ++ jsonLayout.write v.shortest)

/-- A number as a script converts it to text. Whole numbers below `10 ^ 21` show every digit. -/
def scriptText (x : Float) : String :=
  match decode? x with
  | none => if x.isNaN then "NaN" else if x < 0 then "-Infinity" else "Infinity"
  | some v =>
    if v.mantissa = 0 then "0"
    else if v.isIntegral ∧ v.wholePart < Nat.pow 10 21 then toString v.truncate
    else String.ofList (signText v.negative ++ scriptLayout.write v.shortest)

end Nodecraft.Number
