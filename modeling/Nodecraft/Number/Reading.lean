import Nodecraft.Number.Exact
import Nodecraft.Text.Blank

/-!
Reading numbers from text: decimal literals rounded to the nearest double, digits in other bases,
and the conversion of arbitrary text that scripts apply.
-/

set_option autoImplicit false

namespace Nodecraft.Number

/-- The value of a digit in bases up to 36. -/
def digitValue? (c : Char) : Option Nat :=
  if '0' ≤ c ∧ c ≤ '9' then some (c.toNat - 48)
  else if 'a' ≤ c ∧ c ≤ 'z' then some (c.toNat - 87)
  else if 'A' ≤ c ∧ c ≤ 'Z' then some (c.toNat - 55)
  else none

def isDigitIn (base : Nat) (c : Char) : Bool :=
  match digitValue? c with
  | some d => d < base
  | none => false

/-- The value of a digit sequence, reading characters that are no digits as zero. -/
def digitsValue (base : Nat) (ds : List Char) : Nat :=
  ds.foldl (fun n c => n * base + (digitValue? c).getD 0) 0

/-- The double nearest to `significand · 10 ^ exponent`. -/
def roundDecimal (significand : Nat) (exponent : Int) : Float :=
  if significand = 0 then 0.0
  else
    let places := ((Nat.toDigits 10 significand).length : Int) + exponent
    if places > 310 then infinity
    else if places < -330 then 0.0
    else if 0 ≤ exponent then Float.ofScientific significand false exponent.toNat
    else Float.ofScientific significand true (-exponent).toNat

/-- An unsigned decimal literal taken apart. -/
structure DecimalParts where
  whole : List Char
  fraction : List Char
  exponent : Int
  deriving Repr

def DecimalParts.value (p : DecimalParts) : Float :=
  roundDecimal (digitsValue 10 (p.whole ++ p.fraction)) (p.exponent - p.fraction.length)

/-- An exponent mark with its digits, or nothing at the end of the text. -/
def readExponent? : List Char → Option Int
  | [] => some 0
  | e :: rest =>
    if e = 'e' ∨ e = 'E' then
      let (negative, ds) := match rest with
        | '-' :: ds => (true, ds)
        | '+' :: ds => (false, ds)
        | ds => (false, ds)
      if ds.isEmpty || !ds.all (isDigitIn 10) then none
      else some (if negative then -(digitsValue 10 ds : Int) else digitsValue 10 ds)
    else none

/-- The parts of an unsigned decimal literal that makes up the whole text. A digit is needed on
one side of the point. -/
def readDecimal? (cs : List Char) : Option DecimalParts :=
  let whole := cs.takeWhile (isDigitIn 10)
  let (fraction, rest) := match cs.dropWhile (isDigitIn 10) with
    | '.' :: after => (after.takeWhile (isDigitIn 10), after.dropWhile (isDigitIn 10))
    | other => ([], other)
  if whole.isEmpty && fraction.isEmpty then none
  else (readExponent? rest).map (⟨whole, fraction, ·⟩)

def splitSign : List Char → Bool × List Char
  | '-' :: cs => (true, cs)
  | '+' :: cs => (false, cs)
  | cs => (false, cs)

/-- A decimal literal or a special name in any letter case, with an optional sign. -/
def readSigned (cs : List Char) : Float :=
  let (negative, body) := splitSign cs
  let word := String.ofList (body.map Char.toLower)
  if word = "inf" ∨ word = "infinity" then negateIf negative infinity
  else if word = "nan" then nan
  else match readDecimal? body with
    | some p => negateIf negative p.value
    | none => nan

/-- Hexadecimal digits with an optional sign whose value fits 64 bits. -/
def readHex (cs : List Char) : Float :=
  let (negative, ds) := splitSign cs
  if ds.isEmpty || !ds.all (isDigitIn 16) then nan
  else
    let n := digitsValue 16 ds
    if n < Nat.pow 2 63 ∨ (negative ∧ n = Nat.pow 2 63) then
      Float.ofInt (if negative then -(n : Int) else n)
    else nan

/-- The number a text stands for: blank text is zero, and text that is no literal is NaN. -/
def ofText (s : String) : Float :=
  match Text.trimChars s.toList with
  | [] => 0.0
  | '0' :: 'x' :: ds => readHex ds
  | '0' :: 'X' :: ds => readHex ds
  | cs => readSigned cs

end Nodecraft.Number
