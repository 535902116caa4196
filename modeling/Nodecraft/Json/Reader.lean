import Nodecraft.Json.Basic
import Nodecraft.Number.Reading

/-!
Reading JSON text. Documents nest at most 127 containers deep, and a number with a fraction or an
exponent is its significand scaled by a power of ten, each step rounded on its own. Where nobody
asks for a value it is skimmed: its form is checked, but neither its depth nor what its numbers
and escapes stand for.
-/

set_option autoImplicit false

namespace Nodecraft.Json

def isSpace (c : Char) : Bool := c == ' ' || c == '\n' || c == '\r' || c == '\t'

def skipSpace (cs : List Char) : List Char := cs.dropWhile isSpace

def hexQuad? : List Char → Option (Nat × List Char)
  | a :: b :: c :: d :: rest => do
    guard ([a, b, c, d].all (Number.isDigitIn 16))
    return (Number.digitsValue 16 [a, b, c, d], rest)
  | _ => none

/-- The character after a backslash and `u`, joining two halves of a pair. -/
def unicodeEscape? (cs : List Char) : Option (Char × List Char) := do
  let (n, rest) ← hexQuad? cs
  if 0xD800 ≤ n ∧ n < 0xDC00 then
    match rest with
    | '\\' :: 'u' :: more => do
      let (m, rest) ← hexQuad? more
      guard (0xDC00 ≤ m ∧ m < 0xE000)
      return (Char.ofNat (0x10000 + (n - 0xD800) * 0x400 + (m - 0xDC00)), rest)
    | _ => none
  else if 0xDC00 ≤ n ∧ n < 0xE000 then none
  else return (Char.ofNat n, rest)

/-- An escape that is skimmed; half a pair stands for any character. -/
def skimmedEscape? (cs : List Char) : Option (Char × List Char) :=
  (hexQuad? cs).map fun (_, rest) => ('?', rest)

def simpleEscape? : Char → Option Char
  | '"' => some '"'
  | '\\' => some '\\'
  | '/' => some '/'
  | 'b' => some '\x08'
  | 'f' => some '\x0c'
  | 'n' => some '\n'
  | 'r' => some '\r'
  | 't' => some '\t'
  | _ => none

/-- The rest of a quoted text after its opening quote, with the characters read so far. -/
def stringBody? (skimmed : Bool) : Nat → List Char → List Char → Option (String × List Char)
  | 0, _, _ => none
  | _ + 1, _, [] => none
  | fuel + 1, acc, c :: rest =>
    if c = '"' then some (String.ofList acc.reverse, rest)
    else if c = '\\' then
      match rest with
      | 'u' :: more =>
        match if skimmed then skimmedEscape? more else unicodeEscape? more with
        | some (d, rest) => stringBody? skimmed fuel (d :: acc) rest
        | none => none
      | e :: rest =>
        match simpleEscape? e with
        | some d => stringBody? skimmed fuel (d :: acc) rest
        | none => none
      | [] => none
    else if c.toNat < 32 then none
    else stringBody? skimmed fuel (c :: acc) rest

def string? (skimmed : Bool) (cs : List Char) : Option (String × List Char) :=
  stringBody? skimmed (cs.length + 1) [] cs

/-- `significand · 10 ^ exponent` in steps of at most `10 ^ 308`, none when it leaves the range. -/
def scaleReal? (significand : Nat) (exponent : Int) : Option Float :=
  let f := Float.ofNat significand
  if significand = 0 then some 0.0
  else if 0 ≤ exponent then
    if exponent ≤ 308 then
      let g := f * Number.roundDecimal 1 exponent
      if Number.isFinite g then some g else none
    else none
  else some (shrink f (-exponent).toNat)
where
  shrink (f : Float) (places : Nat) : Float :=
    if places ≤ 308 then f / Number.roundDecimal 1 places
    else if f == 0.0 then f
    else shrink (f / 1e308) (places - 308)
  termination_by places

/-- The significand of as many leading digits as fit 64 bits, with the count of digits left out. -/
def boundedSignificand : Nat → List Char → Nat × Nat
  | n, [] => (n, 0)
  | n, c :: rest =>
    let next := n * 10 + (Number.digitValue? c).getD 0
    if next < UInt64.size then boundedSignificand next rest else (n, rest.length + 1)

/-- A number with a fraction or an exponent, or too large for an integer. -/
def real? (whole fraction : List Char) (exponent : Int) : Option Float :=
  let (n, dropped) := boundedSignificand 0 whole
  if 0 < dropped then scaleReal? n (exponent + dropped)
  else
    let (m, left) := boundedSignificand n fraction
    scaleReal? m (exponent - (fraction.length - left : Nat))

def splitDigits (cs : List Char) : List Char × List Char :=
  (cs.takeWhile (Number.isDigitIn 10), cs.dropWhile (Number.isDigitIn 10))

def exponent? : List Char → Option (Option Int × List Char)
  | e :: rest =>
    if e = 'e' ∨ e = 'E' then
      let (negative, body) := Number.splitSign rest
      let (ds, rest) := splitDigits body
      if ds.isEmpty then none
      else some (some (if negative then -(Number.digitsValue 10 ds : Int)
        else Number.digitsValue 10 ds), rest)
    else some (none, e :: rest)
  | [] => some (none, [])

def number? (skimmed : Bool) (cs : List Char) : Option (Numeral × List Char) := do
  let (negative, body) := match cs with
    | '-' :: body => (true, body)
    | body => (false, body)
  let (whole, rest) := splitDigits body
  guard !whole.isEmpty
  guard (whole.length = 1 || whole.head? != some '0')
  let (fraction, rest) := match rest with
    | '.' :: after =>
      let (ds, rest) := splitDigits after
      (some ds, rest)
    | rest => (none, rest)
  guard (fraction != some [])
  let (exponent, rest) ← exponent? rest
  let n := Number.digitsValue 10 whole
  if fraction.isNone && exponent.isNone then
    if negative then
      if n = 0 then return (.real (-0.0), rest)
      if n ≤ Nat.pow 2 63 then return (.whole (-(n : Int)), rest)
    else if n < UInt64.size then return (.whole n, rest)
  if skimmed then return (.whole 0, rest)
  let x ← real? whole (fraction.getD []) (exponent.getD 0)
  return (.real (Number.negateIf negative x), rest)

/-- A comma with what follows it, or the closing bracket. -/
inductive Separator
  | more (rest : List Char)
  | done (rest : List Char)

def separator? (close : Char) (cs : List Char) : Option Separator :=
  match skipSpace cs with
  | ',' :: rest => some (.more rest)
  | c :: rest => if c = close then some (.done rest) else none
  | [] => none

def key? (skimmed : Bool) (cs : List Char) : Option (String × List Char) :=
  match skipSpace cs with
  | '"' :: rest => do
    let (key, rest) ← string? skimmed rest
    match skipSpace rest with
    | ':' :: rest => some (key, rest)
    | _ => none
  | _ => none

mutual

/-- One value at the head of the text. The fuel bounds the characters, `room` the nesting. -/
def value? (skimmed : Bool) : Nat → Nat → List Char → Option (Json × List Char)
  | 0, _, _ => none
  | fuel + 1, room, cs =>
    match skipSpace cs with
    | 'n' :: 'u' :: 'l' :: 'l' :: rest => some (.null, rest)
    | 't' :: 'r' :: 'u' :: 'e' :: rest => some (.bool true, rest)
    | 'f' :: 'a' :: 'l' :: 's' :: 'e' :: rest => some (.bool false, rest)
    | '"' :: rest => (string? skimmed rest).map fun (s, rest) => (.string s, rest)
    | '[' :: rest =>
      if room ≤ 1 then none
      else match skipSpace rest with
        | ']' :: rest => some (.array [], rest)
        | rest => (items? skimmed fuel (room - 1) [] rest).map fun (js, rest) => (.array js, rest)
    | '\x7b' :: rest =>
      if room ≤ 1 then none
      else match skipSpace rest with
        | '\x7d' :: rest => some (.object [], rest)
        | rest => (fields? skimmed fuel (room - 1) [] rest).map fun (fs, rest) => (.object fs, rest)
    | cs => (number? skimmed cs).map fun (n, rest) => (.number n, rest)

def items? (skimmed : Bool) : Nat → Nat → List Json → List Char → Option (List Json × List Char)
  | 0, _, _, _ => none
  | fuel + 1, room, acc, cs =>
    match value? skimmed fuel room cs with
    | none => none
    | some (j, rest) =>
      match separator? ']' rest with
      | some (.more rest) => items? skimmed fuel room (j :: acc) rest
      | some (.done rest) => some ((j :: acc).reverse, rest)
      | none => none

def fields? (skimmed : Bool) : Nat → Nat → List (String × Json) → List Char →
    Option (List (String × Json) × List Char)
  | 0, _, _, _ => none
  | fuel + 1, room, acc, cs =>
    match key? skimmed cs with
    | none => none
    | some (k, rest) =>
      match value? skimmed fuel room rest with
      | none => none
      | some (j, rest) =>
        match separator? '\x7d' rest with
        | some (.more rest) => fields? skimmed fuel room ((k, j) :: acc) rest
        | some (.done rest) => some (((k, j) :: acc).reverse, rest)
        | none => none

end

/-- Nesting of a document. -/
def maxRoom : Nat := 128

/-- What a reader finds in a text, with nothing but white space behind it. -/
def whole? {α : Type} (found : Option (α × List Char)) : Option α :=
  match found with
  | some (a, rest) => if (skipSpace rest).isEmpty then some a else none
  | none => none

/-- More than it takes to read a text. -/
def fuelFor (cs : List Char) : Nat := 2 * cs.length + 2

/-- The document a text consists of, white space around it aside. -/
def read? (text : String) : Option Json :=
  let cs := text.toList
  whole? (value? false (fuelFor cs) maxRoom cs)

/-- The wanted fields of an object, one pair a field, before its closing brace. Others are
skimmed. -/
def wantedFields? (wanted : List String) : Nat → List Char →
    Option (List (String × Json) × List Char)
  | 0, _ => none
  | fuel + 1, cs => do
    let (k, rest) ← key? false cs
    let isWanted := wanted.contains k
    let room := if isWanted then maxRoom - 1 else fuelFor rest
    let (j, rest) ← value? (!isWanted) (fuelFor rest) room rest
    let fields := if isWanted then [(k, j)] else []
    match ← separator? '\x7d' rest with
    | .more rest =>
      let (more, rest) ← wantedFields? wanted fuel rest
      return (fields ++ more, rest)
    | .done rest => return (fields, rest)

/-- The document a text consists of, with the wanted fields only if it is an object. -/
def readWanted? (wanted : List String) (text : String) : Option Json :=
  match skipSpace text.toList with
  | '\x7b' :: rest =>
    match skipSpace rest with
    | '\x7d' :: rest => whole? (some (.object [], rest))
    | rest => (whole? (wantedFields? wanted (fuelFor rest) rest)).map .object
  | _ => read? text

end Nodecraft.Json
