import Nodecraft.Markup.EntityTable
import Nodecraft.Number.Reading

/-!
Character references, by name or by number.
-/

set_option autoImplicit false

namespace Nodecraft.Markup

def hexValue (s : String) : Nat := Number.digitsValue 16 s.toList

/-- The pairs of a table that lists names and code points alternately. -/
def entityPairs : List String → List (List Char × List Char)
  | name :: points :: rest =>
    (name.toList, (points.splitOn ",").map fun p => Char.ofNat (hexValue p)) :: entityPairs rest
  | _ => []

def entities : List (List Char × List Char) :=
  entityPairs (((entityTable.splitOn "\n").flatMap fun line => line.splitOn " ").filter
    fun word => !word.isEmpty)

/-- The longer of two names, the first one if they are of one length. -/
def longerName (best : Option (List Char × List Char)) (e : List Char × List Char) :
    Option (List Char × List Char) :=
  match best with
  | some b => if b.1.length < e.1.length then some e else some b
  | none => some e

/-- Names consist of letters and digits, and most of them end with a semicolon. -/
def isNamePart (c : Char) : Bool := c.isAlphanum || c == ';'

/-- The longest name a text begins with, and what it stands for. -/
def longestEntity? (cs : List Char) : Option (List Char × List Char) :=
  let word := cs.takeWhile isNamePart
  entities.foldl (fun best e => if e.1.isPrefixOf word then longerName best e else best) none

/-- Within attributes, a name without a semicolon must not go on. -/
def namedReference? (inAttribute : Bool) (cs : List Char) : Option (List Char × List Char) :=
  match longestEntity? cs with
  | none => none
  | some (name, value) =>
    let rest := cs.drop name.length
    let goesOn := rest.head?.any fun c => c == '=' || c.isAlphanum
    if inAttribute && name.getLast? != some ';' && goesOn then none else some (value, rest)

/-- What code points from 80 to 9F stand for, where it is not themselves. -/
def replacements : List (Nat × Nat) :=
  [(0x80, 0x20AC), (0x82, 0x201A), (0x83, 0x0192), (0x84, 0x201E), (0x85, 0x2026), (0x86, 0x2020),
    (0x87, 0x2021), (0x88, 0x02C6), (0x89, 0x2030), (0x8A, 0x0160), (0x8B, 0x2039), (0x8C, 0x0152),
    (0x8E, 0x017D), (0x91, 0x2018), (0x92, 0x2019), (0x93, 0x201C), (0x94, 0x201D), (0x95, 0x2022),
    (0x96, 0x2013), (0x97, 0x2014), (0x98, 0x02DC), (0x99, 0x2122), (0x9A, 0x0161), (0x9B, 0x203A),
    (0x9C, 0x0153), (0x9E, 0x017E), (0x9F, 0x0178)]

/-- Stands for characters that must not occur. -/
def replacement : Char := '\uFFFD'

def numberedChar (n : Nat) : Char :=
  if n = 0 || 0x10FFFF < n || (0xD800 ≤ n && n ≤ 0xDFFF) then replacement
  else Char.ofNat ((replacements.lookup n).getD n)

def numericReference? (cs : List Char) : Option (List Char × List Char) :=
  let (base, body) := match cs with
    | 'x' :: rest => (16, rest)
    | 'X' :: rest => (16, rest)
    | _ => (10, cs)
  let digits := body.takeWhile (Number.isDigitIn base)
  if digits.isEmpty then none
  else
    let c := numberedChar (Number.digitsValue base digits)
    match body.dropWhile (Number.isDigitIn base) with
    | ';' :: rest => some ([c], rest)
    | rest => some ([c], rest)

/-- What a reference stands for and what follows it, from behind its ampersand. -/
def reference? (inAttribute : Bool) : List Char → Option (List Char × List Char)
  | '#' :: rest => numericReference? rest
  | cs => namedReference? inAttribute cs

end Nodecraft.Markup
