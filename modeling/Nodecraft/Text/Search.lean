/-!
Finding one text in another, on characters.
-/

set_option autoImplicit false

namespace Nodecraft.Text

/-- The text behind a known beginning. -/
def dropKnown? : List Char → List Char → Option (List Char)
  | [], cs => some cs
  | _ :: _, [] => none
  | p :: ps, c :: cs => if p = c then dropKnown? ps cs else none

/-- What stands before and behind the first occurrence of a pattern. -/
def cut? (pattern : List Char) : List Char → Option (List Char × List Char)
  | [] => if pattern.isEmpty then some ([], []) else none
  | c :: cs =>
    match dropKnown? pattern (c :: cs) with
    | some after => some ([], after)
    | none => (cut? pattern cs).map fun (before, after) => (c :: before, after)

def contains (pattern text : List Char) : Bool := (cut? pattern text).isSome

/-- The stretches between occurrences of a pattern; the fuel bounds their number. -/
def stretches (pattern : List Char) : Nat → List Char → List (List Char)
  | 0, cs => [cs]
  | fuel + 1, cs =>
    match cut? pattern cs with
    | some (before, after) => before :: stretches pattern fuel after
    | none => [cs]

/-- A text split at a pattern that is not empty. -/
def splitOn (pattern text : String) : List String :=
  (stretches pattern.toList text.length text.toList).map String.ofList

/-- A text repeated behind another one. -/
def appendTimes (s : String) : Nat → String → String
  | 0, acc => acc
  | n + 1, acc => appendTimes s n (acc ++ s)

def repeated (s : String) (n : Nat) : String := appendTimes s n ""

/-- The first `n` characters of a text that is repeated without end. -/
def cycled (s : String) (n : Nat) : String :=
  repeated s (n / s.length) ++ String.ofList (s.toList.take (n % s.length))

end Nodecraft.Text
