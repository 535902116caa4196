import Nodecraft.Sandbox.Method.Argument
import Nodecraft.Text.LetterCase
import Nodecraft.Text.Search

/-!
Methods of texts. Positions count characters.
-/

set_option autoImplicit false

namespace Nodecraft.Sandbox.Action

/-- The text with occurrences of a pattern that is not empty replaced, all of them or the first.
The replacement is asked for at each occurrence's position. -/
def replaceOccurrences (pattern : List Char) (all : Bool) (replacement : Nat → Action String) :
    Nat → Nat → List Char → Action String
  | 0, _, cs => return String.ofList cs
  | fuel + 1, position, cs =>
    match Text.cut? pattern cs with
    | none => return String.ofList cs
    | some (before, after) => do
      let found := position + before.length
      let inserted ← replacement found
      let rest ← if all
        then replaceOccurrences pattern all replacement fuel (found + pattern.length) after
        else pure (String.ofList after)
      return String.ofList before ++ inserted ++ rest

/-- A replacement before each character and at the end, or only at the beginning. -/
def replaceBetween (all : Bool) (replacement : Nat → Action String) :
    Nat → List Char → Action String
  | position, [] => replacement position
  | position, c :: cs => do
    let inserted ← replacement position
    if all then return inserted.push c ++ (← replaceBetween all replacement (position + 1) cs)
    else return inserted ++ String.ofList (c :: cs)

/-- What is put in the place of an occurrence: the text of a value, or what a function makes of the
occurrence. -/
def replacementText (call : Caller) (pattern : String) (position : Nat) : Value → Action String
  | .function f => do
    text (← call (.function f) .undefined [.string pattern, .number (Float.ofNat position)])
  | other => text other

def replace (call : Caller) (self : Value) (args : List Value) (all : Bool) : Action Value := do
  let s ← textReceiver self "replace"
  let pattern ← text (argument args 0)
  let replacement (position : Nat) := replacementText call pattern position (argument args 1)
  if pattern.isEmpty then return .string (← replaceBetween all replacement 0 s.toList)
  else
    return .string
      (← replaceOccurrences pattern.toList all replacement (s.length + 1) 0 s.toList)

def pad (self : Value) (args : List Value) (atStart : Bool) : Action Value := do
  let s ← textReceiver self (if atStart then "padStart" else "padEnd")
  let target := (Number.clampTo 0 (UInt64.size) (← number (argument args 0))).toNat
  if maxTextLength < target then typeError "Invalid string length"
  else
    let fill ← match argument args 1 with
      | .undefined => pure " "
      | other => text other
    let missing := target - s.length
    if missing = 0 || fill.isEmpty then return .string s
    else
      let padding := Text.cycled fill missing
      return .string (if atStart then padding ++ s else s ++ padding)

def charAt (s : String) (x : Float) : String :=
  if x < 0.0 then ""
  else match s.toList[(Number.clampTo 0 (UInt64.size) x).toNat]? with
    | some c => c.toString
    | none => ""

def sliceText (h : Heap) (s : String) (args : List Value) : String :=
  let cs := s.toList
  let start := relativeIndex h (argument args 0) cs.length 0
  let stop := relativeIndex h (argument args 1) cs.length cs.length
  String.ofList ((cs.take stop).drop start)

def splitText (s separator : String) : List String :=
  if separator.isEmpty then s.toList.map Char.toString else Text.splitOn separator s

def repeatText (self : Value) (args : List Value) : Action Value := do
  let s ← textReceiver self "repeat"
  let x ← number (argument args 0)
  if x < 0.0 || !Number.isFinite x then typeError "Invalid count value"
  else
    let count := (Number.clampTo 0 (UInt64.size) x).toNat
    if maxTextLength < s.utf8ByteSize * count then typeError "Invalid string length"
    else return .string (if s.isEmpty then "" else Text.repeated s count)

def textMethod (call : Caller) (m : TextMethod) (self : Value) (args : List Value) :
    Action Value := do
  match m with
  | .toUpperCase => return .string (Text.upper (← textReceiver self "toUpperCase"))
  | .toLowerCase => return .string (Text.lower (← textReceiver self "toLowerCase"))
  | .trim => return .string (Text.trim (← textReceiver self "trim"))
  | .trimStart => return .string (Text.trimStart (← textReceiver self "trimStart"))
  | .trimEnd => return .string (Text.trimEnd (← textReceiver self "trimEnd"))
  | .toString => return .string (← textReceiver self "toString")
  | .valueOf => return .string (← textReceiver self "toString")
  | .includes =>
    let s ← textReceiver self "includes"
    return .bool (Text.contains (← text (argument args 0)).toList s.toList)
  | .startsWith =>
    let s ← textReceiver self "startsWith"
    return .bool ((← text (argument args 0)).toList.isPrefixOf s.toList)
  | .endsWith =>
    let s ← textReceiver self "endsWith"
    return .bool ((← text (argument args 0)).toList.isSuffixOf s.toList)
  | .indexOf =>
    let s ← textReceiver self "indexOf"
    match Text.cut? (← text (argument args 0)).toList s.toList with
    | some (before, _) => return .number (Float.ofNat before.length)
    | none => return .number (-1.0)
  | .charAt =>
    let s ← textReceiver self "charAt"
    return .string (charAt s (← number (argument args 0)))
  | .slice =>
    let s ← textReceiver self "slice"
    return .string (sliceText (← heap) s args)
  | .split =>
    let s ← textReceiver self "split"
    match argument args 0 with
    | .undefined => newArray #[.string s]
    | separator => newArray ((splitText s (← text separator)).map Value.string).toArray
  | .replace => replace call self args false
  | .replaceAll => replace call self args true
  | .padStart => pad self args true
  | .padEnd => pad self args false
  | .repeat => repeatText self args

end Nodecraft.Sandbox.Action
