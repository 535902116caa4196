/-!
JSON documents. Objects keep the order and the repetitions they are given until `Json.canonical`
sorts their keys and lets the last of equal keys win.
-/

set_option autoImplicit false

namespace Nodecraft

/-- Numbers of a document: whole ones within 64 bits stay exact. -/
inductive Json.Numeral
  | whole (n : Int)
  | real (x : Float)
  deriving Inhabited, Repr, BEq

inductive Json
  | null
  | bool (b : Bool)
  | number (n : Json.Numeral)
  | string (s : String)
  | array (items : List Json)
  | object (fields : List (String × Json))
  deriving Inhabited, Repr

namespace Json

mutual

/-- Whether two documents are the same, their fields in the same order. -/
def same : Json → Json → Bool
  | .null, .null => true
  | .bool a, .bool b => a == b
  | .number m, .number n => m == n
  | .string s, .string t => s == t
  | .array items, .array others => sameItems items others
  | .object fields, .object others => sameFields fields others
  | _, _ => false

def sameItems : List Json → List Json → Bool
  | [], [] => true
  | j :: rest, k :: others => same j k && sameItems rest others
  | _, _ => false

def sameFields : List (String × Json) → List (String × Json) → Bool
  | [], [] => true
  | (key, j) :: rest, (other, k) :: others => key == other && same j k && sameFields rest others
  | _, _ => false

end

instance : BEq Json := ⟨same⟩

def Numeral.toFloat : Numeral → Float
  | .whole n => Float.ofInt n
  | .real x => x

def ofInt (n : Int) : Json := .number (.whole n)

def ofNat (n : Nat) : Json := .number (.whole n)

/-- Entries ordered by key; of equal keys the last one stands. -/
def sortFields {α : Type} (fields : List (String × α)) : List (String × α) :=
  keepLast (fields.mergeSort fun a b => a.1 ≤ b.1)
where
  keepLast : List (String × α) → List (String × α)
    | [] => []
    | [f] => [f]
    | f :: g :: rest => if f.1 = g.1 then keepLast (g :: rest) else f :: keepLast (g :: rest)

mutual

/-- The document with every object's keys sorted and unique. -/
def canonical : Json → Json
  | .array items => .array (canonicalItems items)
  | .object fields => .object (sortFields (canonicalFields fields))
  | j => j

def canonicalItems : List Json → List Json
  | [] => []
  | j :: rest => canonical j :: canonicalItems rest

def canonicalFields : List (String × Json) → List (String × Json)
  | [] => []
  | (k, j) :: rest => (k, canonical j) :: canonicalFields rest

end

/-- The value under a key of an object. -/
def get? (j : Json) (key : String) : Option Json :=
  match j with
  | .object fields => fields.lookup key
  | _ => none

def asObject? : Json → Option (List (String × Json))
  | .object fields => some fields
  | _ => none

def asArray? : Json → Option (List Json)
  | .array items => some items
  | _ => none

def asString? : Json → Option String
  | .string s => some s
  | _ => none

def asBool? : Json → Option Bool
  | .bool b => some b
  | _ => none

/-- A whole number that is not negative. -/
def asNat? : Json → Option Nat
  | .number (.whole (.ofNat n)) => some n
  | _ => none

def isNull : Json → Bool
  | .null => true
  | _ => false

end Json

end Nodecraft
