import Nodecraft.Sandbox.Operator

/-!
Arguments and receivers of methods.
-/

set_option autoImplicit false

namespace Nodecraft.Sandbox

/-- Longest text that repeating and padding make. -/
def maxTextLength : Nat := Nat.pow 2 24

def argument (args : List Value) (i : Nat) : Value := args.getD i .undefined

/-- An index that may count from the end, within a length. -/
def relativeIndex (h : Heap) (v : Value) (length default : Nat) : Nat :=
  match v with
  | .undefined => default
  | v =>
    let n := Number.clampTo (-(Nat.pow 2 62)) (Nat.pow 2 62) (h.number v)
    if n < 0 then (length + n).toNat else min n.toNat length

/-- Equality that finds NaN. -/
def sameValue : Value → Value → Bool
  | .number x, .number y => (x.isNaN && y.isNaN) || x == y
  | a, b => a.strictEquals b

namespace Action

def textReceiver (self : Value) (method : String) : Action String :=
  match self with
  | .string s => return s
  | other => typeError ("String.prototype." ++ method ++ " called on " ++ other.typeName)

def arrayReceiver (self : Value) (method : String) : Action ArrayId :=
  match self with
  | .array a => return a
  | other => typeError ("Array.prototype." ++ method ++ " called on " ++ other.typeName)

/-- The function a method calls back. -/
def callback (args : List Value) (method : String) : Action Value := do
  match args.head? with
  | some (.function f) => return .function f
  | some other => typeError ((← text other) ++ " is not a function (in " ++ method ++ ")")
  | none => typeError ("undefined is not a function (in " ++ method ++ ")")

end Action

end Nodecraft.Sandbox
