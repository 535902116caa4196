import Nodecraft.Sandbox.Method.Argument
import Nodecraft.Number.Fixed

/-!
Methods of numbers.
-/

set_option autoImplicit false

namespace Nodecraft.Sandbox.Action

def toFixed (x digits : Float) : Action Value :=
  let digits := if digits.isNaN then 0.0 else digits
  if digits < 0.0 || 100.0 < digits then
    typeError "toFixed() digits argument must be between 0 and 100"
  else return .string (Number.fixedText (Number.truncate digits).toNat x)

/-- Whole numbers beyond 64 bits are written as the nearest number within. -/
def toRadix (x : Float) (radix : Nat) : Action Value :=
  if radix < 2 || 36 < radix then typeError "toString() radix must be between 2 and 36"
  else if radix = 10 || !Number.isIntegral x then return .string (Number.scriptText x)
  else return .string (Number.inBase radix (Number.clampTo (-(Nat.pow 2 63)) (Nat.pow 2 63 - 1) x))

def numberMethod (m : NumberMethod) (self : Value) (args : List Value) : Action Value := do
  let x ← number self
  match m with
  | .toFixed => toFixed x (← number (argument args 0))
  | .toString =>
    match argument args 0 with
    | .undefined => toRadix x 10
    | radix => toRadix x (Number.clampTo 0 (UInt32.size - 1) (← number radix)).toNat
  | .valueOf => return .number x

end Nodecraft.Sandbox.Action
