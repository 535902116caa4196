import Nodecraft.Sandbox.Conversion

/-!
How a run of a script fails: errors that the script could catch, limits that it cannot, and runs
that are broken off from outside.
-/

set_option autoImplicit false

namespace Nodecraft.Sandbox

inductive ScriptError
  /-- A thrown value with its text at the time. -/
  | thrown (message : String) (value : Value)
  | unbound (name : String)
  | type (message : String)
  | callDepth (limit : Nat)
  | stepBudget (limit : Nat)
  /-- The native stack has no room for another entry. -/
  | stackExhausted
  deriving Inhabited

namespace ScriptError

/-- Limits escape `catch`, so that runaway scripts always stop. -/
def isCatchable : ScriptError → Bool
  | .thrown _ _ => true
  | .unbound _ => true
  | .type _ => true
  | .callDepth _ => false
  | .stepBudget _ => false
  | .stackExhausted => false

def message : ScriptError → String
  | .thrown message _ => "Uncaught " ++ message
  | .unbound name => "ReferenceError: " ++ name ++ " is not defined"
  | .type message => "TypeError: " ++ message
  | .callDepth limit => "RangeError: maximum call depth of " ++ toString limit ++ " exceeded"
  | .stepBudget limit => "execution budget of " ++ toString limit ++ " steps exhausted"
  | .stackExhausted => "RangeError: maximum call stack size exceeded"

end ScriptError

inductive Failure
  | raised (e : ScriptError)
  /-- The run took longer than any answer is waited for. -/
  | unfinished
  /-- An array was read while it was being spliced. -/
  | overlap
  deriving Inhabited

def Failure.message : Failure → String
  | .raised e => e.message
  | .unfinished => "the run did not finish"
  | .overlap => "an array was read while it was being spliced"

end Nodecraft.Sandbox
