import Nodecraft.Script.Nesting
import Nodecraft.Script.Subset
import Nodecraft.Script.Surface.Grammar

/-!
Scripts and expressions read from text, or the reason why they are not accepted.
-/

set_option autoImplicit false

namespace Nodecraft.Script

/-- Why a text is not accepted. -/
inductive ReadError
  | malformed
  | refused (why : Refusal)
  deriving DecidableEq, Repr, Inhabited

/-- The wording of a malformed text's diagnostic is left open. -/
def ReadError.message : ReadError → String
  | .malformed => "<syntax error>"
  | .refused why => why.message

def readWith {α β : Type} (source : String) (parse : String → Option α)
    (accept : α → Subset.Result β) : Except ReadError β :=
  if !nestsShallowly source then .error (.refused .tooDeep)
  else match parse source with
    | none => .error .malformed
    | some a => (accept a).mapError .refused

/-- A script as the body of a function. -/
def readScript (source : String) : Except ReadError Block :=
  readWith source Surface.script? (Subset.block 0)

/-- The expression at the head of a text. -/
def readExpression (source : String) : Except ReadError Expr :=
  readWith source Surface.expression? (Subset.expr 0)

end Nodecraft.Script
