import Nodecraft.Logic.Form
import Nodecraft.Script.Reading

/-!
Logic that is ready to be evaluated.
-/

set_option autoImplicit false

namespace Nodecraft.Logic

structure Body where
  form : Form
  /-- The text the program was read from. -/
  source : String
  program : Script.Block

/-- Why some logic has no body. -/
inductive Reason
  | unread (e : Script.ReadError)
  | notOneObject
  deriving DecidableEq, Repr, Inhabited

def Reason.message : Reason → String
  | .unread e => e.message
  | .notOneObject => "a bare options block must be a single object literal"

structure Unsupported where
  form : Form
  reason : Reason
  deriving DecidableEq, Repr, Inhabited

def returnsObject : Script.Block → Bool
  | [.return (some (.object _))] => true
  | _ => false

def Body.ofText (logic : String) : Except Unsupported Body :=
  match asFunctionBody logic with
  | (.empty, source) => .ok ⟨.empty, source, []⟩
  | (form, source) =>
    match Script.readScript source with
    | .error e => .error ⟨form, .unread e⟩
    | .ok program =>
      if form = .optionsLiteral && !returnsObject program then .error ⟨form, .notOneObject⟩
      else .ok ⟨form, source, program⟩

end Nodecraft.Logic
