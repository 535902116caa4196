import Nodecraft.Definition.Blocks
import Nodecraft.Logic.Body
import Nodecraft.Sandbox.Failure
import Nodecraft.Template.Fault

/-!
Why a definition does not compile, with what a report of it says.
-/

set_option autoImplicit false

namespace Nodecraft

inductive CompileError
  | missingMarkup (why : Definition.MissingMarkup)
  | unsupportedLogic (why : Logic.Unsupported)
  | logicEvaluation (failure : Sandbox.Failure)
  | template (fault : Template.Fault)

namespace CompileError

def code : CompileError → String
  | .missingMarkup _ => "NODE-ERR-MARKUP-001"
  | .unsupportedLogic _ => "NODE-ERR-LOGIC-001"
  | .logicEvaluation _ => "NODE-ERR-LOGIC-002"
  | .template _ => "NODE-ERR-TEMPLATE-001"

def kind : CompileError → String
  | .missingMarkup _ => "MISSING_MARKUP"
  | .unsupportedLogic _ => "UNSUPPORTED_LOGIC_SHAPE"
  | .logicEvaluation _ => "LOGIC_EVALUATION"
  | .template _ => "TEMPLATE_COMPILE"

/-- What the check that failed makes sure of. -/
def guarantee : CompileError → String
  | .missingMarkup _ => "Every custom node definition renders from a non-empty <template> block."
  | .unsupportedLogic _ =>
    "Logic is an \x60export default\x60 object, a bare options object, or setup statements."
  | .logicEvaluation _ => "Node logic runs to completion before a component is produced."
  | .template _ => "Templates are validated before any node logic runs."

def message : CompileError → String
  | .missingMarkup why => "missing markup: " ++ why.message
  | .unsupportedLogic why =>
    "unsupported logic shape (" ++ why.form.name ++ "): " ++ why.reason.message
  | .logicEvaluation failure => "logic evaluation failed: " ++ failure.message
  | .template fault => "template compilation failed: " ++ fault.message

end CompileError

end Nodecraft
