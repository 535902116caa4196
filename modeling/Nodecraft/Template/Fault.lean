import Nodecraft.Script.Reading

/-!
Why markup is not accepted.
-/

set_option autoImplicit false

namespace Nodecraft.Template

inductive Fault
  /-- An interpolation that does not end, with its beginning. -/
  | unterminated (shown : String)
  /-- A closing tag where another element is open. -/
  | crossed (name expected : String)
  | unopened (name : String)
  | unclosed (name : String)
  | tooDeep
  /-- A tag that is not well formed, with its beginning. -/
  | malformedTag (shown : String)
  /-- A branch that does not follow a condition. -/
  | strayBranch (directive : String)
  | unknownPlaceholder
  | malformedLoop (source : String)
  | expression (directive source : String) (e : Script.ReadError)
  | handler (directive source : String) (e : Script.ReadError)
  deriving DecidableEq, Repr, Inhabited

/-- Nesting of elements beyond which markup is refused. -/
def maxOpenElements : Nat := 64

def Fault.message : Fault → String
  | .unterminated shown => "unterminated interpolation \x60" ++ shown ++ "\x60"
  | .crossed name expected =>
    "unexpected closing tag </" ++ name ++ ">, expected </" ++ expected ++ ">"
  | .unopened name => "closing tag </" ++ name ++ "> has no opening tag"
  | .unclosed name => "element <" ++ name ++ "> is never closed"
  | .tooDeep => "elements nest deeper than " ++ toString maxOpenElements ++ " levels"
  | .malformedTag shown => "malformed tag \x60" ++ shown ++ "\x60"
  | .strayBranch directive => directive ++ " has no adjacent v-if or v-else-if"
  | .unknownPlaceholder => "interpolation placeholder out of range"
  | .malformedLoop source => "malformed v-for expression \x60" ++ source ++ "\x60"
  | .expression directive source e =>
    "invalid expression in " ++ directive ++ " \x60" ++ source ++ "\x60: " ++ e.message
  | .handler directive source e =>
    "invalid handler in " ++ directive ++ "=\"" ++ source ++ "\": " ++ e.message

end Nodecraft.Template
