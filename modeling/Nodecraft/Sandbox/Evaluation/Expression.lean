import Nodecraft.Sandbox.Evaluation.Pattern

/-!
Evaluating expressions, from left to right.
-/

set_option autoImplicit false

namespace Nodecraft.Sandbox.Evaluation

open Script Sandbox.Action

def literal : Literal → Value
  | .undefined => .undefined
  | .null => .null
  | .bool b => .bool b
  | .number x => .number x
  | .string s => .string s

/-- Texts and the values between them. -/
def templateText (m : Machine) (s : ScopeId) : List String → List Expr → Action String
  | [], _ => return ""
  | t :: texts, [] => return t ++ (← templateText m s texts [])
  | t :: texts, e :: rest => do
    let v ← m.eval s e
    let shown ← text v
    return t ++ shown ++ (← templateText m s texts rest)

/-- Elements or arguments, with spread ones in their place. -/
def values (m : Machine) (s : ScopeId) : List Item → Action (List Value)
  | [] => return []
  | .value e :: rest => do
    let v ← m.eval s e
    return v :: (← values m s rest)
  | .spread e :: rest => do
    let spread ← iterate (← m.eval s e)
    return spread ++ (← values m s rest)
  | .hole :: rest => return .undefined :: (← values m s rest)

def closure (s : ScopeId) (code : FunctionDef) : Action Value := newFunction (.closure code s)

/-- The fields of an object literal after those read so far. -/
def objectFields (m : Machine) (s : ScopeId) : Fields Value → List Property → Action (Fields Value)
  | fields, [] => return fields
  | fields, .entry key e :: rest => do
    let key ← propertyKey m s key
    objectFields m s (fields.insert key (← m.eval s e)) rest
  | fields, .spread e :: rest => do
    let source ← m.eval s e
    let entries ← readFields m source ((← heap).enumerableKeys source)
    objectFields m s (entries.foldl (fun fields (k, v) => fields.insert k v) fields) rest

def unaryExpr (m : Machine) (s : ScopeId) (op : UnaryOp) (operand : Expr) : Action Value := do
  match op, operand with
  | .typeof, .name n => return .string ((← lookup m.call n s).getD .undefined).typeName
  | op, operand => unary op (← m.eval s operand)

/-- Whether a logical operator stops at its left operand. -/
def stopsAt : LogicalOp → Value → Bool
  | .or, v => v.isTruthy
  | .and, v => !v.isTruthy
  | .coalesce, v => !v.isNullish

/-! ### Assignments -/

/-- An assignment's target, with its object and key evaluated. -/
inductive Place
  | name (name : String)
  | member (object : Value) (key : String)

def memberKey (m : Machine) (s : ScopeId) : MemberKey → Action String
  | .fixed name => return name
  | .computed e => do
    let v ← m.eval s e
    return (← heap).key v

def place (m : Machine) (s : ScopeId) : Target → Action Place
  | .name n => return .name n
  | .member e key => do
    let object ← m.eval s e
    return .member object (← memberKey m s key)

def readPlace (m : Machine) (s : ScopeId) : Place → Action Value
  | .name n => read m.call n s
  | .member object key => getProperty m.call object key

def writePlace (m : Machine) (s : ScopeId) (value : Value) : Place → Action Unit
  | .name n => assign m.call n value s
  | .member object key => setProperty m.call object key value

def assignment (m : Machine) (s : ScopeId) (op : AssignOp) (target : Target) (e : Expr) :
    Action Value := do
  let p ← place m s target
  match op with
  | .plain =>
    let v ← m.eval s e
    writePlace m s v p
    return v
  | .binary op =>
    let current ← readPlace m s p
    let v ← binary op current (← m.eval s e)
    writePlace m s v p
    return v
  | .logical op =>
    let current ← readPlace m s p
    if stopsAt op current then return current
    else
      let v ← m.eval s e
      writePlace m s v p
      return v

def updateExpr (m : Machine) (s : ScopeId) (increment before : Bool) (target : Target) :
    Action Value := do
  let p ← place m s target
  let old ← number (← readPlace m s p)
  let new := if increment then old + 1.0 else old - 1.0
  writePlace m s (.number new) p
  return .number (if before then new else old)

def deleteExpr (m : Machine) (s : ScopeId) (target : Target) : Action Value := do
  match ← place m s target with
  | .member object key => m.erase object key
  | .name _ => pure ()
  return .bool true

/-! ### Members and calls -/

/-- How an error names what was called. -/
def calleeName : Expr → String
  | .name n => n
  | .member _ (.fixed n) _ => n
  | _ => "expression"

/-- A function and what it is called on; none if the chain ends before. -/
def callee (m : Machine) (s : ScopeId) (e : Expr) : Action (Option (Value × Value)) := do
  match e with
  | .member object key isOptional =>
    match ← m.link s object with
    | none => return none
    | some object =>
      if isOptional && object.isNullish then return none
      else
        let key ← memberKey m s key
        return some (← getProperty m.call object key, object)
  | e => return (← m.link s e).map fun f => (f, .undefined)

def memberLink (m : Machine) (s : ScopeId) (object : Expr) (key : MemberKey) (isOptional : Bool) :
    Action (Option Value) := do
  match ← m.link s object with
  | none => return none
  | some object =>
    if isOptional && object.isNullish then return none
    else
      let key ← memberKey m s key
      return some (← getProperty m.call object key)

def callLink (m : Machine) (s : ScopeId) (target : Expr) (arguments : List Item)
    (isOptional : Bool) : Action (Option Value) := do
  match ← callee m s target with
  | none => return none
  | some (f, self) =>
    if isOptional && f.isNullish then return none
    else if !f.isFunction then typeError (calleeName target ++ " is not a function")
    else
      let args ← values m s arguments
      return some (← m.call f self args)

/-- One link of an optional chain; none if the chain ends here or before. -/
def chainLink (m : Machine) (s : ScopeId) : Expr → Action (Option Value)
  | .member object key isOptional => memberLink m s object key isOptional
  | .call target arguments isOptional => callLink m s target arguments isOptional
  | e => return some (← m.eval s e)

def sequence (m : Machine) (s : ScopeId) : Value → List Expr → Action Value
  | last, [] => return last
  | _, e :: rest => do sequence m s (← m.eval s e) rest

/-- A link is evaluated by the machine's own rule for links, so that a chain ends as a whole. -/
def expression (m : Machine) (s : ScopeId) (e : Expr) : Action Value := do
  match e with
  | .literal v => return literal v
  | .template texts es => return .string (← templateText m s texts es)
  | .name n => read m.call n s
  | .this => return (← heap).self s
  | .array items => newArray (← values m s items).toArray
  | .object properties => newPlain (← objectFields m s [] properties)
  | .function code => closure s code
  | .unary op e => unaryExpr m s op e
  | .binary op a b =>
    let a ← m.eval s a
    binary op a (← m.eval s b)
  | .logical op a b =>
    let a ← m.eval s a
    if stopsAt op a then return a else m.eval s b
  | .conditional t a b => if (← m.eval s t).isTruthy then m.eval s a else m.eval s b
  | .assign op target e => assignment m s op target e
  | .update increment before target => updateExpr m s increment before target
  | .delete target => deleteExpr m s target
  | .member object key isOptional =>
    return (← memberLink m s object key isOptional).getD .undefined
  | .call target arguments isOptional =>
    return (← callLink m s target arguments isOptional).getD .undefined
  | .chain inner => return (← m.link s inner).getD .undefined
  | .sequence es => sequence m s .undefined es

/-- An expression as an entry of its own. -/
def expressionEntry (m : Machine) (s : ScopeId) (e : Expr) : Action Value :=
  m.nested (expression m s e)

end Nodecraft.Sandbox.Evaluation
