import Nodecraft.Sandbox.Machine

/-!
Binding the names of patterns.
-/

set_option autoImplicit false

namespace Nodecraft.Sandbox.Evaluation

open Script Sandbox.Action

/-- A key, evaluated if it is computed. -/
def propertyKey (m : Machine) (s : ScopeId) : PropertyKey → Action String
  | .fixed name => return name
  | .computed e => do
    let v ← m.eval s e
    return (← heap).key v

/-- Binds fields one after the other and gives the keys they took. -/
def bindFields (m : Machine) (kind : DeclKind) (s : ScopeId) (value : Value) :
    List PatternField → Action (List String)
  | [] => return []
  | .field key target :: rest => do
    let key ← propertyKey m s key
    m.bind kind s target (← getProperty m.call value key)
    return key :: (← bindFields m kind s value rest)

/-- The fields of a value under the given keys. -/
def readFields (m : Machine) (value : Value) : List String → Action (List (String × Value))
  | [] => return []
  | key :: rest => do
    let v ← getProperty m.call value key
    return (key, v) :: (← readFields m value rest)

def bindObject (m : Machine) (kind : DeclKind) (s : ScopeId) (fields : List PatternField)
    (rest : Option Pattern) (value : Value) : Action Unit := do
  if value.isNullish then
    let shown ← text value
    typeError ("Cannot destructure '" ++ shown ++ "' as it is " ++ shown ++ ".")
  else
    let used ← bindFields m kind s value fields
    match rest with
    | none => return
    | some target =>
      let keys := ((← heap).enumerableKeys value).filter fun key => !used.contains key
      m.bind kind s target (← newPlain (Fields.ofList (← readFields m value keys)))

def bindElements (m : Machine) (kind : DeclKind) (s : ScopeId) :
    List (Option Pattern) → List Value → Action Unit
  | [], _ => return
  | element :: rest, values => do
    match element with
    | some target => m.bind kind s target (values.headD .undefined)
    | none => pure ()
    bindElements m kind s rest values.tail

def bindArray (m : Machine) (kind : DeclKind) (s : ScopeId) (elements : List (Option Pattern))
    (rest : Option Pattern) (value : Value) : Action Unit := do
  let values ← iterate value
  bindElements m kind s elements values
  match rest with
  | none => return
  | some target => m.bind kind s target (← newArray (values.drop elements.length).toArray)

def bindPattern (m : Machine) (kind : DeclKind) (s : ScopeId) (value : Value) :
    Pattern → Action Unit
  | .name name => declareAs kind s name value
  | .withDefault target fallback => do
    match value with
    | .undefined => m.bind kind s target (← m.eval s fallback)
    | value => m.bind kind s target value
  | .object fields rest => bindObject m kind s fields rest value
  | .array elements rest => bindArray m kind s elements rest value

end Nodecraft.Sandbox.Evaluation
