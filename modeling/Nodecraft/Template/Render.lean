import Nodecraft.Sandbox.Evaluation.Call
import Nodecraft.Template.Directive
import Nodecraft.Template.Style

/-!
Rendering templates: views of a component's state, with the handlers that their events go to. What
rendering evaluates and calls, it does on a machine.
-/

set_option autoImplicit false

namespace Nodecraft.Template

open Script Sandbox Sandbox.Action

/-- A handler with the scope of the element that it was rendered for. -/
structure BoundHandler where
  handler : Nat
  scope : ScopeId
  deriving Inhabited

structure Output where
  nodes : List View.Node
  /-- By the ids that stand in the nodes. -/
  handlers : Array BoundHandler
  deriving Inhabited

abbrev Rendering (α : Type) := StateT (Array BoundHandler) Action α

/-- Greatest number that a loop counts to. -/
def maxLoopCount : Nat := 100000

/-- The components that views may contain. -/
abbrev Registered := List String

/-- An expression's value. Names that the state lacks are undefined. -/
def valueOf (m : Machine) (s : ScopeId) (e : Expr) : Action Value := do
  match ← outcome (m.eval s e) with
  | .ok v => return v
  | .error (.raised (.unbound _)) => return .undefined
  | .error failure => throw failure

def interpolate (m : Machine) (s : ScopeId) : List TextPart → Action String
  | [] => return ""
  | .fixed text :: rest => return text ++ (← interpolate m s rest)
  | .shown e :: rest => do
    let v ← valueOf m s e
    let shown := (← heap).display v
    return shown ++ (← interpolate m s rest)

/-! ### Loops -/

def indexValue (i : Nat) : Value := .number (Float.ofNat i)

def withIndices (values : List Value) : List (List Value) :=
  values.zipIdx.map fun (v, i) => [v, indexValue i]

def objectRows (m : Machine) (source : Value) : Nat → List String → Action (List (List Value))
  | _, [] => return []
  | i, key :: rest => do
    let v ← getProperty m.call source key
    return [v, .string key, indexValue i] :: (← objectRows m source (i + 1) rest)

/-- What a loop's names stand for, round by round. -/
def loopRows (m : Machine) (source : Value) : Action (List (List Value)) := do
  match source with
  | .array a => return withIndices ((← heap).array a).toList
  | .string s => return withIndices (s.toList.map fun c => .string c.toString)
  | .number x =>
    if x < 0.0 || !Number.isIntegral x || maxLoopCount < Number.truncate x then
      typeError ("v-for range must be an integer between 0 and " ++ toString maxLoopCount)
    else
      return (List.range (Number.truncate x).toNat).map fun i => [indexValue (i + 1), indexValue i]
  | .object o => objectRows m source 0 ((← heap).enumerableKeys (.object o))
  | _ => return []

def bindAliases (m : Machine) (s : ScopeId) : List Pattern → List Value → Action Unit
  | p :: aliases, v :: values => do
    m.bind .constKind s p v
    bindAliases m s aliases values
  | _, _ => return

/-! ### Attributes -/

/-- An element's attributes, as far as they have been evaluated. -/
structure Evaluated where
  classes : List String
  styles : List String
  values : List (String × Value)

def addValue (acc : Evaluated) (name : String) (v : Value) : Action Evaluated := do
  let h ← heap
  if name == "class" then
    match classText? h v with
    | some text => return { acc with classes := acc.classes ++ [text] }
    | none => throw .unfinished
  else if name == "style" then
    match styleText? h v with
    | some text => return { acc with styles := acc.styles ++ [text] }
    | none => throw .unfinished
  else return { acc with values := acc.values ++ [(name, v)] }

def addEntries (m : Machine) (source : Value) : Evaluated → List String → Action Evaluated
  | acc, [] => return acc
  | acc, key :: rest => do
    let v ← getProperty m.call source key
    addEntries m source (← addValue acc key v) rest

def addAttribute (m : Machine) (s : ScopeId) (acc : Evaluated) : Attribute → Action Evaluated
  | .fixed name value => addValue acc name (.string value)
  | .bound name e => do
    let v ← valueOf m s e
    addValue acc name v
  | .spread e => do
    let source ← valueOf m s e
    addEntries m source acc ((← heap).enumerableKeys source)

def evaluateAttributes (m : Machine) (s : ScopeId) : Evaluated → List Attribute → Action Evaluated
  | acc, [] => return acc
  | acc, a :: rest => do evaluateAttributes m s (← addAttribute m s acc a) rest

/-- An element that is not to be seen has a style that says so. -/
def addVisibility (m : Machine) (s : ScopeId) (acc : Evaluated) : Option Expr → Action Evaluated
  | none => return acc
  | some e => do
    if (← valueOf m s e).isTruthy then return acc
    else return { acc with styles := acc.styles ++ ["display: none"] }

/-- Sets an entry; entries are ordered by name. -/
def setSorted {α : Type} (entries : List (String × α)) (name : String) (a : α) :
    List (String × α) :=
  Json.sortFields (entries ++ [(name, a)])

def setUnlessEmpty {α : Type} (wrap : String → α) (name text : String)
    (entries : List (String × α)) : List (String × α) :=
  if text.isEmpty then entries else setSorted entries name (wrap text)

/-- Attributes that do not hold are left out, and those that merely hold have no value. -/
def setAttribute (h : Heap) (entries : List (String × String)) (name : String) (v : Value) :
    List (String × String) :=
  match v with
  | .undefined => entries.filter fun e => e.1 != name
  | .null => entries.filter fun e => e.1 != name
  | .bool false => entries.filter fun e => e.1 != name
  | .bool true => setSorted entries name ""
  | v => setSorted entries name (h.text v)

def Evaluated.attributes (acc : Evaluated) (h : Heap) : List (String × String) :=
  acc.values.foldl (fun entries (name, v) => setAttribute h entries name v)
    (setUnlessEmpty id "style" (joined "; " acc.styles)
      (setUnlessEmpty id "class" (joined " " acc.classes) []))

/-- A name with capitals in the place of dashes. -/
def camelCase (name : String) : String := String.ofList (from_ false name.toList)
where
  from_ : Bool → List Char → List Char
    | _, [] => []
    | raised, c :: cs =>
      if c == '-' then from_ true cs
      else (if raised then c.toUpper else c) :: from_ false cs

def pascalCase (name : String) : String :=
  match (camelCase name).toList with
  | [] => ""
  | c :: cs => String.ofList (Text.upperLetter c ++ cs)

def Evaluated.props (acc : Evaluated) (h : Heap) : List (String × Json) :=
  acc.values.foldl (fun entries (name, v) => setSorted entries (camelCase name) (h.document v))
    (setUnlessEmpty Json.string "style" (joined "; " acc.styles)
      (setUnlessEmpty Json.string "class" (joined " " acc.classes) []))

/-- The component a tag stands for; one that is not registered goes by its tag. -/
def componentOf? (registered : Registered) (tag : String) : Option String :=
  let pascal := pascalCase tag
  match registered.find? fun name => name == tag || name == pascal with
  | some name => some name
  | none => if isComponentTag tag then some tag else none

/-- Binds the handlers of an element's events. Of events of one name the last one counts. -/
def bindEvents (s : ScopeId) : List (String × Nat) → List (String × Nat) →
    Rendering (List (String × Nat))
  | acc, [] => return acc
  | acc, (name, handler) :: rest => do
    let id ← modifyGet fun hs => (hs.size, hs.push ⟨handler, s⟩)
    bindEvents s (setSorted acc name id) rest

/-! ### Trees -/

/-- Renders each row of a loop with its names bound in a scope of its own. -/
def renderRows (m : Machine) (aliases : List Pattern)
    (body : ScopeId → Rendering (List View.Node)) (s : ScopeId) :
    List (List Value) → Rendering (List View.Node)
  | [] => return []
  | values :: rest => do
    let inner ← childScope s
    bindAliases m inner aliases values
    let nodes ← body inner
    return nodes ++ (← renderRows m aliases body s rest)

mutual

def render (m : Machine) (registered : Registered) (s : ScopeId) :
    Tree → Rendering (List View.Node)
  | .text text => return [.text text]
  | .interpolated parts => return [.text (← interpolate m s parts)]
  | .fragment children => renderAll m registered s children
  | .conditional branches => renderBranches m registered s branches
  | .loop aliases source body => do
    let rows ← loopRows m (← valueOf m s source)
    renderRows m aliases (fun inner => render m registered inner body) s rows
  | .element tag attributes events visible children => do
    let acc ← evaluateAttributes m s ⟨[], [], []⟩ attributes
    let acc ← addVisibility m s acc visible
    let events ← bindEvents s [] events
    let children ← renderAll m registered s children
    let h ← heap
    match componentOf? registered tag with
    | some name => return [.component name (acc.props h) events children]
    | none => return [.element tag (acc.attributes h) events children]

def renderAll (m : Machine) (registered : Registered) (s : ScopeId) :
    List Tree → Rendering (List View.Node)
  | [] => return []
  | t :: rest => do
    let nodes ← render m registered s t
    return nodes ++ (← renderAll m registered s rest)

/-- The first branch whose test holds. -/
def renderBranches (m : Machine) (registered : Registered) (s : ScopeId) :
    List Branch → Rendering (List View.Node)
  | [] => return []
  | .branch none t :: _ => render m registered s t
  | .branch (some test) t :: rest => do
    if (← valueOf m s test).isTruthy then render m registered s t
    else renderBranches m registered s rest

end

/-- A scope in which names stand for the keys of a state. -/
def stateScope (state : Value) : Action ScopeId := do
  let outer ← newScope ⟨[], none, none, none, true⟩
  newScope ⟨[], some outer, some state, some state, false⟩

end Template

open Sandbox Sandbox.Action Template

namespace Template

/-- Renders a template against a component's state. -/
def runOn (m : Machine) (t : Template) (registered : Registered) (state : Value) :
    Action Output := do
  let s ← stateScope state
  let (nodes, handlers) ← (renderAll m registered s t.roots).run #[]
  return ⟨nodes, handlers⟩

def run (t : Template) (registered : Registered) (state : Value) : Action Output :=
  runOn machine t registered state

/-- Runs a handler that was bound at rendering. A handler that is a member of an object is called
on the object. -/
def invokeOn (m : Machine) (t : Template) (bound : BoundHandler) (event : Value) :
    Action Unit := do
  let some handler := t.handlers[bound.handler]? | typeError "unknown event handler"
  let s ← childScope bound.scope
  declare s "$event" event false
  match handler with
  | .callable (.member object key _) =>
    let target ← m.eval s object
    let key ← Evaluation.memberKey m s key
    discard (m.call (← getProperty m.call target key) target [event])
  | .callable e => discard (m.call (← m.eval s e) .undefined [event])
  | .inline body => discard (Evaluation.program m s body)

def invoke (t : Template) (bound : BoundHandler) (event : Value) : Action Unit :=
  invokeOn machine t bound event

end Nodecraft.Template
