import Nodecraft.Script.Surface.State

/-!
Binding patterns, parameters, functions and classes.
-/

set_option autoImplicit false

namespace Nodecraft.Script.Surface.Grammar


/-- Whether a token can start the key of a property. -/
def startsKey (l : Lexeme) : Bool :=
  match l.token with
  | .name _ _ => true
  | .string _ => true
  | .number _ => true
  | .bigInt => true
  | .privateName _ => true
  | .punct "[" => true
  | _ => false

/-- The key of a property, and whether it is a plain name that may stand alone. -/
def propertyKey (g : Entries) : Rule PropertyKey := do
  match ← token with
  | .name text _ =>
    advance
    return .fixed text
  | .string s =>
    advance
    return .fixed s
  | .number x =>
    advance
    return .fixed (Number.scriptText x)
  | .bigInt =>
    advance
    return .refused "this property key is"
  | .punct "[" =>
    advance
    let e ← withIn g.assignment
    expectPunct "]"
    return .computed e
  | _ => fail

/-! ### Patterns -/

/-- A pattern with an optional default. -/
def patternElement (g : Entries) : Rule Pattern := do
  let target ← g.pattern
  if ← eatPunct "=" then return .withDefault target (← withIn g.assignment)
  return target

def objectPatternField (g : Entries) : Rule PatternField := do
  let t ← token
  let plain := isIdentifier (← flags) t
  let key ← propertyKey g
  if ← eatPunct ":" then return .field key (← patternElement g)
  ensure plain
  match key with
  | .fixed name =>
    if ← eatPunct "=" then return .field key (.withDefault (.name name) (← withIn g.assignment))
    return .field key (.name name)
  | _ => fail

/-- The rest element of a pattern, after its dots, with the closing bracket. -/
def patternRest (close : String) (target : Rule Pattern) : Rule Pattern := do
  let rest ← target
  expectPunct close
  return rest

def objectPattern (g : Entries) : Rule Pattern := do
  let fields ← collect (do
    if (← atPunct "\x7d") || (← atPunct "...") then return none
    let f ← objectPatternField g
    if !(← atPunct "\x7d") then expectPunct ","
    return some f) g.bound
  if ← eatPunct "..." then
    return .object fields (some (← patternRest "\x7d" (return .name (← identifier))))
  expectPunct "\x7d"
  return .object fields none

def arrayPattern (g : Entries) : Rule Pattern := do
  let elements ← collect (do
    if (← atPunct "]") || (← atPunct "...") then return none
    if ← eatPunct "," then return some none
    let p ← patternElement g
    if !(← atPunct "]") then expectPunct ","
    return some (some p)) g.bound
  if ← eatPunct "..." then return .array elements (some (← patternRest "]" g.pattern))
  expectPunct "]"
  return .array elements none

/-- A name or a destructuring pattern. -/
def pattern (g : Entries) : Rule Pattern := do
  if ← eatPunct "\x7b" then objectPattern g
  else if ← eatPunct "[" then arrayPattern g
  else return .name (← identifier)

/-! ### Parameters and bodies -/

def parameter (g : Entries) : Rule Parameter := do
  let target ← g.pattern
  if ← eatPunct "=" then return .make target (some (← withIn g.assignment))
  return .make target none

/-- Parameters up to and including the closing parenthesis. -/
def parameters (g : Entries) : Rule (List Parameter × Option Pattern) := do
  let params ← collect (do
    if (← atPunct ")") || (← atPunct "...") then return none
    let p ← parameter g
    if !(← atPunct ")") then expectPunct ","
    return some p) g.bound
  if ← eatPunct "..." then return (params, some (← patternRest ")" g.pattern))
  expectPunct ")"
  return (params, none)

def isDirective : Stmt → Bool
  | .expr (.literal (.string _)) => true
  | _ => false

/-- Statements up to a closing brace or the end of the text, which stays. -/
def statements (g : Entries) : Rule (List Stmt) :=
  collect (do
    if (← atPunct "\x7d") || (← atEnd) then return none
    return some (← g.statement false)) g.bound

/-- Statements behind leading strings, which are directives and no statements. -/
def bodyStatements (g : Entries) : Rule (List Stmt) :=
  return (← statements g).dropWhile isDirective

def braced {α : Type} (rule : Rule α) : Rule α := do
  expectPunct "\x7b"
  let a ← rule
  expectPunct "\x7d"
  return a

def insideFunction (isAsync isGenerator : Bool) (_ : Flags) : Flags :=
  ⟨true, isAsync, isGenerator, true⟩

def functionBody (g : Entries) (isAsync isGenerator : Bool) : Rule (List Stmt) :=
  withFlags (insideFunction isAsync isGenerator) (braced (bodyStatements g))

/-- Parameters and body of a function that is not an arrow. -/
def functionRest (g : Entries) (name : Option String) (isAsync isGenerator : Bool) :
    Rule Function := do
  expectPunct "("
  let (params, rest) ← withFlags (fun f => { insideFunction isAsync isGenerator f with
    returning := f.returning }) (parameters g)
  let body ← functionBody g isAsync isGenerator
  return .make name (isAsync || isGenerator) params rest body

/-- A function after the word `function`; a declaration needs a name. -/
def functionAfterWord (g : Entries) (isAsync needsName : Bool) : Rule Function := do
  let isGenerator ← eatPunct "*"
  if (← atPunct "(") && !needsName then functionRest g none isAsync isGenerator
  else
    let name ← if needsName then identifier
      else withFlags (insideFunction isAsync isGenerator) identifier
    functionRest g (some name) isAsync isGenerator

/-- Whether the next token starts a function after the word `async`. -/
def atAsyncFunction : Rule Bool := do
  if !(← atWord "async") then return false
  match ← peek with
  | some l => return l.token.isWord "function" && !l.newLine
  | none => return false

/-- A getter or setter behind its key. A getter has no parameter and a setter exactly one. -/
def accessorRest (g : Entries) (isSetter : Bool) : Rule Unit := do
  let .make _ _ params rest _ ← functionRest g none false false
  ensure (rest.isNone && params.length == if isSetter then 1 else 0)

/-! ### Classes -/

/-- The word that says what kind of member follows. -/
inductive MemberKind
  | plain
  | asynchronous
  | getter
  | setter
  /-- A field that is read and written through a getter and setter. -/
  | cell
  deriving DecidableEq

/-- Takes a word before a member's key. Before anything else the word is the key itself. -/
def eatModifier (word : String) (sameLine : Bool) : Rule Bool := do
  if !(← atWord word) then return false
  if (← peek).any fun l => (startsKey l || l.token.isPunct "*") && !(sameLine && l.newLine) then
    advance
    return true
  return false

def memberKind : Rule MemberKind := do
  if ← eatModifier "async" true then return .asynchronous
  if ← eatModifier "get" false then return .getter
  if ← eatModifier "set" false then return .setter
  if ← eatModifier "accessor" true then return .cell
  return .plain

/-- The key of a class member: its name, unless it is computed or private. -/
def memberKey (g : Entries) : Rule (Option String) := do
  match ← token with
  | .privateName text =>
    ensure (text != "constructor")
    advance
    return none
  | _ =>
    match ← propertyKey g with
    | .fixed name => return some name
    | _ => return none

/-- The value and end of a field. -/
def fieldRest (g : Entries) : Rule Unit := do
  if ← eatPunct "=" then
    discard (withFlags (fun _ => ⟨true, false, false, false⟩) g.assignment)
  semicolon

/-- A member after `static`, if it has that word. The constructor is an ordinary method, no field
takes its name, and nothing static is called `prototype`. -/
def memberRest (g : Entries) (isStatic : Bool) : Rule Unit := do
  let kind ← memberKind
  let isGenerator ← eatPunct "*"
  let name ← memberKey g
  ensure !(isStatic && name == some "prototype")
  let isConstructor := !isStatic && name == some "constructor"
  match kind with
  | .getter =>
    ensure (!isGenerator && !isConstructor)
    accessorRest g false
  | .setter =>
    ensure (!isGenerator && !isConstructor)
    accessorRest g true
  | .asynchronous =>
    ensure !isConstructor
    discard (functionRest g none true isGenerator)
  | .plain =>
    if isGenerator || (← atPunct "(") then
      ensure !(isGenerator && isConstructor)
      discard (functionRest g none false isGenerator)
    else
      ensure (name != some "constructor")
      fieldRest g
  | .cell =>
    ensure (!isGenerator && name != some "constructor")
    fieldRest g

def decorators (g : Entries) : Rule Unit :=
  discard <| collect (do
    if ← eatPunct "@" then
      discard g.unary
      return some ()
    return none) g.bound

/-- Whether a block that runs with the class starts here. -/
def atStaticBlock : Rule Bool := do
  return (← atWord "static") && (← peek).any fun l => l.token.isPunct "\x7b"

def classMember (g : Entries) : Rule Unit := do
  if ← eatPunct ";" then return
  decorators g
  if ← atStaticBlock then
    advance
    withFlags (fun _ => ⟨true, false, false, false⟩) (discard (braced (statements g)))
  else
    memberRest g (← eatModifier "static" false)

/-- A class after the word `class`. -/
def classRest (g : Entries) : Rule Unit := do
  if !(← atPunct "\x7b") && !(← atWord "extends") then discard identifier
  if ← eatWord "extends" then discard g.unary
  expectPunct "\x7b"
  discard <| collect (do
    if ← atPunct "\x7d" then return none
    classMember g
    return some ()) g.bound
  expectPunct "\x7d"

end Nodecraft.Script.Surface.Grammar
