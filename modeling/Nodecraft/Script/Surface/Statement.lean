import Nodecraft.Script.Surface.Expression

/-!
Statements, declarations, and the import and export forms of modules.
-/

set_option autoImplicit false

namespace Nodecraft.Script.Surface.Grammar

/-! ### Declarations -/

def needsValue (kind : DeclKind) : Pattern → Bool
  | .name _ => kind == .constKind
  | _ => true

/-- A declared name or pattern with its value. -/
def declarator (g : Entries) : Rule Declarator := do
  let target ← g.pattern
  if ← eatPunct "=" then return .declare target (some (← g.assignment))
  return .declare target none

def declarators (g : Entries) : Rule (List Declarator) := do
  let first ← declarator g
  let more ← collect (do
    if ← eatPunct "," then return some (← declarator g)
    return none) g.bound
  return first :: more

/-- Constants and patterns need a value. -/
def hasValues (kind : DeclKind) (ds : List Declarator) : Bool :=
  ds.all fun
    | .declare target none => !(needsValue kind target)
    | .declare _ (some _) => true

/-- A declaration after its word. -/
def declarationRest (g : Entries) (kind : DeclKind) (single : Bool) : Rule Stmt := do
  ensure !(single && kind != .var)
  let ds ← withIn (declarators g)
  ensure (hasValues kind ds)
  semicolon
  return .declare kind ds

def usingDeclarations : String := "`using` declarations are"

/-- Whether the current word `using` declares what follows it. -/
def atUsing : Rule Bool := do
  if !(← atWord "using") then return false
  match ← peek with
  | some l =>
    return !l.newLine && isIdentifier (← flags) l.token &&
      !(l.token.isWord "of" || l.token.isWord "in" || l.token.isWord "instanceof")
  | none => return false

def atAwaitUsing : Rule Bool := do
  if !(← atWord "await") then return false
  match ← peek with
  | some l =>
    if !l.token.isWord "using" || l.newLine then return false
    match Lexer.next? l.rest with
    | some m => return !m.newLine && isIdentifier (← flags) m.token
    | none => return false
  | none => return false

/-- Names after `using`; no pattern is one. -/
def usingDeclarators (g : Entries) : Rule (List Declarator) := do
  let ds ← declarators g
  ensure (ds.all fun
    | .declare (.name _) _ => true
    | .declare _ _ => false)
  return ds

def usingRest (g : Entries) (single : Bool) : Rule Stmt := do
  ensure !single
  ensure (hasValues .constKind (← withIn (usingDeclarators g)))
  semicolon
  return .refused usingDeclarations

/-! ### Simple statements -/

def expressionStatement (e : Expr) : Rule Stmt := do
  semicolon
  return .expr e

/-- An expression in parentheses, as tests of statements have it. -/
def parenthesized (g : Entries) : Rule Expr := do
  expectPunct "("
  let e ← withIn (expression g)
  expectPunct ")"
  return e

def expressionOrLabel (g : Entries) : Rule Stmt := do
  let e ← withIn (expression g)
  match isNameExpr e with
  | some _ =>
    if ← eatPunct ":" then
      discard (g.statement true)
      return .refused "this statement is"
    expressionStatement e
  | none => expressionStatement e

def startsBinding (l : Lexeme) : Bool :=
  match l.token with
  | .name "in" false => false
  | .name _ _ => true
  | .punct p => ["[", "\x7b"].contains p
  | _ => false

/-- A statement that starts with the word `let`, which may also be a name. -/
def letStatement (g : Entries) (single : Bool) : Rule Stmt := do
  match ← peek with
  | none => fail
  | some l =>
    let isOperator := (assignOp? l.token).isSome || (infix? l.token).isSome
    if isOperator || l.token.isPunct "." || l.token.isPunct "(" then expressionOrLabel g
    else if (single && !l.token.isPunct "[") || l.token.isPunct ";" then
      expressionStatement (.name (← identifier))
    else
      advance
      declarationRest g .letKind single

def labelOf : Rule (Option String) := do
  if (← afterNewLine) || !(isIdentifier (← flags) (← token)) then return none
  return some (← identifier)

def returnRest (g : Entries) : Rule Stmt := do
  ensure (← flags).returning
  if (← atPunct ";") || (← atPunct "\x7d") || (← atEnd) || (← afterNewLine) then
    semicolon
    return .return none
  let e ← withIn (expression g)
  semicolon
  return .return (some e)

def throwRest (g : Entries) : Rule Stmt := do
  ensure !(← afterNewLine)
  let e ← withIn (expression g)
  semicolon
  return .throw e

/-! ### Compound statements -/

def block (g : Entries) : Rule (List Stmt) := braced (statements g)

def ifRest (g : Entries) : Rule Stmt := do
  let test ← parenthesized g
  let thenBranch ← g.statement true
  if ← eatWord "else" then return .ifElse test thenBranch (some (← g.statement true))
  return .ifElse test thenBranch none

def doRest (g : Entries) : Rule Stmt := do
  let body ← g.statement true
  expectWord "while"
  let test ← parenthesized g
  discard (eatPunct ";")
  return .doWhile body test

def switchCase (g : Entries) : Rule SwitchCase := do
  let test ← if ← eatWord "default" then pure none
    else
      expectWord "case"
      pure (some (← withIn (expression g)))
  expectPunct ":"
  let body ← collect (do
    if (← atPunct "\x7d") || (← atWord "case") || (← atWord "default") then return none
    return some (← g.statement false)) g.bound
  return .case test body

def switchRest (g : Entries) : Rule Stmt := do
  let subject ← parenthesized g
  let cases ← braced (collect (do
    if ← atPunct "\x7d" then return none
    return some (← switchCase g)) g.bound)
  return .switch subject cases

def tryRest (g : Entries) : Rule Stmt := do
  let body ← block g
  let (param, handler) ← if ← eatWord "catch" then
      let param ← if ← eatPunct "(" then
          let p ← g.pattern
          expectPunct ")"
          pure (some p)
        else pure none
      pure (param, some (← block g))
    else pure (none, none)
  let finalizer ← if ← eatWord "finally" then pure (some (← block g)) else pure none
  ensure (handler.isSome || finalizer.isSome)
  return .tryCatch body param handler finalizer

/-! ### Loops over counters and collections -/

def optionalUntil (g : Entries) (close : String) : Rule (Option Expr) := do
  if ← atPunct close then return none
  return some (← withIn (expression g))

/-- The test, update and body of a counting loop. -/
def forLoopRest (g : Entries) (init : Option Stmt) : Rule Stmt := do
  expectPunct ";"
  let test ← optionalUntil g ";"
  expectPunct ";"
  let step ← optionalUntil g ")"
  expectPunct ")"
  return .forLoop init test step (← g.statement true)

/-- The collection and body of a loop over one, if the next word is `of` or `in`. -/
def forEachRest? (g : Entries) (isAwait : Bool) (left : Rule ForLeft) : Rule (Option Stmt) := do
  if ← atWord "of" then
    let left ← left
    advance
    let items ← withIn g.assignment
    expectPunct ")"
    return some (.forOf isAwait left items (← g.statement true))
  if ← atWord "in" then
    ensure !isAwait
    let left ← left
    advance
    let object ← withIn (expression g)
    expectPunct ")"
    return some (.forIn left object (← g.statement true))
  return none

def forDeclaration (g : Entries) (isAwait : Bool) (kind : DeclKind) : Rule Stmt := do
  advance
  let ds ← withFlags ({ · with inOperator := false }) (declarators g)
  match ← forEachRest? g isAwait (return .declaration kind ds) with
  | some s => return s
  | none =>
    ensure (!isAwait && hasValues kind ds)
    forLoopRest g (some (.declare kind ds))

def forUsing (g : Entries) (isAwait : Bool) : Rule Stmt := do
  if ← eatWord "await" then pure ()
  advance
  discard (withFlags ({ · with inOperator := false }) (usingDeclarators g))
  ensure !(← atWord "in")
  match ← forEachRest? g isAwait (return .using) with
  | some s => return s
  | none =>
    ensure !isAwait
    forLoopRest g (some (.refused usingDeclarations))

def forRest (g : Entries) : Rule Stmt := do
  let isAwait ← if ← atWord "await" then
      ensure (← flags).awaiting
      advance
      pure true
    else pure false
  expectPunct "("
  if ← atPunct ";" then
    ensure !isAwait
    return ← forLoopRest g none
  if ← atWord "var" then return ← forDeclaration g isAwait .var
  if ← atWord "const" then return ← forDeclaration g isAwait .constKind
  if ← atWord "let" then
    if (← peek).any startsBinding then return ← forDeclaration g isAwait .letKind
  if (← atUsing) || (← atAwaitUsing) then return ← forUsing g isAwait
  let startsWithName := (← atWord "let") || (← atWord "async")
  let e ← withFlags ({ · with inOperator := false }) (expression g)
  match ← forEachRest? g isAwait (do
      ensure !(startsWithName && (isNameExpr e).isSome && (← atWord "of") && !isAwait)
      discard (assignmentTarget e)
      return .target) with
  | some s => return s
  | none =>
    ensure !isAwait
    forLoopRest g (some (.expr e))

/-! ### Modules -/

/-- A name of a module's binding, which may be any word or a text. -/
def moduleName : Rule (String × Bool) := do
  match ← token with
  | .string s =>
    advance
    return (s, true)
  | .name text _ =>
    advance
    return (text, Token.isReserved text)
  | _ => fail

def moduleText : Rule Unit := do
  match ← token with
  | .string _ => advance
  | _ => fail

/-- The attributes that may stand behind a module's name. -/
def importAttributes (g : Entries) : Rule Unit := do
  if (← atWord "with") || ((← atWord "assert") && !(← afterNewLine)) then
    advance
    expectPunct "\x7b"
    discard <| delimited g.bound "\x7d" (do
      discard moduleName
      expectPunct ":"
      moduleText)
    expectPunct "\x7d"

def fromModule (g : Entries) : Rule Unit := do
  expectWord "from"
  moduleText
  importAttributes g
  semicolon

def namedImports (g : Entries) : Rule Unit := do
  discard <| delimited g.bound "\x7d" (do
    let t ← token
    let plain := isIdentifier (← flags) t
    discard moduleName
    if ← eatWord "as" then discard identifier else ensure plain)
  expectPunct "\x7d"

def namespaceOrNamed (g : Entries) : Rule Unit := do
  if ← eatPunct "*" then
    expectWord "as"
    discard identifier
  else
    expectPunct "\x7b"
    namedImports g

/-- An import declaration after its word. -/
def importDeclaration (g : Entries) : Rule Stmt := do
  match ← token with
  | .string _ =>
    advance
    importAttributes g
    semicolon
  | .name _ _ =>
    discard identifier
    if ← eatPunct "," then namespaceOrNamed g
    fromModule g
  | _ =>
    namespaceOrNamed g
    fromModule g
  return .refused "module imports are"

/-- A name is exported once. -/
def exportName (name : String) : Rule Unit := do
  ensure !((← get).exported.contains name)
  modify fun s => { s with exported := name :: s.exported }

mutual

def patternNames : Pattern → List String
  | .name n => [n]
  | .object fields rest => fieldNames fields ++ optionNames rest
  | .array elements rest => elementNames elements ++ optionNames rest
  | .withDefault p _ => patternNames p

def fieldNames : List PatternField → List String
  | [] => []
  | .field _ p :: rest => patternNames p ++ fieldNames rest

def elementNames : List (Option Pattern) → List String
  | [] => []
  | none :: rest => elementNames rest
  | some p :: rest => patternNames p ++ elementNames rest

def optionNames : Option Pattern → List String
  | none => []
  | some p => patternNames p

end

def exportNames (names : List String) : Rule Unit := names.forM exportName

/-- Specifiers in braces; local names must be identifiers unless they come from a module. -/
def exportSpecifiers (g : Entries) : Rule Unit := do
  let specifiers ← delimited g.bound "\x7d" (do
    let (name, special) ← moduleName
    if ← eatWord "as" then return ((← moduleName).1, special)
    return (name, special))
  expectPunct "\x7d"
  if ← atWord "from" then fromModule g
  else
    ensure (specifiers.all fun s => !s.2)
    semicolon
  exportNames (specifiers.map Prod.fst)

def functionName : Function → Option String
  | .make name _ _ _ _ => name

def exportDefault (g : Entries) : Rule Unit := do
  exportName "default"
  if ← eatWord "function" then discard (functionAfterWord g false false)
  else if ← atAsyncFunction then
    advance
    advance
    discard (functionAfterWord g true false)
  else
    decorators g
    if ← eatWord "class" then classRest g
    else
      discard (withIn g.assignment)
      semicolon

def exportedNames : Stmt → List String
  | .declare _ ds => ds.flatMap fun | .declare p _ => patternNames p
  | .function f => (functionName f).toList
  | _ => []

/-- An export declaration after its word. -/
def exportDeclaration (g : Entries) : Rule Stmt := do
  if ← eatWord "default" then exportDefault g
  else if ← eatPunct "*" then
    if ← eatWord "as" then exportName (← moduleName).1
    fromModule g
  else if ← eatPunct "\x7b" then exportSpecifiers g
  else
    let words := ["var", "let", "const", "function", "class"]
    let declares ← match ← token with
      | .name text false => pure (words.contains text)
      | .punct "@" => pure true
      | _ => pure false
    ensure (declares || (← atAsyncFunction))
    exportNames (exportedNames (← g.statement false))
  return .refused "named exports are"

/-! ### All statements -/

def functionStatement (g : Entries) (isAsync single : Bool) : Rule Stmt := do
  let f ← functionAfterWord g isAsync true
  let .make _ special _ _ _ := f
  ensure !(single && special)
  return .function f

def classStatement (g : Entries) (single : Bool) : Rule Stmt := do
  ensure !single
  ensure !(← atPunct "\x7b")
  ensure !(← atWord "extends")
  classRest g
  return .refused "class declarations are"

/-- A statement that starts with a reserved word, if the word starts one. -/
def wordStatement (g : Entries) (single : Bool) : String → Rule Stmt
  | "if" => do advance; ifRest g
  | "do" => do advance; doRest g
  | "while" => do
    advance
    let test ← parenthesized g
    return .whileLoop test (← g.statement true)
  | "for" => do advance; forRest g
  | "continue" => do
    advance
    let label ← labelOf
    semicolon
    return .continue label
  | "break" => do
    advance
    let label ← labelOf
    semicolon
    return .break label
  | "with" => do
    advance
    discard (parenthesized g)
    discard (g.statement true)
    return .refused "this statement is"
  | "switch" => do advance; switchRest g
  | "throw" => do advance; throwRest g
  | "try" => do advance; tryRest g
  | "debugger" => do
    advance
    semicolon
    return .refused "this statement is"
  | "class" => do advance; classStatement g single
  | "return" => do advance; returnRest g
  | "var" => do advance; declarationRest g .var single
  | "const" => do advance; declarationRest g .constKind single
  | "let" => letStatement g single
  | "function" => do advance; functionStatement g false single
  | "export" => do advance; exportDeclaration g
  | "import" => do
    match ← peek with
    | some l =>
      if l.token.isPunct "." || l.token.isPunct "(" then expressionOrLabel g
      else
        advance
        importDeclaration g
    | none => fail
  | _ => do
    if ← atAsyncFunction then
      advance
      advance
      functionStatement g true single
    else if ← atUsing then
      advance
      usingRest g single
    else if ← atAwaitUsing then
      advance
      advance
      usingRest g single
    else expressionOrLabel g

def statement (g : Entries) (single : Bool) : Rule Stmt := do
  match ← token with
  | .punct "\x7b" => return .block (← block g)
  | .punct ";" =>
    advance
    return .empty
  | .punct "@" =>
    decorators g
    expectWord "class"
    classStatement g single
  | .name text false => wordStatement g single text
  | _ => expressionOrLabel g

end Nodecraft.Script.Surface.Grammar
