import Nodecraft.Script.Surface

/-!
The check that a script stays within the subset. It refuses the first construct the subset leaves
out, in the order in which the parts are visited, and anything nested deeper than `maxNesting`
statements, expressions and patterns; what it accepts it hands on without parentheses.
-/

set_option autoImplicit false

namespace Nodecraft.Script.Subset

abbrev Result (α : Type) := Except Refusal α

def refuse {α : Type} (what : String) : Result α := .error (.unsupported what)

/-- One level of nesting more. -/
def enter {α : Type} (depth : Nat) (rest : Result α) : Result α :=
  if maxNesting ≤ depth then .error .tooDeep else rest

/-- The body of an arrow function; one that is a mere expression returns it. -/
def arrowBody (isExpression : Bool) : Block → Block
  | [.expr e] => if isExpression then [.return (some e)] else [.expr e]
  | body => body

def keyName : PropertyKey → Option String
  | .fixed name => some name
  | .computed _ => none

mutual

def expr (depth : Nat) : Surface.Expr → Result Expr
  | .literal v => enter depth (.ok (.literal v))
  | .template texts values =>
    enter depth do return .template texts (← exprs (depth + 1) values)
  | .name n =>
    enter depth (.ok (if n = "undefined" then .literal .undefined else .name n))
  | .this => enter depth (.ok .this)
  | .array items => enter depth do return .array (← items_ (depth + 1) items)
  | .object ps => enter depth do return .object (← properties (depth + 1) ps)
  | .function f => enter depth do return .function (← function (depth + 1) none f)
  | .arrow isAsync isExpression params rest body =>
    enter depth do
      if isAsync then refuse "async functions are"
      let params ← parameters (depth + 1) params
      let rest ← optionPattern (depth + 1) rest
      let body ← block (depth + 1) body
      return .function (.make none params rest (arrowBody isExpression body) true)
  | .unary op e => enter depth do return .unary op (← expr (depth + 1) e)
  | .delete (.member e n _) =>
    enter depth do return .delete (.member (← expr (depth + 1) e) (.fixed n))
  | .delete (.index e k _) =>
    enter depth do
      let e ← expr (depth + 1) e
      return .delete (.member e (.computed (← expr (depth + 1) k)))
  | .delete _ => enter depth (refuse "`delete` of a non-member is")
  | .binary op a b =>
    enter depth do
      let a ← expr (depth + 1) a
      return .binary op a (← expr (depth + 1) b)
  | .logical op a b =>
    enter depth do
      let a ← expr (depth + 1) a
      return .logical op a (← expr (depth + 1) b)
  | .conditional t a b =>
    enter depth do
      let t ← expr (depth + 1) t
      let a ← expr (depth + 1) a
      return .conditional t a (← expr (depth + 1) b)
  | .assign op t e =>
    enter depth do
      let t ← target "destructuring assignment is" (depth + 1) t
      return .assign op t (← expr (depth + 1) e)
  | .update increment before t =>
    enter depth do
      return .update increment before (← target "this update target is" (depth + 1) t)
  | .member e n isOptional =>
    enter depth do return .member (← expr (depth + 1) e) (.fixed n) isOptional
  | .index e k isOptional =>
    enter depth do
      let e ← expr (depth + 1) e
      return .member e (.computed (← expr (depth + 1) k)) isOptional
  | .privateMember _ => enter depth (refuse "this expression is")
  | .call callee arguments isOptional =>
    enter depth do
      let arguments ← items_ (depth + 1) arguments
      return .call (← expr (depth + 1) callee) arguments isOptional
  | .chain inner => enter depth do return .chain (← chained (depth + 1) inner)
  | .paren e => enter depth (expr (depth + 1) e)
  | .sequence es => enter depth do return .sequence (← exprs (depth + 1) es)
  | .refused what => enter depth (refuse what)

/-- The outermost link of an optional chain, which is no level of its own. -/
def chained (depth : Nat) : Surface.Expr → Result Expr
  | .member e n isOptional => do return .member (← expr depth e) (.fixed n) isOptional
  | .index e k isOptional => do
    let e ← expr depth e
    return .member e (.computed (← expr depth k)) isOptional
  | .call callee arguments isOptional => do
    let arguments ← items_ depth arguments
    return .call (← expr depth callee) arguments isOptional
  | _ => refuse "this optional chain is"

def exprs (depth : Nat) : List Surface.Expr → Result (List Expr)
  | [] => .ok []
  | e :: rest => do
    let e ← expr depth e
    return e :: (← exprs depth rest)

def optionExpr (depth : Nat) : Option Surface.Expr → Result (Option Expr)
  | none => .ok none
  | some e => do return some (← expr depth e)

def item (depth : Nat) : Surface.Item → Result Item
  | .value e => do return .value (← expr depth e)
  | .spread e => do return .spread (← expr depth e)
  | .hole => .ok .hole

def items_ (depth : Nat) : List Surface.Item → Result (List Item)
  | [] => .ok []
  | i :: rest => do
    let i ← item depth i
    return i :: (← items_ depth rest)

/-- Methods take their name from their key, and are no level of their own. -/
def property (depth : Nat) : Surface.Property → Result Property
  | .entry k (.function f) => do
    let k ← key depth k
    return .entry k (.function (← function depth (keyName k) f))
  | .entry k e => do
    let k ← key depth k
    return .entry k (← expr depth e)
  | .accessor => refuse "getters and setters are"
  | .spread e => do return .spread (← expr depth e)
  | .cover _ _ => refuse "this expression is"

def properties (depth : Nat) : List Surface.Property → Result (List Property)
  | [] => .ok []
  | p :: rest => do
    let p ← property depth p
    return p :: (← properties depth rest)

def key (depth : Nat) : Surface.PropertyKey → Result PropertyKey
  | .fixed n => .ok (.fixed n)
  | .computed e => do return .computed (← expr depth e)
  | .refused what => refuse what

def target (otherwise : String) (depth : Nat) : Surface.Target → Result Target
  | .name n => .ok (.name n)
  | .member e n => do return .member (← expr depth e) (.fixed n)
  | .index e k => do
    let e ← expr depth e
    return .member e (.computed (← expr depth k))
  | .privateMember => refuse otherwise
  | .pattern => refuse otherwise

def pattern (depth : Nat) : Surface.Pattern → Result Pattern
  | .name n => enter depth (.ok (.name n))
  | .object fs rest =>
    enter depth do
      let fs ← fields (depth + 1) fs
      return .object fs (← optionPattern (depth + 1) rest)
  | .array es rest =>
    enter depth do
      let es ← elements (depth + 1) es
      return .array es (← optionPattern (depth + 1) rest)
  | .withDefault p e =>
    enter depth do
      let p ← pattern (depth + 1) p
      return .withDefault p (← expr (depth + 1) e)

def optionPattern (depth : Nat) : Option Surface.Pattern → Result (Option Pattern)
  | none => .ok none
  | some p => do return some (← pattern depth p)

/-- Parameters without their defaults: a missing argument is always undefined. -/
def parameters (depth : Nat) : List Surface.Parameter → Result (List Pattern)
  | [] => .ok []
  | .make p _ :: rest => do
    let p ← pattern depth p
    return p :: (← parameters depth rest)

def elements (depth : Nat) : List (Option Surface.Pattern) → Result (List (Option Pattern))
  | [] => .ok []
  | p :: rest => do
    let p ← optionPattern depth p
    return p :: (← elements depth rest)

def field (depth : Nat) : Surface.PatternField → Result PatternField
  | .field k p => do
    let k ← key depth k
    return .field k (← pattern depth p)

def fields (depth : Nat) : List Surface.PatternField → Result (List PatternField)
  | [] => .ok []
  | f :: rest => do
    let f ← field depth f
    return f :: (← fields depth rest)

/-- A function that is no arrow; an unnamed one takes the inferred name. -/
def function (depth : Nat) (inferred : Option String) : Surface.Function → Result FunctionDef
  | .make name special params rest body => do
    if special then refuse "async and generator functions are"
    let params ← parameters depth params
    let rest ← optionPattern depth rest
    let body ← block depth body
    return .make (name <|> inferred) params rest body false

def stmt (depth : Nat) : Surface.Stmt → Result Stmt
  | .expr e => enter depth do return .expr (← expr (depth + 1) e)
  | .declare kind ds => enter depth do return .declare kind (← declarators (depth + 1) ds)
  | .function f => enter depth do return .function (← function (depth + 1) none f)
  | .return e => enter depth do return .return (← optionExpr (depth + 1) e)
  | .ifElse t a b =>
    enter depth do
      let t ← expr (depth + 1) t
      let a ← stmt (depth + 1) a
      return .ifElse t a (← optionStmt (depth + 1) b)
  | .block body => enter depth do return .block (← block (depth + 1) body)
  | .forLoop init test step body =>
    enter depth do
      let init ← forInit (depth + 1) init
      let test ← optionExpr (depth + 1) test
      let step ← optionExpr (depth + 1) step
      return .forLoop init test step (← stmt (depth + 1) body)
  | .forOf isAwait left e body =>
    enter depth do
      if isAwait then refuse "`for await` is"
      let (kind, binding) ← forLeft (depth + 1) left
      let e ← expr (depth + 1) e
      return .forOf kind binding e (← stmt (depth + 1) body)
  | .forIn left e body =>
    enter depth do
      let (kind, binding) ← forLeft (depth + 1) left
      let e ← expr (depth + 1) e
      return .forIn kind binding e (← stmt (depth + 1) body)
  | .whileLoop t body =>
    enter depth do
      let t ← expr (depth + 1) t
      return .whileLoop t (← stmt (depth + 1) body)
  | .doWhile body t =>
    enter depth do
      let body ← stmt (depth + 1) body
      return .doWhile body (← expr (depth + 1) t)
  | .switch e cs =>
    enter depth do
      let e ← expr (depth + 1) e
      return .switch e (← cases (depth + 1) cs)
  | .break (some _) => enter depth (refuse "labelled `break` is")
  | .break none => enter depth (.ok .break)
  | .continue (some _) => enter depth (refuse "labelled `continue` is")
  | .continue none => enter depth (.ok .continue)
  | .throw e => enter depth do return .throw (← expr (depth + 1) e)
  | .tryCatch body param handler finalizer =>
    enter depth do
      let param ← optionPattern (depth + 1) param
      let handler ← optionBlock (depth + 1) handler
      let body ← block (depth + 1) body
      return .tryCatch body param handler (← optionBlock (depth + 1) finalizer)
  | .empty => enter depth (.ok .empty)
  | .refused what => enter depth (refuse what)

def optionStmt (depth : Nat) : Option Surface.Stmt → Result (Option Stmt)
  | none => .ok none
  | some s => do return some (← stmt depth s)

/-- The head of a counting loop, which is no level of its own. -/
def forInit (depth : Nat) : Option Surface.Stmt → Result (Option Stmt)
  | none => .ok none
  | some (.expr e) => do return some (.expr (← expr depth e))
  | some (.declare kind ds) => do return some (.declare kind (← declarators depth ds))
  | some (.refused what) => refuse what
  | some _ => refuse "this for-loop initializer is"

/-- The first binding of a loop over a collection, without a value. -/
def forLeft (depth : Nat) : Surface.ForLeft → Result (DeclKind × Pattern)
  | .declaration kind (.declare p _ :: _) => do return (kind, ← pattern depth p)
  | .declaration _ [] => refuse "an empty loop binding is"
  | .using => refuse "`using` declarations are"
  | .target => refuse "loop targets other than `const`/`let` declarations are"

def block (depth : Nat) : List Surface.Stmt → Result Block
  | [] => .ok []
  | s :: rest => do
    let s ← stmt depth s
    return s :: (← block depth rest)

def optionBlock (depth : Nat) : Option (List Surface.Stmt) → Result (Option Block)
  | none => .ok none
  | some b => do return some (← block depth b)

def declarator (depth : Nat) : Surface.Declarator → Result Declarator
  | .declare p e => do
    let p ← pattern depth p
    return .declare p (← optionExpr depth e)

def declarators (depth : Nat) : List Surface.Declarator → Result (List Declarator)
  | [] => .ok []
  | d :: rest => do
    let d ← declarator depth d
    return d :: (← declarators depth rest)

def case_ (depth : Nat) : Surface.SwitchCase → Result SwitchCase
  | .case t body => do
    let t ← optionExpr depth t
    return .case t (← block depth body)

def cases (depth : Nat) : List Surface.SwitchCase → Result (List SwitchCase)
  | [] => .ok []
  | c :: rest => do
    let c ← case_ depth c
    return c :: (← cases depth rest)

end

end Nodecraft.Script.Subset
