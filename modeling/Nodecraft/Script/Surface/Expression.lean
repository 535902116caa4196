import Nodecraft.Script.Surface.Function

/-!
Expressions: operators by precedence, calls and members with optional links, literals and arrow
functions. Some turn out to be the left side of an assignment.
-/

set_option autoImplicit false

namespace Nodecraft.Script.Surface.Grammar

/-! ### Left sides of assignments -/

def isBracketed : Expr → Bool
  | .array _ => true
  | .object _ => true
  | _ => false

mutual

/-- How many shorthand defaults an expression turns into pattern defaults when it is assigned to;
none if it cannot be assigned to. -/
def assignable? : Expr → Option Nat
  | .name _ => some 0
  | .member _ _ _ => some 0
  | .index _ _ _ => some 0
  | .privateMember _ => some 0
  | .paren e => if isBracketed e then none else assignable? e
  | .array items => assignableItems? items
  | .object properties => assignableProperties? properties
  | .assign .plain _ _ => none
  | _ => none

/-- An assignable expression, or one with a default. -/
def assignableOrDefault? : Expr → Option Nat
  | .assign .plain _ _ => some 0
  | e => assignable? e

def assignableItems? : List Item → Option Nat
  | [] => some 0
  | [.spread e] => assignable? e
  | .value e :: rest => do return (← assignableOrDefault? e) + (← assignableItems? rest)
  | .hole :: rest => assignableItems? rest
  | .spread _ :: _ => none

def assignableProperties? : List Property → Option Nat
  | [] => some 0
  | [.spread e] => assignable? e
  | .entry _ e :: rest => do return (← assignableOrDefault? e) + (← assignableProperties? rest)
  | .cover _ _ :: rest => do return 1 + (← assignableProperties? rest)
  | .accessor :: _ => none
  | .spread _ :: _ => none

end

/-- A target without destructuring. -/
def simpleTarget? : Expr → Option Target
  | .name n => some (.name n)
  | .member e n _ => some (.member e n)
  | .index e k _ => some (.index e k)
  | .privateMember _ => some .privateMember
  | .paren e => if isBracketed e then none else simpleTarget? e
  | _ => none

def simpleTarget (e : Expr) : Rule Target :=
  match simpleTarget? e with
  | some t => pure t
  | none => fail

/-- The left side of a plain assignment or of a loop over a collection. -/
def assignmentTarget (e : Expr) : Rule Target := do
  if isBracketed e then
    match assignable? e with
    | some n =>
      modify fun s => { s with covers := s.covers - n }
      return .pattern
    | none => fail
  else simpleTarget e

/-! ### Literals -/

/-- Substitutions and texts after the first text of a template. -/
def templateRest (g : Entries) (parts : List String × List Expr) (expression : Rule Expr) :
    Rule (List String × List Expr) :=
  extend (fun (texts, values) => do
    match ← token with
    | .template (some _) true => return none
    | .template (some _) false =>
      advance
      let e ← withIn expression
      ensure (← atPunct "\x7d")
      match Lexer.template? (← get).lexeme.rest with
      | some (t, rest) =>
        become t rest
        match t with
        | .template (some text) _ => return some (texts ++ [text], values ++ [e])
        | _ => fail
      | none => fail
    | _ => fail) g.bound parts

/-- A template whose first text is the current token. -/
def template (g : Entries) (expression : Rule Expr) : Rule Expr := do
  match ← token with
  | .template (some text) _ =>
    let (texts, values) ← templateRest g ([text], []) expression
    advance
    return .template texts values
  | _ => fail

/-- A template behind a tag, in which any escape is allowed. -/
def taggedTemplate (g : Entries) (expression : Rule Expr) : Rule Unit := do
  discard <| extend (fun _ => do
    match ← token with
    | .template _ true => return none
    | .template _ false =>
      advance
      discard (withIn expression)
      ensure (← atPunct "\x7d")
      match Lexer.template? (← get).lexeme.rest with
      | some (t, rest) =>
        become t rest
        return some ()
      | none => fail
    | _ => fail) g.bound ()
  advance

def regex : Rule Expr := do
  match Lexer.afterRegex? ((← get).lexeme.start.drop 1) with
  | some rest =>
    advanceTo rest
    return .refused "regular expression literals are"
  | none => fail

def spreadOr (g : Entries) : Rule Item := do
  if ← eatPunct "..." then return .spread (← withIn g.assignment)
  return .value (← withIn g.assignment)

/-- An array literal after its bracket. -/
def arrayRest (g : Entries) : Rule Expr := do
  let items ← collect (do
    if ← atPunct "]" then return none
    if ← eatPunct "," then return some .hole
    let item ← spreadOr g
    if !(← atPunct "]") then expectPunct ","
    return some item) g.bound
  expectPunct "]"
  return .array items

/-- Whether the current word modifies the property behind it. -/
def atModifier (word : String) : Rule Bool := do
  if !(← atWord word) then return false
  match ← peek with
  | some l =>
    return startsKey l && !(word == "async" && l.newLine) ||
      (word == "async" && l.token.isPunct "*" && !l.newLine)
  | none => return false

/-- A method behind its key. -/
def method (g : Entries) (key : PropertyKey) (isAsync isGenerator : Bool) : Rule Property :=
  return .entry key (.function (← functionRest g none isAsync isGenerator))

def accessor (g : Entries) (isSetter : Bool) : Rule Property := do
  advance
  discard (propertyKey g)
  accessorRest g isSetter
  return .accessor

def property (g : Entries) : Rule Property := do
  if ← eatPunct "..." then return .spread (← withIn g.assignment)
  if ← atModifier "get" then return ← accessor g false
  if ← atModifier "set" then return ← accessor g true
  let isAsync ← atModifier "async"
  if isAsync then advance
  let isGenerator ← eatPunct "*"
  let plain := isIdentifier (← flags) (← token)
  let key ← propertyKey g
  if isAsync || isGenerator || (← atPunct "(") then return ← method g key isAsync isGenerator
  if ← eatPunct ":" then return .entry key (← withIn g.assignment)
  ensure plain
  match key with
  | .fixed name =>
    if ← eatPunct "=" then
      let fallback ← withIn g.assignment
      modify fun s => { s with covers := s.covers + 1 }
      return .cover name fallback
    return .entry key (.name name)
  | _ => fail

/-- An object literal after its brace. -/
def objectRest (g : Entries) : Rule Expr := do
  let properties ← delimited g.bound "\x7d" (property g)
  expectPunct "\x7d"
  return .object properties

/-! ### Sequences -/

/-- Expressions between commas. -/
def expression (g : Entries) : Rule Expr := do
  let first ← g.assignment
  let more ← collect (do
    if ← eatPunct "," then return some (← g.assignment)
    return none) g.bound
  if more.isEmpty then return first
  return .sequence (first :: more)

/-- An expression in parentheses after the opening one. -/
def parenRest (g : Entries) : Rule Expr := do
  let e ← withIn (expression g)
  expectPunct ")"
  return .paren e

def arguments (g : Entries) : Rule (List Item) := do
  let items ← delimited g.bound ")" (spreadOr g)
  expectPunct ")"
  return items

/-! ### Primary expressions -/

/-- What no subset of expressions has a name for. -/
def otherExpression : Expr := .refused "this expression is"

def importRest (g : Entries) : Rule Expr := do
  if ← eatPunct "." then
    match ← wordName with
    | "meta" => return otherExpression
    | "source" => expectPunct "("
    | "defer" => expectPunct "("
    | _ => fail
  else expectPunct "("
  let items ← delimited g.bound ")" (withIn g.assignment)
  expectPunct ")"
  ensure (items.length == 1 || items.length == 2)
  return .refused "dynamic imports are"

/-- An expression that starts with a word or a name. -/
def wordExpression (g : Entries) (text : String) : Rule Expr := do
  match text with
  | "this" => advance; return .this
  | "null" => advance; return .literal .null
  | "true" => advance; return .literal (.bool true)
  | "false" => advance; return .literal (.bool false)
  | "function" => advance; return .function (← functionAfterWord g false false)
  | "class" => advance; classRest g; return .refused "class expressions are"
  | "import" => advance; importRest g
  | "super" =>
    advance
    ensure ((← atPunct ".") || (← atPunct "[") || (← atPunct "("))
    return otherExpression
  | "new" => advance; g.construct
  | _ =>
    if ← atAsyncFunction then
      advance
      advance
      return .function (← functionAfterWord g true false)
    return .name (← identifier)

def primary (g : Entries) : Rule Expr := do
  match ← token with
  | .name text false => wordExpression g text
  | .name _ true => return .name (← identifier)
  | .number x => advance; return .literal (.number x)
  | .bigInt => advance; return .refused "BigInt literals are"
  | .string s => advance; return .literal (.string s)
  | .template _ _ => template g (expression g)
  | .punct p =>
    match p with
    | "(" => advance; parenRest g
    | "[" => advance; arrayRest g
    | "\x7b" => advance; objectRest g
    | "/" => regex
    | "/=" => regex
    | "@" =>
      decorators g
      expectWord "class"
      classRest g
      return .refused "class expressions are"
    | _ => fail
  | _ => fail

/-! ### Members and calls -/

/-- An operand with whether an optional link occurs in it. -/
structure Linked where
  expr : Expr
  linked : Bool

/-- A key after a point. -/
def pointKey (object : Expr) (isOptional : Bool) : Rule Expr := do
  match ← token with
  | .privateName _ => advance; return .privateMember object
  | _ => return .member object (← wordName) isOptional

def indexRest (g : Entries) (object : Expr) (isOptional : Bool) : Rule Expr := do
  let key ← withIn (expression g)
  expectPunct "]"
  return .index object key isOptional

/-- One more link that is no call: a member, or a template behind its tag. -/
def memberLink (g : Entries) (a : Linked) : Rule (Option Linked) := do
  match ← token with
  | .punct "." => advance; return some { a with expr := ← pointKey a.expr false }
  | .punct "[" => advance; return some { a with expr := ← indexRest g a.expr false }
  | .template _ _ =>
    ensure !a.linked
    taggedTemplate g (expression g)
    return some { a with expr := .refused "tagged templates are" }
  | _ => return none

/-- One more link: a member, a call, or an optional one of either. -/
def link (g : Entries) (a : Linked) : Rule (Option Linked) := do
  match ← token with
  | .punct "(" => advance; return some { a with expr := .call a.expr (← arguments g) false }
  | .punct "?." =>
    advance
    match ← token with
    | .punct "(" => advance; return some ⟨.call a.expr (← arguments g) true, true⟩
    | .punct "[" => advance; return some ⟨← indexRest g a.expr true, true⟩
    | _ => return some ⟨← pointKey a.expr true, true⟩
  | _ => memberLink g a

/-- Links of an operand; one with an optional link among them is a chain. -/
def leftHand (g : Entries) : Rule Expr := do
  let a ← extend (link g) g.bound ⟨← primary g, false⟩
  return if a.linked then .chain a.expr else a.expr

/-- What `new` builds: a member expression and perhaps arguments. -/
def construct (g : Entries) : Rule Expr := do
  if ← eatPunct "." then
    expectWord "target"
    return otherExpression
  let callee ← extend (memberLink g) g.bound ⟨← primary g, false⟩
  ensure !(← atPunct "?.")
  match callee.expr with
  | .refused "dynamic imports are" => fail
  | _ => pure ()
  if ← eatPunct "(" then discard (arguments g)
  return .refused "`new` is"

/-! ### Operators -/

def updateSign? : Token → Option Bool
  | .punct "++" => some true
  | .punct "--" => some false
  | _ => none

/-- An operand with `++` or `--` before or behind it. -/
def update (g : Entries) : Rule Expr := do
  match updateSign? (← token) with
  | some increment =>
    advance
    return .update increment true (← simpleTarget (← g.unary))
  | none =>
    let e ← leftHand g
    match updateSign? (← token) with
    | some increment =>
      if ← afterNewLine then return e
      let target ← simpleTarget e
      advance
      return .update increment false target
    | none => return e

def unaryOp? : Token → Option UnaryOp
  | .punct "-" => some .neg
  | .punct "+" => some .plus
  | .punct "!" => some .not
  | .punct "~" => some .bitNot
  | .name "typeof" false => some .typeof
  | .name "void" false => some .void
  | _ => none

/-- Whether a token on the same line shows that the word before it awaits or yields it. -/
def showsOperand : Option Lexeme → Bool
  | some l =>
    !l.newLine && match l.token with
      | .name "in" false => false
      | .name "of" false => false
      | .name "instanceof" false => false
      | .name _ _ => true
      | .string _ => true
      | .number _ => true
      | .bigInt => true
      | _ => false
  | none => false

def atAwait : Rule Bool := do
  if !(← atWord "await") then return false
  if (← flags).awaiting then return true
  return showsOperand (← peek)

def unary (g : Entries) : Rule Expr := do
  match unaryOp? (← token) with
  | some op =>
    advance
    return .unary op (← g.unary)
  | none =>
    if ← eatWord "delete" then return .delete (← g.unary)
    if ← atAwait then
      ensure (← flags).awaiting
      advance
      discard g.unary
      return .refused "async functions and generators are"
    update g

inductive Infix
  | binary (op : BinaryOp)
  | logical (op : LogicalOp)
  | instanceOf

/-- Operators between operands with their precedence. -/
def infix? : Token → Option (Nat × Infix)
  | .punct p =>
    match p with
    | "??" => some (1, .logical .coalesce)
    | "||" => some (2, .logical .or)
    | "&&" => some (3, .logical .and)
    | "|" => some (4, .binary .bitOr)
    | "^" => some (5, .binary .bitXor)
    | "&" => some (6, .binary .bitAnd)
    | "==" => some (7, .binary .eq)
    | "!=" => some (7, .binary .ne)
    | "===" => some (7, .binary .strictEq)
    | "!==" => some (7, .binary .strictNe)
    | "<" => some (8, .binary .lt)
    | ">" => some (8, .binary .gt)
    | "<=" => some (8, .binary .le)
    | ">=" => some (8, .binary .ge)
    | "<<" => some (9, .binary .shl)
    | ">>" => some (9, .binary .shr)
    | ">>>" => some (9, .binary .ushr)
    | "+" => some (10, .binary .add)
    | "-" => some (10, .binary .sub)
    | "*" => some (11, .binary .mul)
    | "/" => some (11, .binary .div)
    | "%" => some (11, .binary .rem)
    | "**" => some (12, .binary .exp)
    | _ => none
  | .name "in" false => some (8, .binary .isIn)
  | .name "instanceof" false => some (8, .instanceOf)
  | _ => none

def isOrAnd : Expr → Bool
  | .logical .or _ _ => true
  | .logical .and _ _ => true
  | _ => false

def isPrefixed : Expr → Bool
  | .unary _ _ => true
  | .delete _ => true
  | _ => false

/-- Two operands joined. A default operator does not mix with the other logical ones, and a
power's base has no operator before it. -/
def join (op : Infix) (left right : Expr) : Rule Expr := do
  match op with
  | .binary .exp =>
    ensure !(isPrefixed left)
    return .binary .exp left right
  | .binary op => return .binary op left right
  | .logical .coalesce =>
    ensure !(isOrAnd left || isOrAnd right)
    return .logical .coalesce left right
  | .logical op => return .logical op left right
  | .instanceOf => return .refused "`instanceof` is"

/-- An operator that binds tighter than `least`, with its right operand. -/
def infixLink (g : Entries) (least : Nat) (left : Expr) : Rule (Option Expr) := do
  match infix? (← token) with
  | none => return none
  | some (precedence, op) =>
    if (← atWord "in") && !(← flags).inOperator then return none
    if precedence < least || (precedence == least && precedence != 12) then return none
    advance
    return some (← join op left (← g.binary precedence))

def binary (g : Entries) (least : Nat) : Rule Expr := do
  let first ← do
    match ← token with
    | .privateName _ =>
      ensure (← flags).inOperator
      advance
      expectWord "in"
      discard (g.binary 8)
      pure otherExpression
    | _ => unary g
  extend (infixLink g least) g.bound first

/-! ### Arrow functions, conditions and assignments -/

/-- The body of an arrow function. -/
def arrowRest (g : Entries) (isAsync : Bool) (params : List Parameter) (rest : Option Pattern) :
    Rule Expr := do
  if ← atPunct "\x7b" then
    return .arrow isAsync false params rest (← functionBody g isAsync false)
  let e ← withFlags ({ · with awaiting := isAsync, yielding := false }) g.assignment
  return .arrow isAsync true params rest [.expr e]

/-- Parameters in parentheses up to an arrow, which stays. -/
def arrowHead (g : Entries) (isAsync : Bool) : Rule (List Parameter × Option Pattern) := do
  if isAsync then advance
  expectPunct "("
  let head ← withFlags (fun f => { f with inOperator := true, awaiting := f.awaiting || isAsync })
    (parameters g)
  ensure (← atPunct "=>")
  return head

/-- An arrow on the same line as what is before it. -/
def arrow : Rule Unit := do
  ensure !(← afterNewLine)
  expectPunct "=>"

def mayStartParameters (l : Lexeme) : Bool :=
  match l.token with
  | .name _ _ => true
  | .punct p => [")", "...", "[", "\x7b"].contains p
  | _ => false

/-- An arrow function with parentheses, if the text from here on has the head of one. -/
def arrowWithHead? (g : Entries) (isAsync : Bool) : Rule (Option Expr) := do
  let place := (← get).lexeme.start.length
  if (← get).notArrow.contains place then return none
  match ← attempt (arrowHead g isAsync) with
  | some (params, rest) =>
    arrow
    return some (← arrowRest g isAsync params rest)
  | none =>
    modify fun s => { s with notArrow := place :: s.notArrow }
    return none

def parenArrow? (g : Entries) : Rule (Option Expr) := do
  if !(← atPunct "(") then return none
  if (← peek).any mayStartParameters then arrowWithHead? g false else return none

/-- An arrow function behind the word `async`, if one starts here. -/
def asyncArrow? (g : Entries) : Rule (Option Expr) := do
  if !(← atWord "async") then return none
  match ← peek with
  | none => return none
  | some l =>
    if l.newLine then return none
    if l.token.isPunct "(" then return ← arrowWithHead? g true
    match ← attempt (do
        advance
        let name ← identifier
        ensure (!(← afterNewLine) && (← atPunct "=>"))
        return name) with
    | some name =>
      arrow
      return some (← arrowRest g true [.make (.name name) none] none)
    | none => return none

def assignOp? : Token → Option AssignOp
  | .punct p =>
    match p with
    | "=" => some .plain
    | "+=" => some (.binary .add)
    | "-=" => some (.binary .sub)
    | "*=" => some (.binary .mul)
    | "/=" => some (.binary .div)
    | "%=" => some (.binary .rem)
    | "**=" => some (.binary .exp)
    | "<<=" => some (.binary .shl)
    | ">>=" => some (.binary .shr)
    | ">>>=" => some (.binary .ushr)
    | "&=" => some (.binary .bitAnd)
    | "|=" => some (.binary .bitOr)
    | "^=" => some (.binary .bitXor)
    | "&&=" => some (.logical .and)
    | "||=" => some (.logical .or)
    | "??=" => some (.logical .coalesce)
    | _ => none
  | _ => none

def atYield : Rule Bool := do
  if !(← atWord "yield") then return false
  if (← flags).yielding then return true
  return showsOperand (← peek)

/-- A yield expression after its word; the operand may be left out. -/
def yieldRest (g : Entries) : Rule Expr := do
  if !(← afterNewLine) then
    if ← eatPunct "*" then discard g.assignment
    else
      let ends := [")", "]", "\x7d", ",", ";", ":"]
      let stop ← match ← token with
        | .punct p => pure (ends.contains p)
        | .endOfText => pure true
        | .name "in" false => pure true
        | .name "of" false => pure true
        | .template _ _ => pure false
        | _ => pure false
      if !stop then discard g.assignment
  return .refused "async functions and generators are"

def isNameExpr : Expr → Option String
  | .name n => some n
  | _ => none

/-- What may follow an operand: an arrow behind a name, an assignment, or a condition. -/
def assignmentRest (g : Entries) (left : Expr) : Rule Expr := do
  if ← atPunct "=>" then
    match isNameExpr left with
    | some name =>
      arrow
      arrowRest g false [.make (.name name) none] none
    | none => return left
  else match assignOp? (← token) with
    | some op =>
      let target ← if op = .plain then assignmentTarget left else simpleTarget left
      advance
      return .assign op target (← g.assignment)
    | none =>
      if ← eatPunct "?" then
        let thenValue ← withIn g.assignment
        expectPunct ":"
        return .conditional left thenValue (← g.assignment)
      return left

def assignment (g : Entries) : Rule Expr := do
  if ← atYield then
    ensure (← flags).yielding
    advance
    return ← yieldRest g
  if let some e ← parenArrow? g then return e
  if let some e ← asyncArrow? g then return e
  assignmentRest g (← g.binary 0)

end Nodecraft.Script.Surface.Grammar
