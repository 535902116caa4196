import Nodecraft.Script.Syntax

/-!
Scripts as they are written, before the check that they stay within the subset. A construct that
the subset refuses is kept only as the reason for which it will be refused.
-/

set_option autoImplicit false

namespace Nodecraft.Script

/-- Why a well-formed script is refused. -/
inductive Refusal
  | tooDeep
  | unsupported (what : String)
  deriving DecidableEq, Repr, Inhabited

/-- Deepest nesting of brackets, statements, expressions and patterns. -/
def maxNesting : Nat := 64

def Refusal.message : Refusal → String
  | .tooDeep => "nesting deeper than 64 levels is not supported in node logic"
  | .unsupported what => what ++ " not supported in node logic"

namespace Surface

mutual

inductive Expr
  | literal (value : Literal)
  | template (texts : List String) (values : List Expr)
  | name (name : String)
  | this
  | array (items : List Item)
  | object (properties : List Property)
  | function (f : Function)
  | arrow (isAsync isExpression : Bool) (params : List Parameter) (rest : Option Pattern)
      (body : List Stmt)
  | unary (op : UnaryOp) (operand : Expr)
  | delete (operand : Expr)
  | binary (op : BinaryOp) (left right : Expr)
  | logical (op : LogicalOp) (left right : Expr)
  | conditional (test thenValue elseValue : Expr)
  | assign (op : AssignOp) (target : Target) (value : Expr)
  | update (increment before : Bool) (target : Target)
  | member (object : Expr) (name : String) (isOptional : Bool)
  | index (object key : Expr) (isOptional : Bool)
  | privateMember (object : Expr)
  | call (callee : Expr) (arguments : List Item) (isOptional : Bool)
  | chain (inner : Expr)
  | paren (inner : Expr)
  | sequence (parts : List Expr)
  | refused (what : String)

inductive Item
  | value (e : Expr)
  | spread (e : Expr)
  | hole

inductive Property
  | entry (key : PropertyKey) (value : Expr)
  | accessor
  | spread (e : Expr)
  /-- A shorthand with a default, meaningful only when the literal becomes a pattern. -/
  | cover (name : String) (fallback : Expr)

inductive PropertyKey
  | fixed (name : String)
  | computed (e : Expr)
  | refused (what : String)

/-- Left sides of assignments. Patterns and private members only remember what they are. -/
inductive Target
  | name (name : String)
  | member (object : Expr) (name : String)
  | index (object key : Expr)
  | privateMember
  | pattern

inductive Pattern
  | name (name : String)
  | object (fields : List PatternField) (rest : Option Pattern)
  | array (elements : List (Option Pattern)) (rest : Option Pattern)
  | withDefault (target : Pattern) (fallback : Expr)

inductive PatternField
  | field (key : PropertyKey) (target : Pattern)

/-- A parameter with its default. -/
inductive Parameter
  | make (target : Pattern) (fallback : Option Expr)

inductive Function
  | make (name : Option String) (special : Bool) (params : List Parameter) (rest : Option Pattern)
      (body : List Stmt)

inductive Declarator
  | declare (target : Pattern) (value : Option Expr)

inductive SwitchCase
  | case (test : Option Expr) (body : List Stmt)

inductive ForLeft
  | declaration (kind : DeclKind) (declarators : List Declarator)
  | using
  | target

inductive Stmt
  | expr (e : Expr)
  | declare (kind : DeclKind) (declarators : List Declarator)
  | function (f : Function)
  | return (value : Option Expr)
  | ifElse (test : Expr) (thenBranch : Stmt) (elseBranch : Option Stmt)
  | block (body : List Stmt)
  | forLoop (init : Option Stmt) (test update : Option Expr) (body : Stmt)
  | forOf (isAwait : Bool) (left : ForLeft) (items : Expr) (body : Stmt)
  | forIn (left : ForLeft) (object : Expr) (body : Stmt)
  | whileLoop (test : Expr) (body : Stmt)
  | doWhile (body : Stmt) (test : Expr)
  | switch (subject : Expr) (cases : List SwitchCase)
  | break (label : Option String)
  | continue (label : Option String)
  | throw (e : Expr)
  | tryCatch (block : List Stmt) (param : Option Pattern) (handler : Option (List Stmt))
      (finalizer : Option (List Stmt))
  | empty
  | refused (what : String)

end

instance : Inhabited Expr := ⟨.this⟩
instance : Inhabited Stmt := ⟨.empty⟩
instance : Inhabited Pattern := ⟨.name ""⟩

end Surface

end Nodecraft.Script
