/-!
Syntax trees of the script subset that node definitions may use.
-/

set_option autoImplicit false

namespace Nodecraft.Script

inductive DeclKind
  | var
  | letKind
  | constKind
  deriving DecidableEq, Repr, Inhabited

inductive UnaryOp
  | neg
  | plus
  | not
  | bitNot
  | typeof
  | void
  deriving DecidableEq, Repr, Inhabited

inductive BinaryOp
  | eq
  | ne
  | strictEq
  | strictNe
  | lt
  | le
  | gt
  | ge
  | add
  | sub
  | mul
  | div
  | rem
  | exp
  | shl
  | shr
  | ushr
  | bitOr
  | bitXor
  | bitAnd
  | isIn
  deriving DecidableEq, Repr, Inhabited

inductive LogicalOp
  | or
  | and
  | coalesce
  deriving DecidableEq, Repr, Inhabited

inductive AssignOp
  | plain
  | binary (op : BinaryOp)
  | logical (op : LogicalOp)
  deriving DecidableEq, Repr, Inhabited

inductive Literal
  | undefined
  | null
  | bool (b : Bool)
  | number (x : Float)
  | string (s : String)
  deriving Inhabited

mutual

inductive Expr
  | literal (value : Literal)
  /-- Texts alternate with expressions, one more text than expressions. -/
  | template (texts : List String) (values : List Expr)
  | name (name : String)
  | this
  | array (items : List Item)
  | object (properties : List Property)
  | function (def_ : FunctionDef)
  | unary (op : UnaryOp) (operand : Expr)
  | binary (op : BinaryOp) (left right : Expr)
  | logical (op : LogicalOp) (left right : Expr)
  | conditional (test thenValue elseValue : Expr)
  | assign (op : AssignOp) (target : Target) (value : Expr)
  /-- Adds `delta` to the target; the value is the new one if `before`, else the old one. -/
  | update (increment before : Bool) (target : Target)
  | delete (target : Target)
  | member (object : Expr) (key : MemberKey) (isOptional : Bool)
  | call (callee : Expr) (arguments : List Item) (isOptional : Bool)
  /-- The extent of an optional chain: a missing link makes all of it undefined. -/
  | chain (inner : Expr)
  | sequence (parts : List Expr)

/-- An element of an array literal or an argument. -/
inductive Item
  | value (e : Expr)
  | spread (e : Expr)
  | hole

inductive Property
  | entry (key : PropertyKey) (value : Expr)
  | spread (e : Expr)

inductive PropertyKey
  | fixed (name : String)
  | computed (e : Expr)

inductive MemberKey
  | fixed (name : String)
  | computed (e : Expr)

inductive Target
  | name (name : String)
  | member (object : Expr) (key : MemberKey)

inductive Pattern
  | name (name : String)
  | object (fields : List PatternField) (rest : Option Pattern)
  | array (elements : List (Option Pattern)) (rest : Option Pattern)
  | withDefault (target : Pattern) (fallback : Expr)

inductive PatternField
  | field (key : PropertyKey) (target : Pattern)

/-- Arrow functions take `this` from where they are written. -/
inductive FunctionDef
  | make (name : Option String) (params : List Pattern) (rest : Option Pattern)
      (body : List Stmt) (arrow : Bool)

inductive Declarator
  | declare (target : Pattern) (value : Option Expr)

/-- A case without a test is the default. -/
inductive SwitchCase
  | case (test : Option Expr) (body : List Stmt)

inductive Stmt
  | expr (e : Expr)
  | declare (kind : DeclKind) (declarators : List Declarator)
  | function (def_ : FunctionDef)
  | return (value : Option Expr)
  | ifElse (test : Expr) (thenBranch : Stmt) (elseBranch : Option Stmt)
  | block (body : List Stmt)
  | forLoop (init : Option Stmt) (test update : Option Expr) (body : Stmt)
  | forOf (kind : DeclKind) (binding : Pattern) (items : Expr) (body : Stmt)
  | forIn (kind : DeclKind) (binding : Pattern) (object : Expr) (body : Stmt)
  | whileLoop (test : Expr) (body : Stmt)
  | doWhile (body : Stmt) (test : Expr)
  | switch (subject : Expr) (cases : List SwitchCase)
  | break
  | continue
  | throw (e : Expr)
  | tryCatch (block : List Stmt) (param : Option Pattern) (handler : Option (List Stmt))
      (finalizer : Option (List Stmt))
  | empty

end

abbrev Block := List Stmt

instance : Inhabited Expr := ⟨.this⟩
instance : Inhabited Stmt := ⟨.empty⟩
instance : Inhabited Pattern := ⟨.name ""⟩

namespace FunctionDef

def name : FunctionDef → Option String
  | make name _ _ _ _ => name

def params : FunctionDef → List Pattern
  | make _ params _ _ _ => params

def rest : FunctionDef → Option Pattern
  | make _ _ rest _ _ => rest

def body : FunctionDef → Block
  | make _ _ _ body _ => body

def arrow : FunctionDef → Bool
  | make _ _ _ _ arrow => arrow

end FunctionDef

end Nodecraft.Script
