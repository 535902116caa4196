import Nodecraft.Script.Syntax

/-!
# The names that scripts mention

Code looks names up (`Mention.use`) and declares them (`Mention.declare`), and it does neither with
a name that does not stand in it as an identifier. `blockMentions` lists what a block mentions,
the code of the functions in it included; keys of members and of fields are no names.
-/

set_option autoImplicit false

namespace Nodecraft.Script

/-- An identifier of a script. -/
inductive Mention
  /-- The name is read or assigned to. -/
  | use (name : String)
  /-- The name is bound in a scope of the code. -/
  | declare (name : String)
  deriving DecidableEq, Repr

def Mention.name : Mention → String
  | .use name => name
  | .declare name => name

def Mention.declared? : Mention → Option String
  | .use _ => none
  | .declare name => some name

mutual

def Expr.mentions : Expr → List Mention
  | .literal _ => []
  | .template _ es => exprsMentions es
  | .name n => [.use n]
  | .this => []
  | .array items => itemsMentions items
  | .object properties => propertiesMentions properties
  | .function code => code.mentions
  | .unary _ e => e.mentions
  | .binary _ a b => a.mentions ++ b.mentions
  | .logical _ a b => a.mentions ++ b.mentions
  | .conditional t a b => t.mentions ++ (a.mentions ++ b.mentions)
  | .assign _ target e => target.mentions ++ e.mentions
  | .update _ _ target => target.mentions
  | .delete target => target.mentions
  | .member object key _ => object.mentions ++ key.mentions
  | .call callee arguments _ => callee.mentions ++ itemsMentions arguments
  | .chain inner => inner.mentions
  | .sequence es => exprsMentions es

def exprsMentions : List Expr → List Mention
  | [] => []
  | e :: rest => e.mentions ++ exprsMentions rest

def optExprMentions : Option Expr → List Mention
  | none => []
  | some e => e.mentions

def itemsMentions : List Item → List Mention
  | [] => []
  | .value e :: rest => e.mentions ++ itemsMentions rest
  | .spread e :: rest => e.mentions ++ itemsMentions rest
  | .hole :: rest => itemsMentions rest

def propertiesMentions : List Property → List Mention
  | [] => []
  | .entry key e :: rest => key.mentions ++ (e.mentions ++ propertiesMentions rest)
  | .spread e :: rest => e.mentions ++ propertiesMentions rest

def PropertyKey.mentions : PropertyKey → List Mention
  | .fixed _ => []
  | .computed e => e.mentions

def MemberKey.mentions : MemberKey → List Mention
  | .fixed _ => []
  | .computed e => e.mentions

def Target.mentions : Target → List Mention
  | .name n => [.use n]
  | .member object key => object.mentions ++ key.mentions

def Pattern.mentions : Pattern → List Mention
  | .name n => [.declare n]
  | .object fields rest => fieldsMentions fields ++ optPatternMentions rest
  | .array elements rest => elementsMentions elements ++ optPatternMentions rest
  | .withDefault target fallback => target.mentions ++ fallback.mentions

def optPatternMentions : Option Pattern → List Mention
  | none => []
  | some p => p.mentions

def fieldsMentions : List PatternField → List Mention
  | [] => []
  | .field key target :: rest => key.mentions ++ (target.mentions ++ fieldsMentions rest)

def elementsMentions : List (Option Pattern) → List Mention
  | [] => []
  | none :: rest => elementsMentions rest
  | some p :: rest => p.mentions ++ elementsMentions rest

def paramsMentions : List Pattern → List Mention
  | [] => []
  | p :: rest => p.mentions ++ paramsMentions rest

/-- A function does not bind its own name: the block it stands in does. -/
def FunctionDef.mentions : FunctionDef → List Mention
  | .make _ params rest body _ =>
    paramsMentions params ++ (optPatternMentions rest ++ blockMentions body)

def declaratorsMentions : List Declarator → List Mention
  | [] => []
  | .declare target e :: rest => optExprMentions e ++ (target.mentions ++ declaratorsMentions rest)

def casesMentions : List SwitchCase → List Mention
  | [] => []
  | .case test body :: rest => optExprMentions test ++ (blockMentions body ++ casesMentions rest)

def Stmt.mentions : Stmt → List Mention
  | .expr e => e.mentions
  | .declare _ ds => declaratorsMentions ds
  | .function code => .declare (code.name.getD "") :: code.mentions
  | .«return» e => optExprMentions e
  | .ifElse test a b => test.mentions ++ (a.mentions ++ optStmtMentions b)
  | .block body => blockMentions body
  | .forLoop init test update body =>
    optStmtMentions init ++ (optExprMentions test ++ (optExprMentions update ++ body.mentions))
  | .forOf _ binding e body => e.mentions ++ (binding.mentions ++ body.mentions)
  | .forIn _ binding e body => e.mentions ++ (binding.mentions ++ body.mentions)
  | .whileLoop test body => test.mentions ++ body.mentions
  | .doWhile body test => body.mentions ++ test.mentions
  | .switch subject cases_ => subject.mentions ++ casesMentions cases_
  | .«break» => []
  | .«continue» => []
  | .throw e => e.mentions
  | .tryCatch body param handler finalizer =>
    blockMentions body ++
      (optPatternMentions param ++ (optBlockMentions handler ++ optBlockMentions finalizer))
  | .empty => []

def optStmtMentions : Option Stmt → List Mention
  | none => []
  | some stmt => stmt.mentions

def blockMentions : List Stmt → List Mention
  | [] => []
  | stmt :: rest => stmt.mentions ++ blockMentions rest

def optBlockMentions : Option (List Stmt) → List Mention
  | none => []
  | some body => blockMentions body

end

/-- The identifiers that occur in a block. -/
def names (body : Block) : List String := (blockMentions body).map Mention.name

/-- The names that a block declares, in whatever scope. -/
def declared (body : Block) : List String := (blockMentions body).filterMap Mention.declared?

theorem name_mem_names {body : Block} {m : Mention} (h : m ∈ blockMentions body) :
    m.name ∈ names body :=
  List.mem_map_of_mem h

theorem mem_declared {body : Block} {name : String} :
    name ∈ declared body ↔ .declare name ∈ blockMentions body := by
  simp only [declared, List.mem_filterMap]
  constructor
  · rintro ⟨m, hm, h⟩
    cases m with
    | use n => exact nomatch h
    | declare n =>
      obtain rfl := Option.some.inj h
      exact hm
  · exact fun h ↦ ⟨_, h, rfl⟩

end Nodecraft.Script
