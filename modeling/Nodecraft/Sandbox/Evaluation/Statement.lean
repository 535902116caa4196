import Nodecraft.Sandbox.Evaluation.Expression

/-!
Executing statements. Each statement is a step, and so is each round of a loop.
-/

set_option autoImplicit false

namespace Nodecraft.Sandbox.Evaluation

open Script Sandbox.Action

/-- Declares the functions of a block before its first statement runs. -/
def hoist (s : ScopeId) : List Stmt → Action Unit
  | [] => return
  | .function code :: rest => do
    declare s (code.name.getD "") (← closure s code) true
    hoist s rest
  | _ :: rest => hoist s rest

def statements (m : Machine) (s : ScopeId) : List Stmt → Action Completion
  | [] => return .normal
  | stmt :: rest => do
    match ← m.exec s stmt with
    | .normal => statements m s rest
    | other => return other

def block (m : Machine) (s : ScopeId) (body : List Stmt) : Action Completion := do
  hoist s body
  statements m s body

/-- A block in a scope of its own. -/
def innerBlock (m : Machine) (s : ScopeId) (body : List Stmt) : Action Completion := do
  block m (← childScope s) body

/-- The body of a function or a whole script, as an entry of its own. -/
def program (m : Machine) (s : ScopeId) (body : List Stmt) : Action Value := do
  match ← m.nested (block m s body) with
  | .return v => return v
  | _ => return .undefined

def declarations (m : Machine) (kind : DeclKind) (s : ScopeId) : List Declarator → Action Unit
  | [] => return
  | .declare target e :: rest => do
    let v ← match e with
      | some e => m.eval s e
      | none => pure .undefined
    m.bind kind s target v
    declarations m kind s rest

/-! ### Loops -/

/-- What the end of a loop's body means for the loop: how the loop ends, or nothing. -/
def loopEnd : Completion → Option Completion
  | .break => some .normal
  | .return v => some (.return v)
  | .normal => none
  | .continue => none

/-- Goes round while `again` holds, until a round tells how the loop ends. Each round is a step. -/
def repeatRounds (step : Action Unit) (again : Action Bool)
    (round : Action (Option Completion)) : Nat → Action Completion
  | 0 => throw .unfinished
  | n + 1 => do
    if ← again then
      step
      match ← round with
      | some end_ => return end_
      | none => repeatRounds step again round n
    else return .normal

/-- One round for each item. -/
def forEach {α : Type} (round : α → Action (Option Completion)) : List α → Action Completion
  | [] => return .normal
  | a :: rest => do
    match ← round a with
    | some end_ => return end_
    | none => forEach round rest

/-- Whether a loop with an optional test goes on. -/
def testHolds (m : Machine) (s : ScopeId) : Option Expr → Action Bool
  | some test => return (← m.eval s test).isTruthy
  | none => return true

def forRound (m : Machine) (s : ScopeId) (test update : Option Expr) (body : Stmt) :
    Action (Option Completion) := do
  if !(← testHolds m s test) then return some .normal
  else
    match loopEnd (← m.exec (← childScope s) body) with
    | some end_ => return some end_
    | none =>
      match update with
      | some e => discard (m.eval s e)
      | none => pure ()
      return none

/-- All rounds of a counting loop share the scope of its head. -/
def forLoop (m : Machine) (s : ScopeId) (init : Option Stmt) (test update : Option Expr)
    (body : Stmt) : Action Completion := do
  let loopScope ← childScope s
  match init with
  | some stmt => discard (m.exec loopScope stmt)
  | none => pure ()
  repeatRounds m.step (pure true) (forRound m loopScope test update body) m.rounds

def itemRound (m : Machine) (kind : DeclKind) (s : ScopeId) (binding : Pattern) (body : Stmt)
    (item : Value) : Action (Option Completion) := do
  m.step
  let inner ← childScope s
  m.bind kind inner binding item
  return loopEnd (← m.exec inner body)

def whileLoop (m : Machine) (s : ScopeId) (test : Expr) (body : Stmt) : Action Completion :=
  repeatRounds m.step (return (← m.eval s test).isTruthy) (return loopEnd (← m.exec s body))
    m.rounds

def doRound (m : Machine) (s : ScopeId) (body : Stmt) (test : Expr) :
    Action (Option Completion) := do
  match loopEnd (← m.exec s body) with
  | some end_ => return some end_
  | none => return if (← m.eval s test).isTruthy then none else some .normal

/-! ### Switches -/

/-- The first case whose test equals the subject, counted from `i`. -/
def matchingCase (m : Machine) (s : ScopeId) (subject : Value) :
    Nat → List SwitchCase → Action (Option Nat)
  | _, [] => return none
  | i, .case none _ :: rest => matchingCase m s subject (i + 1) rest
  | i, .case (some test) _ :: rest => do
    if subject.strictEquals (← m.eval s test) then return some i
    else matchingCase m s subject (i + 1) rest

def isDefault : SwitchCase → Bool
  | .case test _ => test.isNone

def runCases (m : Machine) (s : ScopeId) : List SwitchCase → Action Completion
  | [] => return .normal
  | .case _ body :: rest => do
    match ← block m s body with
    | .normal => runCases m s rest
    | .break => return .normal
    | other => return other

def switch (m : Machine) (s : ScopeId) (subject : Expr) (cases : List SwitchCase) :
    Action Completion := do
  let v ← m.eval s subject
  let inner ← childScope s
  match (← matchingCase m inner v 0 cases).or (cases.findIdx? isDefault) with
  | some start => runCases m inner (cases.drop start)
  | none => return .normal

/-! ### Exceptions -/

def handle (m : Machine) (s : ScopeId) (param : Option Pattern) (handler : List Stmt)
    (e : ScriptError) : Action Completion := do
  let inner ← childScope s
  match param with
  | some p => m.bind .letKind inner p (← caught e)
  | none => pure ()
  block m inner handler

/-- The guarded block, with its handler for errors a script may catch. -/
def guarded (m : Machine) (s : ScopeId) (body : List Stmt) (param : Option Pattern)
    (handler : Option (List Stmt)) : Action Completion :=
  match handler with
  | some handler => catching (innerBlock m s body) (handle m s param handler)
  | none => innerBlock m s body

/-- Runs a finalizer after every end that an action comes to by itself. The finalizer's own end
takes precedence, unless it is a normal one. -/
def finalizing (action finalizer : Action Completion) : Action Completion := fun w =>
  match action w with
  | .ok c w =>
    match finalizer w with
    | .ok .normal w => .ok c w
    | other => other
  | .error (.raised e) w =>
    match finalizer w with
    | .ok .normal w => .error (.raised e) w
    | other => other
  | .error e w => .error e w

def tryCatch (m : Machine) (s : ScopeId) (body : List Stmt) (param : Option Pattern)
    (handler finalizer : Option (List Stmt)) : Action Completion :=
  match finalizer with
  | some f => m.finalize (guarded m s body param handler) (innerBlock m s f)
  | none => guarded m s body param handler

/-! ### All statements -/

def statement (m : Machine) (s : ScopeId) (stmt : Stmt) : Action Completion := do
  m.step
  match stmt with
  | .expr e =>
    discard (m.eval s e)
    return .normal
  | .declare kind ds =>
    declarations m kind s ds
    return .normal
  | .function _ => return .normal
  | .empty => return .normal
  | .return none => return .return .undefined
  | .return (some e) => return .return (← m.eval s e)
  | .ifElse test a b =>
    if (← m.eval s test).isTruthy then m.exec s a
    else match b with
      | some b => m.exec s b
      | none => return .normal
  | .block body => innerBlock m s body
  | .forLoop init test update body => forLoop m s init test update body
  | .forOf kind binding e body =>
    let items ← iterate (← m.eval s e)
    forEach (itemRound m kind s binding body) items
  | .forIn kind binding e body =>
    let object ← m.eval s e
    let keys := (← heap).enumerableKeys object
    forEach (fun key => itemRound m kind s binding body (.string key)) keys
  | .whileLoop test body => whileLoop m s test body
  | .doWhile body test => repeatRounds m.step (pure true) (doRound m s body test) m.rounds
  | .switch subject cases => switch m s subject cases
  | .break => return .break
  | .continue => return .continue
  | .throw e => throwValue (← m.eval s e)
  | .tryCatch body param handler finalizer => tryCatch m s body param handler finalizer

/-- A statement as an entry of its own. -/
def statementEntry (m : Machine) (s : ScopeId) (stmt : Stmt) : Action Completion :=
  m.nested (statement m s stmt)

end Nodecraft.Sandbox.Evaluation
