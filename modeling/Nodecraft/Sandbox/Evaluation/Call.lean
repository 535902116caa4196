import Nodecraft.Sandbox.Evaluation.Statement

/-!
Calling functions, and the machine whose rules are all of these.
-/

set_option autoImplicit false

namespace Nodecraft.Sandbox

open Script

namespace Evaluation

open Sandbox.Action

/-- Binds arguments to parameters and gives what is left of them. -/
def bindParams (m : Machine) (s : ScopeId) : List Pattern → List Value → Action (List Value)
  | [], args => return args
  | p :: params, args => do
    m.bind .letKind s p (args.headD .undefined)
    bindParams m s params args.tail

def callClosure (m : Machine) (code : FunctionDef) (captured : ScopeId) (self : Value)
    (args : List Value) : Action Value := do
  let s ← newScope ⟨[], some captured, none, if code.arrow then none else some self, true⟩
  let extra ← bindParams m s code.params args
  match code.rest with
  | some p => m.bind .letKind s p (← newArray extra.toArray)
  | none => pure ()
  program m s code.body

def perform (m : Machine) (self : Value) (args : List Value) : Function → Action Value
  | .native n => native m.call n self args
  | .bound target self => m.invoke target self args
  | .closure code captured => callClosure m code captured self args

/-- What a function does once it has been entered. -/
def apply (m : Machine) (f : FunctionId) (self : Value) (args : List Value) : Action Value := do
  perform m self args ((← heap).function f)

def invoke (m : Machine) (f : FunctionId) (self : Value) (args : List Value) : Action Value :=
  calling (apply m f self args)

end Evaluation

mutual

def evalWithin : Nat → ScopeId → Expr → Action Value
  | 0, _, _ => throw .unfinished
  | fuel + 1, s, e => fun w => Evaluation.expressionEntry ⟨fuel, Action.step, Action.room,
      Evaluation.finalizing, Action.deleteProperty, evalWithin fuel, linkWithin fuel,
      execWithin fuel, bindWithin fuel, invokeWithin fuel⟩ s e w

def linkWithin : Nat → ScopeId → Expr → Action (Option Value)
  | 0, _, _ => throw .unfinished
  | fuel + 1, s, e => fun w => Evaluation.chainLink ⟨fuel, Action.step, Action.room,
      Evaluation.finalizing, Action.deleteProperty, evalWithin fuel, linkWithin fuel,
      execWithin fuel, bindWithin fuel, invokeWithin fuel⟩ s e w

def execWithin : Nat → ScopeId → Stmt → Action Completion
  | 0, _, _ => throw .unfinished
  | fuel + 1, s, stmt => fun w => Evaluation.statementEntry ⟨fuel, Action.step, Action.room,
      Evaluation.finalizing, Action.deleteProperty, evalWithin fuel, linkWithin fuel,
      execWithin fuel, bindWithin fuel, invokeWithin fuel⟩ s stmt w

def bindWithin : Nat → DeclKind → ScopeId → Pattern → Value → Action Unit
  | 0, _, _, _, _ => throw .unfinished
  | fuel + 1, kind, s, p, v => fun w => Evaluation.bindPattern ⟨fuel, Action.step, Action.room,
      Evaluation.finalizing, Action.deleteProperty, evalWithin fuel, linkWithin fuel,
      execWithin fuel, bindWithin fuel, invokeWithin fuel⟩ kind s v p w

def invokeWithin : Nat → FunctionId → Value → List Value → Action Value
  | 0, _, _, _ => throw .unfinished
  | fuel + 1, f, self, args => fun w => Evaluation.invoke ⟨fuel, Action.step, Action.room,
      Evaluation.finalizing, Action.deleteProperty, evalWithin fuel, linkWithin fuel,
      execWithin fuel, bindWithin fuel, invokeWithin fuel⟩ f self args w

end

/-- The machine whose evaluations nest at most `fuel` deep and whose loops go round that often. -/
def machineWithin (fuel : Nat) : Machine :=
  ⟨fuel, Action.step, Action.room, Evaluation.finalizing, Action.deleteProperty, evalWithin fuel,
    linkWithin fuel, execWithin fuel, bindWithin fuel, invokeWithin fuel⟩

/-- More than any run uses up in the time an answer is waited for. -/
def patience : Nat := Nat.pow 2 62

def machine : Machine := machineWithin patience

namespace Action

/-- Calls a value from outside scripts. -/
def call : Caller := machine.call

def eval (s : ScopeId) (e : Expr) : Action Value := machine.eval s e

def runProgram (s : ScopeId) (body : Block) : Action Value := Evaluation.program machine s body

def bindPattern (kind : DeclKind) (s : ScopeId) (p : Pattern) (v : Value) : Action Unit :=
  machine.bind kind s p v

end Action

end Nodecraft.Sandbox
