import Mathlib.Data.List.Chain
import Nodecraft.Script.Reading

/-!
# How deep scripts nest

The levels of a syntax tree are its statements, expressions and patterns. Going down from one to the
next, along a path, one meets at most `maxNesting` of them in a tree that has been read, and what is
written deeper is refused (`scripts_nest_shallowly`). Only what the check leaves out may be written
deeper (`deep_omissions_accepted`): the default of a parameter, and what the head of a loop over a
collection declares besides its first binding.

The check that refuses it counts down from `maxNesting` by one for each level it goes down. So what it
accepts at a depth is, like what it makes of that, within the levels that are left there (`Fits`), one
lemma for each rule of the check.
-/

set_option autoImplicit false

namespace Nodecraft.Script

/-! ### Levels of a tree -/

/-- What counts as a level of a tree. -/
inductive Level
  | expr (e : Expr)
  | stmt (s : Stmt)
  | pattern (p : Pattern)

def PropertyKey.parts : PropertyKey → List Level
  | .fixed _ => []
  | .computed e => [.expr e]

def MemberKey.parts : MemberKey → List Level
  | .fixed _ => []
  | .computed e => [.expr e]

/-- A target is no level of its own, be it a name or a member. -/
def Target.parts : Target → List Level
  | .name _ => []
  | .member e k => .expr e :: k.parts

def Item.parts : Item → List Level
  | .value e => [.expr e]
  | .spread e => [.expr e]
  | .hole => []

def FunctionDef.parts : FunctionDef → List Level
  | .make _ params rest body _ =>
    params.map .pattern ++ (rest.toList.map .pattern ++ body.map .stmt)

/-- A function right under its key is no level of its own. -/
def Property.parts : Property → List Level
  | .entry k (.function f) => k.parts ++ f.parts
  | .entry k e => k.parts ++ [.expr e]
  | .spread e => [.expr e]

def PatternField.parts : PatternField → List Level
  | .field k p => k.parts ++ [.pattern p]

def Declarator.parts : Declarator → List Level
  | .declare p e => .pattern p :: e.toList.map .expr

def SwitchCase.parts : SwitchCase → List Level
  | .case t body => t.toList.map .expr ++ body.map .stmt

/-- The initializer of a loop is no level of its own. -/
def Stmt.initParts : Stmt → List Level
  | .expr e => [.expr e]
  | .declare _ ds => ds.flatMap Declarator.parts
  | s => [.stmt s]

/-- The levels right below an expression. An optional chain and its last link are one level. -/
def Expr.parts : Expr → List Level
  | .literal _ => []
  | .template _ es => es.map .expr
  | .name _ => []
  | .this => []
  | .array items => items.flatMap Item.parts
  | .object ps => ps.flatMap Property.parts
  | .function f => f.parts
  | .unary _ e => [.expr e]
  | .binary _ a b => [.expr a, .expr b]
  | .logical _ a b => [.expr a, .expr b]
  | .conditional t a b => [.expr t, .expr a, .expr b]
  | .assign _ t e => t.parts ++ [.expr e]
  | .update _ _ t => t.parts
  | .delete t => t.parts
  | .member e k _ => .expr e :: k.parts
  | .call f arguments _ => arguments.flatMap Item.parts ++ [.expr f]
  | .chain inner => inner.parts
  | .sequence es => es.map .expr

def Pattern.parts : Pattern → List Level
  | .name _ => []
  | .object fs rest => fs.flatMap PatternField.parts ++ rest.toList.map .pattern
  | .array es rest => es.flatMap (fun p ↦ p.toList.map .pattern) ++ rest.toList.map .pattern
  | .withDefault p e => [.pattern p, .expr e]

def Stmt.parts : Stmt → List Level
  | .expr e => [.expr e]
  | .declare _ ds => ds.flatMap Declarator.parts
  | .function f => f.parts
  | .return e => e.toList.map .expr
  | .ifElse t a b => .expr t :: .stmt a :: b.toList.map .stmt
  | .block body => body.map .stmt
  | .forLoop init test update body =>
    init.toList.flatMap Stmt.initParts ++
      (test.toList.map .expr ++ (update.toList.map .expr ++ [.stmt body]))
  | .forOf _ p e body => [.pattern p, .expr e, .stmt body]
  | .forIn _ p e body => [.pattern p, .expr e, .stmt body]
  | .whileLoop t body => [.expr t, .stmt body]
  | .doWhile body t => [.stmt body, .expr t]
  | .switch e cs => .expr e :: cs.flatMap SwitchCase.parts
  | .break => []
  | .continue => []
  | .throw e => [.expr e]
  | .tryCatch body param handler finalizer =>
    param.toList.map .pattern ++ ((handler.getD []).map .stmt ++
      (body.map .stmt ++ (finalizer.getD []).map .stmt))
  | .empty => []

/-- The levels right below a level. -/
def Level.parts : Level → List Level
  | .expr e => e.parts
  | .stmt s => s.parts
  | .pattern p => p.parts

/-! ### Levels of what is written -/

namespace Surface

/-- What counts as a level of a script as it is written. A pair of parentheses is one too. -/
inductive Level
  | expr (e : Expr)
  | stmt (s : Stmt)
  | pattern (p : Pattern)

def PropertyKey.parts : PropertyKey → List Level
  | .fixed _ => []
  | .computed e => [.expr e]
  | .refused _ => []

def Target.parts : Target → List Level
  | .name _ => []
  | .member e _ => [.expr e]
  | .index e k => [.expr e, .expr k]
  | .privateMember => []
  | .pattern => []

def Item.parts : Item → List Level
  | .value e => [.expr e]
  | .spread e => [.expr e]
  | .hole => []

/-- The default of a parameter is omitted. -/
def Parameter.parts : Parameter → List Level
  | .make p _ => [.pattern p]

def Function.parts : Function → List Level
  | .make _ _ params rest body =>
    params.flatMap Parameter.parts ++ (rest.toList.map .pattern ++ body.map .stmt)

def Property.parts : Property → List Level
  | .entry k (.function f) => k.parts ++ f.parts
  | .entry k e => k.parts ++ [.expr e]
  | .accessor => []
  | .spread e => [.expr e]
  | .cover _ e => [.expr e]

def PatternField.parts : PatternField → List Level
  | .field k p => k.parts ++ [.pattern p]

def Declarator.parts : Declarator → List Level
  | .declare p e => .pattern p :: e.toList.map .expr

def SwitchCase.parts : SwitchCase → List Level
  | .case t body => t.toList.map .expr ++ body.map .stmt

/-- Of what is declared here only the first binding is taken, and its value is omitted. -/
def ForLeft.parts : ForLeft → List Level
  | .declaration _ (.declare p _ :: _) => [.pattern p]
  | .declaration _ [] => []
  | .using => []
  | .target => []

def Stmt.initParts : Stmt → List Level
  | .expr e => [.expr e]
  | .declare _ ds => ds.flatMap Declarator.parts
  | s => [.stmt s]

def Expr.parts : Expr → List Level
  | .literal _ => []
  | .template _ es => es.map .expr
  | .name _ => []
  | .this => []
  | .array items => items.flatMap Item.parts
  | .object ps => ps.flatMap Property.parts
  | .function f => f.parts
  | .arrow _ _ params rest body =>
    params.flatMap Parameter.parts ++ (rest.toList.map .pattern ++ body.map .stmt)
  | .unary _ e => [.expr e]
  | .delete (.member e _ _) => [.expr e]
  | .delete (.index e k _) => [.expr e, .expr k]
  | .delete e => [.expr e]
  | .binary _ a b => [.expr a, .expr b]
  | .logical _ a b => [.expr a, .expr b]
  | .conditional t a b => [.expr t, .expr a, .expr b]
  | .assign _ t e => t.parts ++ [.expr e]
  | .update _ _ t => t.parts
  | .member e _ _ => [.expr e]
  | .index e k _ => [.expr e, .expr k]
  | .privateMember e => [.expr e]
  | .call f arguments _ => arguments.flatMap Item.parts ++ [.expr f]
  | .chain inner => inner.parts
  | .paren e => [.expr e]
  | .sequence es => es.map .expr
  | .refused _ => []

def Pattern.parts : Pattern → List Level
  | .name _ => []
  | .object fs rest => fs.flatMap PatternField.parts ++ rest.toList.map .pattern
  | .array es rest => es.flatMap (fun p ↦ p.toList.map .pattern) ++ rest.toList.map .pattern
  | .withDefault p e => [.pattern p, .expr e]

def Stmt.parts : Stmt → List Level
  | .expr e => [.expr e]
  | .declare _ ds => ds.flatMap Declarator.parts
  | .function f => f.parts
  | .return e => e.toList.map .expr
  | .ifElse t a b => .expr t :: .stmt a :: b.toList.map .stmt
  | .block body => body.map .stmt
  | .forLoop init test update body =>
    init.toList.flatMap Stmt.initParts ++
      (test.toList.map .expr ++ (update.toList.map .expr ++ [.stmt body]))
  | .forOf _ left e body => left.parts ++ [.expr e, .stmt body]
  | .forIn left e body => left.parts ++ [.expr e, .stmt body]
  | .whileLoop t body => [.expr t, .stmt body]
  | .doWhile body t => [.stmt body, .expr t]
  | .switch e cs => .expr e :: cs.flatMap SwitchCase.parts
  | .break _ => []
  | .continue _ => []
  | .throw e => [.expr e]
  | .tryCatch body param handler finalizer =>
    param.toList.map .pattern ++ ((handler.getD []).map .stmt ++
      (body.map .stmt ++ (finalizer.getD []).map .stmt))
  | .empty => []
  | .refused _ => []

def Level.parts : Level → List Level
  | .expr e => e.parts
  | .stmt s => s.parts
  | .pattern p => p.parts

def Parameter.omitted : Parameter → List Level
  | .make _ fallback => fallback.toList.map .expr

def Function.omitted : Function → List Level
  | .make _ _ params _ _ => params.flatMap Parameter.omitted

def Property.omitted : Property → List Level
  | .entry _ (.function f) => f.omitted
  | _ => []

def ForLeft.omitted : ForLeft → List Level
  | .declaration _ (.declare _ value :: others) =>
    value.toList.map .expr ++ others.flatMap Declarator.parts
  | _ => []

def Expr.omitted : Expr → List Level
  | .object ps => ps.flatMap Property.omitted
  | .function f => f.omitted
  | .arrow _ _ params _ _ => params.flatMap Parameter.omitted
  | .chain inner => inner.omitted
  | _ => []

def Stmt.omitted : Stmt → List Level
  | .function f => f.omitted
  | .forOf _ left _ _ => left.omitted
  | .forIn left _ _ => left.omitted
  | _ => []

/-- What is written right below a level and taken into no tree. -/
def Level.omitted : Level → List Level
  | .expr e => e.omitted
  | .stmt s => s.omitted
  | .pattern _ => []

/-- All that is written right below a level. -/
def Level.allParts (x : Level) : List Level := x.parts ++ x.omitted

end Surface

/-! ### Paths -/

section

variable {α : Type} {parts : α → List α} {n : Nat} {x : α}

/-- A way down a tree, each time to one of the parts. -/
def IsPath (parts : α → List α) (path : List α) : Prop := path.IsChain fun x y ↦ y ∈ parts x

/-- The tree has at most so many levels. -/
def NestsWithin (parts : α → List α) : Nat → α → Prop
  | 0, _ => False
  | n + 1, x => ∀ y ∈ parts x, NestsWithin parts n y

/-- The recursion bounds the length of every path. -/
theorem nestsWithin_iff :
    NestsWithin parts n x ↔ ∀ path, IsPath parts (x :: path) → (x :: path).length ≤ n := by
  induction n generalizing x with
  | zero => exact ⟨False.elim, fun h ↦ absurd (h [] (.singleton x)) (Nat.not_succ_le_zero 0)⟩
  | succ n ih =>
    constructor
    · intro h path hpath
      cases path with
      | nil => exact Nat.succ_le_succ (Nat.zero_le n)
      | cons y rest =>
        obtain ⟨hy, hrest⟩ := List.isChain_cons_cons.1 hpath
        exact Nat.succ_le_succ (ih.1 (h y hy) rest hrest)
    · intro h y hy
      refine ih.2 fun rest hrest ↦ Nat.le_of_succ_le_succ ?_
      exact h (y :: rest) (.cons_cons hy hrest)

instance decidableNestsWithin (parts : α → List α) :
    (n : Nat) → (x : α) → Decidable (NestsWithin parts n x)
  | 0, _ => inferInstanceAs (Decidable False)
  | n + 1, x =>
    have := decidableNestsWithin parts n
    inferInstanceAs (Decidable (∀ y ∈ parts x, NestsWithin parts n y))

/-- More levels are allowed. -/
theorem NestsWithin.succ (h : NestsWithin parts n x) : NestsWithin parts (n + 1) x := by
  induction n generalizing x with
  | zero => exact h.elim
  | succ n ih => exact fun y hy ↦ ih (h y hy)

/-- A part nests less deeply. -/
theorem NestsWithin.of_part {y : α} (h : NestsWithin parts n x) (hy : y ∈ parts x) :
    NestsWithin parts n y := by
  cases n with
  | zero => exact h.elim
  | succ n => exact NestsWithin.succ (h y hy)

end

/-! ### The check -/

namespace Subset

/-- What has been accepted at a depth is, like what has been made of it, within the levels that are left
there. -/
structure Fits (depth : Nat) (written : List Surface.Level) (read : List Level) : Prop where
  written {x : Surface.Level} : x ∈ written →
    NestsWithin Surface.Level.parts (maxNesting - depth) x
  read {x : Level} : x ∈ read → NestsWithin Level.parts (maxNesting - depth) x

namespace Fits

variable {depth : Nat} {as as' : List Surface.Level} {bs bs' : List Level}

theorem nil : Fits depth [] [] := ⟨fun h ↦ (nomatch h), fun h ↦ (nomatch h)⟩

/-- What fits side by side. -/
theorem append (h : Fits depth as bs) (h' : Fits depth as' bs') :
    Fits depth (as ++ as') (bs ++ bs') where
  written hx := (List.mem_append.1 hx).elim h.written h'.written
  read hx := (List.mem_append.1 hx).elim h.read h'.read

/-- Going up by a level. -/
theorem level {a : Surface.Level} {b : Level} (hdepth : depth < maxNesting)
    (h : Fits (depth + 1) a.parts b.parts) : Fits depth [a] [b] := by
  have hleft : maxNesting - depth = maxNesting - (depth + 1) + 1 := by omega
  constructor
  · intro x hx
    obtain rfl := List.mem_singleton.1 hx
    rw [hleft]
    exact fun y hy ↦ h.written hy
  · intro x hx
    obtain rfl := List.mem_singleton.1 hx
    rw [hleft]
    exact fun y hy ↦ h.read hy

/-- What is a part of a level is within the levels that the level is within. -/
theorem parts {a : Surface.Level} {b : Level} (h : Fits depth [a] [b]) :
    Fits depth a.parts b.parts where
  written hx := (h.written (List.mem_singleton_self a)).of_part hx
  read hx := (h.read (List.mem_singleton_self b)).of_part hx

/-- Parentheses are left out. -/
theorem paren {e : Surface.Expr} (hdepth : depth < maxNesting) (h : Fits (depth + 1) [.expr e] bs) :
    Fits depth [.expr (.paren e)] bs := by
  have hleft : maxNesting - depth = maxNesting - (depth + 1) + 1 := by omega
  constructor
  · intro x hx
    obtain rfl := List.mem_singleton.1 hx
    rw [hleft]
    exact fun y hy ↦ h.written hy
  · intro x hx
    rw [hleft]
    exact (h.read hx).succ

/-- A function right under its key may be a level or not. -/
theorem entry {k : Surface.PropertyKey} {k' : PropertyKey} {e : Surface.Expr} {e' : Expr}
    (hk : Fits depth k.parts k'.parts) (he : Fits depth [.expr e] [.expr e']) :
    Fits depth (Surface.Property.parts (.entry k e)) (Property.parts (.entry k' e')) := by
  constructor
  · intro x hx
    cases e with
    | function f => exact (hk.append he.parts).written hx
    | _ => exact (hk.append he).written hx
  · intro x hx
    cases e' with
    | function f => exact (hk.append he.parts).read hx
    | _ => exact (hk.append he).read hx

/-- Returning an expression is no deeper than the expression as a statement. -/
theorem arrowBody {body : Block} (h : Fits depth as (body.map .stmt)) (isExpression : Bool) :
    Fits depth as ((Subset.arrowBody isExpression body).map .stmt) := by
  refine ⟨h.written, fun {x} hx ↦ ?_⟩
  unfold Subset.arrowBody at hx
  split at hx
  · rename_i e
    split at hx
    · have hexpr := h.read (List.mem_singleton_self (Level.stmt (.expr e)))
      obtain rfl := List.mem_singleton.1 hx
      generalize maxNesting - depth = n at hexpr
      cases n with
      | zero => exact hexpr
      | succ n => exact hexpr
    · exact h.read hx
  · exact h.read hx

end Fits

/-- What an accepted part is turned into. -/
def Yields {α : Type} (x : Result α) (P : α → Prop) : Prop := ∀ a, x = .ok a → P a

namespace Yields

variable {α β : Type} {P : α → Prop} {Q : β → Prop} {x : Result α} {f : α → Result β} {depth : Nat}

theorem ok {a : α} (h : P a) : Yields (.ok a) P := fun _ ha ↦ Except.ok.inj ha ▸ h

theorem refuse {what : String} : Yields (Subset.refuse what) P := fun _ h ↦ nomatch h

/-- What is accepted in parts. -/
theorem bind (hx : Yields x P) (hf : ∀ a, P a → Yields (f a) Q) : Yields (x >>= f) Q := by
  intro b hb
  cases x with
  | ok a => exact hf a (hx a rfl) b hb
  | error e => exact nomatch hb

/-- What is not refused at once goes on. -/
theorem guarded {c : Prop} [Decidable c] {what : String} {g : β → Result α} (h : Yields x P) :
    Yields (if c then Subset.refuse what >>= g else x) P := by
  split
  · exact fun _ h ↦ nomatch h
  · exact h

/-- A level more, if there is one left. -/
theorem enter (h : depth < maxNesting → Yields x P) : Yields (Subset.enter depth x) P := by
  intro a ha
  unfold Subset.enter at ha
  split at ha
  · exact nomatch ha
  · exact h (Nat.lt_of_not_le ‹_›) a ha

end Yields

/-! ### One lemma for each rule of the check -/

mutual

/-- An expression. -/
theorem expr_fits : ∀ (e : Surface.Expr) (depth : Nat),
    Yields (expr depth e) fun a ↦ Fits depth [.expr e] [.expr a]
  | .literal _, _ => .enter fun h ↦ .ok (.level h .nil)
  | .template _ es, depth =>
    .enter fun h ↦ .bind (exprs_fit es (depth + 1)) fun _ hes ↦ .ok (.level h hes)
  | .name n, _ => .enter fun h ↦ .ok (by split <;> exact .level h .nil)
  | .this, _ => .enter fun h ↦ .ok (.level h .nil)
  | .array items, depth =>
    .enter fun h ↦ .bind (items_fit items (depth + 1)) fun _ hitems ↦ .ok (.level h hitems)
  | .object ps, depth =>
    .enter fun h ↦ .bind (properties_fit ps (depth + 1)) fun _ hps ↦ .ok (.level h hps)
  | .function f, depth =>
    .enter fun h ↦ .bind (function_fits f (depth + 1) none) fun _ hf ↦ .ok (.level h hf)
  | .arrow _ isExpression params rest body, depth =>
    .enter fun h ↦ .guarded (.bind (parameters_fit params (depth + 1)) fun _ hparams ↦
      .bind (optionPattern_fits rest (depth + 1)) fun _ hrest ↦
      .bind (block_fits body (depth + 1)) fun _ hbody ↦
        .ok (.level h (hparams.append (hrest.append (hbody.arrowBody isExpression)))))
  | .unary _ e, depth =>
    .enter fun h ↦ .bind (expr_fits e (depth + 1)) fun _ he ↦ .ok (.level h he)
  | .delete operand, depth => by
    cases operand with
    | member e _ _ =>
      exact .enter fun h ↦ .bind (expr_fits e (depth + 1)) fun _ he ↦ .ok (.level h he)
    | index e k _ =>
      exact .enter fun h ↦ .bind (expr_fits e (depth + 1)) fun _ he ↦
        .bind (expr_fits k (depth + 1)) fun _ hk ↦ .ok (.level h (he.append hk))
    | _ => exact .enter fun _ ↦ .refuse
  | .binary _ a b, depth =>
    .enter fun h ↦ .bind (expr_fits a (depth + 1)) fun _ ha ↦
      .bind (expr_fits b (depth + 1)) fun _ hb ↦ .ok (.level h (ha.append hb))
  | .logical _ a b, depth =>
    .enter fun h ↦ .bind (expr_fits a (depth + 1)) fun _ ha ↦
      .bind (expr_fits b (depth + 1)) fun _ hb ↦ .ok (.level h (ha.append hb))
  | .conditional t a b, depth =>
    .enter fun h ↦ .bind (expr_fits t (depth + 1)) fun _ ht ↦
      .bind (expr_fits a (depth + 1)) fun _ ha ↦
      .bind (expr_fits b (depth + 1)) fun _ hb ↦ .ok (.level h (ht.append (ha.append hb)))
  | .assign _ t e, depth =>
    .enter fun h ↦ .bind (target_fits t (depth + 1) _) fun _ ht ↦
      .bind (expr_fits e (depth + 1)) fun _ he ↦ .ok (.level h (ht.append he))
  | .update _ _ t, depth =>
    .enter fun h ↦ .bind (target_fits t (depth + 1) _) fun _ ht ↦ .ok (.level h ht)
  | .member e _ _, depth =>
    .enter fun h ↦ .bind (expr_fits e (depth + 1)) fun _ he ↦ .ok (.level h he)
  | .index e k _, depth =>
    .enter fun h ↦ .bind (expr_fits e (depth + 1)) fun _ he ↦
      .bind (expr_fits k (depth + 1)) fun _ hk ↦ .ok (.level h (he.append hk))
  | .privateMember _, _ => .enter fun _ ↦ .refuse
  | .call f arguments _, depth =>
    .enter fun h ↦ .bind (items_fit arguments (depth + 1)) fun _ harguments ↦
      .bind (expr_fits f (depth + 1)) fun _ hf ↦ .ok (.level h (harguments.append hf))
  | .chain inner, depth =>
    .enter fun h ↦ .bind (chained_fits inner (depth + 1)) fun _ hinner ↦ .ok (.level h hinner)
  | .paren e, depth => .enter fun h a ha ↦ .paren h (expr_fits e (depth + 1) a ha)
  | .sequence es, depth =>
    .enter fun h ↦ .bind (exprs_fit es (depth + 1)) fun _ hes ↦ .ok (.level h hes)
  | .refused _, _ => .enter fun _ ↦ .refuse

theorem chained_fits : ∀ (e : Surface.Expr) (depth : Nat),
    Yields (chained depth e) fun a ↦ Fits depth e.parts a.parts := by
  intro e depth
  cases e with
  | member e _ _ => exact .bind (expr_fits e depth) fun _ he ↦ .ok he
  | index e k _ =>
    exact .bind (expr_fits e depth) fun _ he ↦
      .bind (expr_fits k depth) fun _ hk ↦ .ok (he.append hk)
  | call f arguments _ =>
    exact .bind (items_fit arguments depth) fun _ harguments ↦
      .bind (expr_fits f depth) fun _ hf ↦ .ok (harguments.append hf)
  | _ => exact .refuse

theorem exprs_fit : ∀ (es : List Surface.Expr) (depth : Nat),
    Yields (exprs depth es) fun as ↦ Fits depth (es.map .expr) (as.map .expr)
  | [], _ => .ok .nil
  | e :: rest, depth => .bind (expr_fits e depth) fun _ he ↦
    .bind (exprs_fit rest depth) fun _ hrest ↦ .ok (he.append hrest)

theorem optionExpr_fits : ∀ (e : Option Surface.Expr) (depth : Nat),
    Yields (optionExpr depth e) fun a ↦ Fits depth (e.toList.map .expr) (a.toList.map .expr)
  | none, _ => .ok .nil
  | some e, depth => .bind (expr_fits e depth) fun _ he ↦ .ok he

theorem item_fits : ∀ (i : Surface.Item) (depth : Nat),
    Yields (item depth i) fun a ↦ Fits depth i.parts a.parts
  | .value e, depth => .bind (expr_fits e depth) fun _ he ↦ .ok he
  | .spread e, depth => .bind (expr_fits e depth) fun _ he ↦ .ok he
  | .hole, _ => .ok .nil

theorem items_fit : ∀ (is : List Surface.Item) (depth : Nat),
    Yields (items_ depth is) fun as ↦
      Fits depth (is.flatMap Surface.Item.parts) (as.flatMap Item.parts)
  | [], _ => .ok .nil
  | i :: rest, depth => .bind (item_fits i depth) fun _ hi ↦
    .bind (items_fit rest depth) fun _ hrest ↦ .ok (hi.append hrest)

theorem property_fits : ∀ (p : Surface.Property) (depth : Nat),
    Yields (property depth p) fun a ↦ Fits depth p.parts a.parts
  | .entry k e, depth => by
    have hk := key_fits k depth
    have he := expr_fits e depth
    cases e with
    | function f =>
      exact hk.bind fun _ hk ↦ .bind (function_fits f depth _) fun _ hf ↦ .ok (hk.append hf)
    | _ => exact hk.bind fun _ hk ↦ he.bind fun _ he ↦ .ok (hk.entry he)
  | .accessor, _ => .refuse
  | .spread e, depth => .bind (expr_fits e depth) fun _ he ↦ .ok he
  | .cover _ _, _ => .refuse

theorem properties_fit : ∀ (ps : List Surface.Property) (depth : Nat),
    Yields (properties depth ps) fun as ↦
      Fits depth (ps.flatMap Surface.Property.parts) (as.flatMap Property.parts)
  | [], _ => .ok .nil
  | p :: rest, depth => .bind (property_fits p depth) fun _ hp ↦
    .bind (properties_fit rest depth) fun _ hrest ↦ .ok (hp.append hrest)

theorem key_fits : ∀ (k : Surface.PropertyKey) (depth : Nat),
    Yields (key depth k) fun a ↦ Fits depth k.parts a.parts
  | .fixed _, _ => .ok .nil
  | .computed e, depth => .bind (expr_fits e depth) fun _ he ↦ .ok he
  | .refused _, _ => .refuse

theorem target_fits : ∀ (t : Surface.Target) (depth : Nat) (otherwise : String),
    Yields (target otherwise depth t) fun a ↦ Fits depth t.parts a.parts
  | .name _, _, _ => .ok .nil
  | .member e _, depth, _ => .bind (expr_fits e depth) fun _ he ↦ .ok he
  | .index e k, depth, _ => .bind (expr_fits e depth) fun _ he ↦
    .bind (expr_fits k depth) fun _ hk ↦ .ok (he.append hk)
  | .privateMember, _, _ => .refuse
  | .pattern, _, _ => .refuse

/-- A pattern. -/
theorem pattern_fits : ∀ (p : Surface.Pattern) (depth : Nat),
    Yields (pattern depth p) fun a ↦ Fits depth [.pattern p] [.pattern a]
  | .name _, _ => .enter fun h ↦ .ok (.level h .nil)
  | .object fs rest, depth =>
    .enter fun h ↦ .bind (fields_fit fs (depth + 1)) fun _ hfs ↦
      .bind (optionPattern_fits rest (depth + 1)) fun _ hrest ↦ .ok (.level h (hfs.append hrest))
  | .array es rest, depth =>
    .enter fun h ↦ .bind (elements_fit es (depth + 1)) fun _ hes ↦
      .bind (optionPattern_fits rest (depth + 1)) fun _ hrest ↦ .ok (.level h (hes.append hrest))
  | .withDefault p e, depth =>
    .enter fun h ↦ .bind (pattern_fits p (depth + 1)) fun _ hp ↦
      .bind (expr_fits e (depth + 1)) fun _ he ↦ .ok (.level h (hp.append he))

theorem optionPattern_fits : ∀ (p : Option Surface.Pattern) (depth : Nat),
    Yields (optionPattern depth p) fun a ↦
      Fits depth (p.toList.map .pattern) (a.toList.map .pattern)
  | none, _ => .ok .nil
  | some p, depth => .bind (pattern_fits p depth) fun _ hp ↦ .ok hp

theorem parameters_fit : ∀ (ps : List Surface.Parameter) (depth : Nat),
    Yields (parameters depth ps) fun as ↦
      Fits depth (ps.flatMap Surface.Parameter.parts) (as.map .pattern)
  | [], _ => .ok .nil
  | .make p _ :: rest, depth => .bind (pattern_fits p depth) fun _ hp ↦
    .bind (parameters_fit rest depth) fun _ hrest ↦ .ok (hp.append hrest)

theorem elements_fit : ∀ (ps : List (Option Surface.Pattern)) (depth : Nat),
    Yields (elements depth ps) fun as ↦
      Fits depth (ps.flatMap fun p ↦ p.toList.map .pattern) (as.flatMap fun p ↦ p.toList.map .pattern)
  | [], _ => .ok .nil
  | p :: rest, depth => .bind (optionPattern_fits p depth) fun _ hp ↦
    .bind (elements_fit rest depth) fun _ hrest ↦ .ok (hp.append hrest)

theorem field_fits : ∀ (f : Surface.PatternField) (depth : Nat),
    Yields (field depth f) fun a ↦ Fits depth f.parts a.parts
  | .field k p, depth => .bind (key_fits k depth) fun _ hk ↦
    .bind (pattern_fits p depth) fun _ hp ↦ .ok (hk.append hp)

theorem fields_fit : ∀ (fs : List Surface.PatternField) (depth : Nat),
    Yields (fields depth fs) fun as ↦
      Fits depth (fs.flatMap Surface.PatternField.parts) (as.flatMap PatternField.parts)
  | [], _ => .ok .nil
  | f :: rest, depth => .bind (field_fits f depth) fun _ hf ↦
    .bind (fields_fit rest depth) fun _ hrest ↦ .ok (hf.append hrest)

/-- A function, its parameters with their defaults included. -/
theorem function_fits : ∀ (f : Surface.Function) (depth : Nat) (inferred : Option String),
    Yields (function depth inferred f) fun a ↦ Fits depth f.parts a.parts
  | .make _ _ params rest body, depth, _ =>
    .guarded (.bind (parameters_fit params depth) fun _ hparams ↦
      .bind (optionPattern_fits rest depth) fun _ hrest ↦
      .bind (block_fits body depth) fun _ hbody ↦ .ok (hparams.append (hrest.append hbody)))

/-- A statement. -/
theorem stmt_fits : ∀ (s : Surface.Stmt) (depth : Nat),
    Yields (stmt depth s) fun a ↦ Fits depth [.stmt s] [.stmt a]
  | .expr e, depth =>
    .enter fun h ↦ .bind (expr_fits e (depth + 1)) fun _ he ↦ .ok (.level h he)
  | .declare _ ds, depth =>
    .enter fun h ↦ .bind (declarators_fit ds (depth + 1)) fun _ hds ↦ .ok (.level h hds)
  | .function f, depth =>
    .enter fun h ↦ .bind (function_fits f (depth + 1) none) fun _ hf ↦ .ok (.level h hf)
  | .return e, depth =>
    .enter fun h ↦ .bind (optionExpr_fits e (depth + 1)) fun _ he ↦ .ok (.level h he)
  | .ifElse t a b, depth =>
    .enter fun h ↦ .bind (expr_fits t (depth + 1)) fun _ ht ↦
      .bind (stmt_fits a (depth + 1)) fun _ ha ↦
      .bind (optionStmt_fits b (depth + 1)) fun _ hb ↦ .ok (.level h (ht.append (ha.append hb)))
  | .block body, depth =>
    .enter fun h ↦ .bind (block_fits body (depth + 1)) fun _ hbody ↦ .ok (.level h hbody)
  | .forLoop init test update body, depth =>
    .enter fun h ↦ .bind (forInit_fits init (depth + 1)) fun _ hinit ↦
      .bind (optionExpr_fits test (depth + 1)) fun _ htest ↦
      .bind (optionExpr_fits update (depth + 1)) fun _ hupdate ↦
      .bind (stmt_fits body (depth + 1)) fun _ hbody ↦
        .ok (.level h (hinit.append (htest.append (hupdate.append hbody))))
  | .forOf _ left e body, depth =>
    .enter fun h ↦ .guarded (.bind (forLeft_fits left (depth + 1)) fun _ hleft ↦
      .bind (expr_fits e (depth + 1)) fun _ he ↦
      .bind (stmt_fits body (depth + 1)) fun _ hbody ↦
        .ok (.level h (hleft.append (he.append hbody))))
  | .forIn left e body, depth =>
    .enter fun h ↦ .bind (forLeft_fits left (depth + 1)) fun _ hleft ↦
      .bind (expr_fits e (depth + 1)) fun _ he ↦
      .bind (stmt_fits body (depth + 1)) fun _ hbody ↦
        .ok (.level h (hleft.append (he.append hbody)))
  | .whileLoop t body, depth =>
    .enter fun h ↦ .bind (expr_fits t (depth + 1)) fun _ ht ↦
      .bind (stmt_fits body (depth + 1)) fun _ hbody ↦ .ok (.level h (ht.append hbody))
  | .doWhile body t, depth =>
    .enter fun h ↦ .bind (stmt_fits body (depth + 1)) fun _ hbody ↦
      .bind (expr_fits t (depth + 1)) fun _ ht ↦ .ok (.level h (hbody.append ht))
  | .switch e cs, depth =>
    .enter fun h ↦ .bind (expr_fits e (depth + 1)) fun _ he ↦
      .bind (cases_fit cs (depth + 1)) fun _ hcs ↦ .ok (.level h (he.append hcs))
  | .break (some _), _ => .enter fun _ ↦ .refuse
  | .break none, _ => .enter fun h ↦ .ok (.level h .nil)
  | .continue (some _), _ => .enter fun _ ↦ .refuse
  | .continue none, _ => .enter fun h ↦ .ok (.level h .nil)
  | .throw e, depth =>
    .enter fun h ↦ .bind (expr_fits e (depth + 1)) fun _ he ↦ .ok (.level h he)
  | .tryCatch body param handler finalizer, depth =>
    .enter fun h ↦ .bind (optionPattern_fits param (depth + 1)) fun _ hparam ↦
      .bind (optionBlock_fits handler (depth + 1)) fun _ hhandler ↦
      .bind (block_fits body (depth + 1)) fun _ hbody ↦
      .bind (optionBlock_fits finalizer (depth + 1)) fun _ hfinalizer ↦
        .ok (.level h (hparam.append (hhandler.append (hbody.append hfinalizer))))
  | .empty, _ => .enter fun h ↦ .ok (.level h .nil)
  | .refused _, _ => .enter fun _ ↦ .refuse

theorem optionStmt_fits : ∀ (s : Option Surface.Stmt) (depth : Nat),
    Yields (optionStmt depth s) fun a ↦ Fits depth (s.toList.map .stmt) (a.toList.map .stmt)
  | none, _ => .ok .nil
  | some s, depth => .bind (stmt_fits s depth) fun _ hs ↦ .ok hs

theorem forInit_fits : ∀ (init : Option Surface.Stmt) (depth : Nat),
    Yields (forInit depth init) fun a ↦
      Fits depth (init.toList.flatMap Surface.Stmt.initParts) (a.toList.flatMap Stmt.initParts)
  | none, _ => .ok .nil
  | some s, depth => by
    cases s with
    | expr e => exact .bind (expr_fits e depth) fun _ he ↦ .ok he
    | declare _ ds => exact .bind (declarators_fit ds depth) fun _ hds ↦ .ok (hds.append .nil)
    | _ => exact .refuse

theorem forLeft_fits : ∀ (left : Surface.ForLeft) (depth : Nat),
    Yields (forLeft depth left) fun a ↦ Fits depth left.parts [.pattern a.2]
  | .declaration _ (.declare p _ :: _), depth => .bind (pattern_fits p depth) fun _ hp ↦ .ok hp
  | .declaration _ [], _ => .refuse
  | .using, _ => .refuse
  | .target, _ => .refuse

/-- A block. -/
theorem block_fits : ∀ (body : List Surface.Stmt) (depth : Nat),
    Yields (block depth body) fun as ↦ Fits depth (body.map .stmt) (as.map .stmt)
  | [], _ => .ok .nil
  | s :: rest, depth => .bind (stmt_fits s depth) fun _ hs ↦
    .bind (block_fits rest depth) fun _ hrest ↦ .ok (hs.append hrest)

theorem optionBlock_fits : ∀ (body : Option (List Surface.Stmt)) (depth : Nat),
    Yields (optionBlock depth body) fun a ↦
      Fits depth ((body.getD []).map .stmt) ((a.getD []).map .stmt)
  | none, _ => .ok .nil
  | some body, depth => .bind (block_fits body depth) fun _ hbody ↦ .ok hbody

theorem declarator_fits : ∀ (d : Surface.Declarator) (depth : Nat),
    Yields (declarator depth d) fun a ↦ Fits depth d.parts a.parts
  | .declare p e, depth => .bind (pattern_fits p depth) fun _ hp ↦
    .bind (optionExpr_fits e depth) fun _ he ↦ .ok (hp.append he)

theorem declarators_fit : ∀ (ds : List Surface.Declarator) (depth : Nat),
    Yields (declarators depth ds) fun as ↦
      Fits depth (ds.flatMap Surface.Declarator.parts) (as.flatMap Declarator.parts)
  | [], _ => .ok .nil
  | d :: rest, depth => .bind (declarator_fits d depth) fun _ hd ↦
    .bind (declarators_fit rest depth) fun _ hrest ↦ .ok (hd.append hrest)

theorem case_fits : ∀ (c : Surface.SwitchCase) (depth : Nat),
    Yields (case_ depth c) fun a ↦ Fits depth c.parts a.parts
  | .case t body, depth => .bind (optionExpr_fits t depth) fun _ ht ↦
    .bind (block_fits body depth) fun _ hbody ↦ .ok (ht.append hbody)

theorem cases_fit : ∀ (cs : List Surface.SwitchCase) (depth : Nat),
    Yields (cases depth cs) fun as ↦
      Fits depth (cs.flatMap Surface.SwitchCase.parts) (as.flatMap SwitchCase.parts)
  | [], _ => .ok .nil
  | c :: rest, depth => .bind (case_fits c depth) fun _ hc ↦
    .bind (cases_fit rest depth) fun _ hrest ↦ .ok (hc.append hrest)

end

end Subset

/-! ### Main results -/

section

variable {α : Type}

/-- No path down from these takes more levels than a script may have. -/
def Shallow (parts : α → List α) (roots : List α) : Prop :=
  ∀ x ∈ roots, ∀ path, IsPath parts (x :: path) → (x :: path).length ≤ maxNesting

/-- Shallow trees nest within the bound. -/
theorem shallow_iff {parts : α → List α} {roots : List α} :
    Shallow parts roots ↔ ∀ x ∈ roots, NestsWithin parts maxNesting x := by
  simp only [Shallow, nestsWithin_iff]

instance (parts : α → List α) (roots : List α) : Decidable (Shallow parts roots) :=
  decidable_of_iff _ shallow_iff.symm

end

/-- The functions in a tree. -/
inductive Level.HasFunction : Level → FunctionDef → Prop
  | expr (f : FunctionDef) : HasFunction (.expr (.function f)) f
  | stmt (f : FunctionDef) : HasFunction (.stmt (.function f)) f
  | method {ps : List Property} {k : PropertyKey} {f : FunctionDef} :
    .entry k (.function f) ∈ ps → HasFunction (.expr (.object ps)) f
  | chain {inner : Expr} {f : FunctionDef} :
    HasFunction (.expr inner) f → HasFunction (.expr (.chain inner)) f
  | part {x y : Level} {f : FunctionDef} : y ∈ x.parts → HasFunction y f → HasFunction x f

/-- The code of a function nests no more deeply than what holds it. -/
theorem Level.HasFunction.nestsWithin {x : Level} {f : FunctionDef} {n : Nat}
    (hf : x.HasFunction f) (h : NestsWithin Level.parts n x) :
    ∀ y ∈ f.parts, NestsWithin Level.parts n y := by
  induction hf with
  | expr f => exact fun y hy ↦ h.of_part hy
  | stmt f => exact fun y hy ↦ h.of_part hy
  | method hmem =>
    exact fun y hy ↦ h.of_part
      (List.mem_flatMap.2 ⟨_, hmem, List.mem_append_right _ hy⟩)
  | chain _ ih =>
    refine ih ?_
    cases n with
    | zero => exact h
    | succ n => exact h
  | part hy _ ih => exact ih (h.of_part hy)

theorem readWith_ok {α β : Type} {source : String} {parse : String → Option α}
    {accept : α → Subset.Result β} {b : β} (h : readWith source parse accept = .ok b) :
    ∃ a, parse source = some a ∧ accept a = .ok b := by
  unfold readWith at h
  split at h
  · exact nomatch h
  · split at h
    · exact nomatch h
    · rename_i a ha
      refine ⟨a, ha, ?_⟩
      cases haccept : accept a with
      | ok c => rw [haccept] at h; exact congrArg Except.ok (Except.ok.inj h)
      | error e => rw [haccept] at h; exact nomatch h

/-- A text that is parsed is accepted, or refused for a reason. -/
theorem readWith_cases {α β : Type} {source : String} {parse : String → Option α}
    {accept : α → Subset.Result β} {a : α} (ha : parse source = some a) :
    (∃ why, readWith source parse accept = .error (.refused why)) ∨
      ∃ b, accept a = .ok b := by
  unfold readWith
  split
  · exact .inl ⟨_, rfl⟩
  · rw [ha]
    dsimp only
    cases accept a with
    | ok b => exact .inr ⟨b, rfl⟩
    | error e => exact .inl ⟨e, rfl⟩

/-- Scripts that are read nest no deeper than `maxNesting` levels, and so does the code of every
function in them, which is what a call of it goes down through. A text that is written deeper, not
counting what is omitted, is refused. -/
theorem scripts_nest_shallowly (source : String) :
    (∀ body, readScript source = .ok body →
      Shallow Level.parts (body.map .stmt) ∧
      ∀ s ∈ body, ∀ f, (Level.stmt s).HasFunction f → Shallow Level.parts f.parts) ∧
    (∀ e, readExpression source = .ok e →
      Shallow Level.parts [.expr e] ∧
      ∀ f, (Level.expr e).HasFunction f → Shallow Level.parts f.parts) ∧
    (∀ body, Surface.script? source = some body →
      ¬Shallow Surface.Level.parts (body.map .stmt) →
      ∃ why, readScript source = .error (.refused why)) ∧
    ∀ e, Surface.expression? source = some e →
      ¬Shallow Surface.Level.parts [.expr e] →
      ∃ why, readExpression source = .error (.refused why) := by
  refine ⟨fun body hbody ↦ ?_, fun e he ↦ ?_, fun body hbody hdeep ↦ ?_, fun e he hdeep ↦ ?_⟩
  · obtain ⟨written, -, haccept⟩ := readWith_ok hbody
    have hfits := Subset.block_fits written 0 body haccept
    refine ⟨shallow_iff.2 fun x hx ↦ hfits.read hx, fun s hs f hf ↦ shallow_iff.2 ?_⟩
    exact hf.nestsWithin (hfits.read (List.mem_map_of_mem hs))
  · obtain ⟨written, -, haccept⟩ := readWith_ok he
    have hfits := Subset.expr_fits written 0 e haccept
    refine ⟨shallow_iff.2 fun x hx ↦ hfits.read hx, fun f hf ↦ shallow_iff.2 ?_⟩
    exact hf.nestsWithin (hfits.read (List.mem_singleton_self _))
  · refine (readWith_cases hbody).resolve_right ?_
    rintro ⟨read, haccept⟩
    exact hdeep (shallow_iff.2 fun x hx ↦ (Subset.block_fits body 0 read haccept).written hx)
  · refine (readWith_cases he).resolve_right ?_
    rintro ⟨read, haccept⟩
    exact hdeep (shallow_iff.2 fun x hx ↦ (Subset.expr_fits e 0 read haccept).written hx)

/-- A number that is complemented so many times. Each time is a level. -/
def complements (n : Nat) : String := String.ofList (List.replicate n '~' ++ ['1'])

theorem exists_eq_ok {ε α : Type} {x : Except ε α} (h : x.toOption.isSome = true) :
    ∃ a, x = .ok a := by
  cases x with
  | ok a => exact ⟨a, rfl⟩
  | error e => exact nomatch h

/-- A number that is complemented once is read. As a statement it is not read any more if that is
done 63 times, and as an expression if it is done 64 times. -/
theorem scripts_nest_shallowly_complements :
    (∃ body, readScript (complements 1) = .ok body ∧ Shallow Level.parts (body.map .stmt)) ∧
    (∃ e, readExpression (complements 1) = .ok e ∧ Shallow Level.parts [.expr e]) ∧
    (∃ why, readScript (complements 63) = .error (.refused why)) ∧
    ∃ why, readExpression (complements 64) = .error (.refused why) := by
  obtain ⟨body, hbody⟩ := exists_eq_ok (x := readScript (complements 1)) (by decide +kernel)
  obtain ⟨e, he⟩ := exists_eq_ok (x := readExpression (complements 1)) (by decide +kernel)
  have hscript : ((Surface.script? (complements 63)).any fun body ↦
      !decide (Shallow Surface.Level.parts (body.map .stmt))) = true := by decide +kernel
  have hexpr : ((Surface.expression? (complements 64)).any fun e ↦
      !decide (Shallow Surface.Level.parts [.expr e])) = true := by decide +kernel
  obtain ⟨deepBody, hdeepBody, hnotBody⟩ := (Option.any_eq_true _ _).1 hscript
  obtain ⟨deepExpr, hdeepExpr, hnotExpr⟩ := (Option.any_eq_true _ _).1 hexpr
  simp only [Bool.not_eq_true', decide_eq_false_iff_not] at hnotBody hnotExpr
  exact ⟨⟨body, hbody, ((scripts_nest_shallowly _).1 body hbody).1⟩,
    ⟨e, he, ((scripts_nest_shallowly _).2.1 e he).1⟩,
    (scripts_nest_shallowly _).2.2.1 deepBody hdeepBody hnotBody,
    (scripts_nest_shallowly _).2.2.2 deepExpr hdeepExpr hnotExpr⟩

/-- Sixty levels that stand before an operand, and four that only the tree shows. -/
def deepExpression : String := String.ofList (List.replicate 60 '~') ++ "x*x*x*x*x"

def deepDefault : String := "function f(a = " ++ deepExpression ++ ") \x7b\x7d"

def deepBinding : String := "for (const a = " ++ deepExpression ++ " of []);"

theorem exists_read_of_block {source : String} {P : List Surface.Stmt → Prop} [DecidablePred P]
    (hscan : nestsShallowly source = true)
    (h : ((Surface.script? source).any fun written ↦
      decide (P written) && (Subset.block 0 written).toOption.isSome) = true) :
    ∃ written read, Surface.script? source = some written ∧ P written ∧
      readScript source = .ok read := by
  obtain ⟨written, hwritten, h⟩ := (Option.any_eq_true _ _).1 h
  obtain ⟨hP, hblock⟩ := Bool.and_eq_true_iff.1 h
  obtain ⟨read, hread⟩ := exists_eq_ok hblock
  refine ⟨written, read, hwritten, of_decide_eq_true hP, ?_⟩
  unfold readScript readWith
  rw [hscan, hwritten]
  exact congrArg (Except.mapError ReadError.refused) hread

/-- What stands in the default of a parameter, or is the value of a loop's binding, is read and taken
into no tree, however deep it is written. -/
theorem deep_omissions_accepted :
    (∃ written read, Surface.script? deepDefault = some written ∧
      ¬Shallow Surface.Level.allParts (written.map .stmt) ∧ readScript deepDefault = .ok read) ∧
    ∃ written read, Surface.script? deepBinding = some written ∧
      ¬Shallow Surface.Level.allParts (written.map .stmt) ∧ readScript deepBinding = .ok read :=
  ⟨exists_read_of_block (P := fun written ↦ ¬Shallow Surface.Level.allParts (written.map .stmt))
      (by decide +kernel) (by decide +kernel),
    exists_read_of_block (P := fun written ↦ ¬Shallow Surface.Level.allParts (written.map .stmt))
      (by decide +kernel) (by decide +kernel)⟩

end Nodecraft.Script
