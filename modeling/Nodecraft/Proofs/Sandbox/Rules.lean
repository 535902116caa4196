import Nodecraft.Proofs.Sandbox.Methods
import Nodecraft.Sandbox.Evaluation.Call

/-!
# Congruences and the rules of evaluation

Two machines are related up to a size if they answer related actions to every question about a
smaller piece of syntax, and to every call. The rule for a construct asks its machine only about
parts of the construct, so related machines give related rules: one lemma for each rule, and from
them one for expressions, links, statements, patterns, whole programs and calls.

The size is twice the size of the syntax, so that asking for an expression as a link and then as a
value still goes down.
-/

set_option autoImplicit false

namespace Nodecraft.Sandbox

open Script Evaluation

/-- A budget of steps that is used up in the middle of a run. -/
def Run.IsSpent (r : Run) : Prop := 0 < r.nesting ∧ ∃ b, r.limits.maxSteps = some b ∧ b < r.steps

/-- An action that gets no statement done once the budget is used up: it ends normally, raises the
same error again or is broken off. -/
def Action.Stalls (x : Action Completion) : Prop :=
  ∀ w, w.run.IsSpent → w.run.hasRoom → match x w with
    | .ok c w' => c = .normal ∧ w'.run = w.run
    | .error e w' => e = .unfinished ∨ (∃ b, e = .raised (.stepBudget b)) ∧ w'.run.IsSpent

/-- An action that raises nothing of its own without room for another entry: it is refused, is broken
off or ends without an error. -/
def Action.NeedsRoom (x : Action Completion) : Prop :=
  ∀ w, ¬w.run.hasRoom → match x w with
    | .ok _ _ => True
    | .error e _ => e = .unfinished ∨ e = .raised .stackExhausted

/-- A statement that gets nothing done without room for another entry or once the budget is used
up. -/
structure Action.Halts (x : Action Completion) : Prop where
  cramped (w : World) : ¬w.run.hasRoom → match x w with
    | .ok _ _ => False
    | .error e _ => e = .unfinished ∨ e = .raised .stackExhausted
  spent (w : World) : w.run.IsSpent → w.run.hasRoom → match x w with
    | .ok _ _ => False
    | .error e w' => e = .unfinished ∨ (∃ b, e = .raised (.stepBudget b)) ∧ w'.run.IsSpent

/-- A guarded action and its finalizer. -/
structure Action.Finalized (x f : Action Completion) : Prop where
  needsRoom : x.NeedsRoom
  stalls : f.Stalls

/-- What is left of a list after its first elements is no larger than the list. -/
theorem sizeOf_drop_le {α : Type} [SizeOf α] (l : List α) :
    ∀ n, SizeOf.sizeOf (l.drop n) ≤ SizeOf.sizeOf l := by
  induction l with
  | nil => intro n; simp
  | cons a l ih =>
    intro n
    cases n with
    | zero => simp
    | succ n =>
      have := ih n
      simp only [List.drop_succ_cons, List.cons.sizeOf_spec]
      omega

/-- Declaring the functions of a block only changes the heap. -/
theorem Evaluation.hoist_eq (s : ScopeId) (body : List Stmt) :
    ∀ w, ∃ h, hoist s body w = .ok () { w with heap := h } := by
  induction body with
  | nil => intro w; exact ⟨w.heap, rfl⟩
  | cons stmt rest ih =>
    intro w
    cases stmt with
    | function code =>
      obtain ⟨h, hh⟩ := ih _
      exact ⟨h, hh⟩
    | _ => exact ih w

/-- A block declares its functions in a scope of its own before its first statement runs. -/
theorem Evaluation.innerBlock_eq (m : Machine) (s : ScopeId) (body : List Stmt) (w : World) :
    ∃ inner h, innerBlock m s body w = statements m inner body { w with heap := h } := by
  let inner := (w.heap.newScope ⟨[], some s, none, none, false⟩).1
  let w₁ : World := { w with heap := (w.heap.newScope ⟨[], some s, none, none, false⟩).2 }
  obtain ⟨h, hhoist⟩ := hoist_eq inner body w₁
  refine ⟨inner, h, ?_⟩
  change (hoist inner body >>= fun _ ↦ statements m inner body) w₁ = _
  rw [Action.bind_apply, hhoist]

section

variable {m : Machine} (hm : ∀ s stmt, (m.exec s stmt).Halts)

include hm

/-- A block whose statements cannot be executed stalls at the first of them. -/
theorem Evaluation.stalls_innerBlock (s : ScopeId) (body : List Stmt) :
    (innerBlock m s body).Stalls := by
  intro w hw hroom
  obtain ⟨inner, h, hblock⟩ := innerBlock_eq m s body w
  rw [hblock]
  cases body with
  | nil => exact ⟨rfl, rfl⟩
  | cons stmt rest =>
    have hstmt := (hm inner stmt).spent { w with heap := h } hw hroom
    rw [statements, Action.bind_apply]
    cases hexec : m.exec inner stmt { w with heap := h } with
    | ok c w' => rw [hexec] at hstmt; exact hstmt.elim
    | error e w' => rw [hexec] at hstmt; exact hstmt

theorem Evaluation.needsRoom_innerBlock (s : ScopeId) (body : List Stmt) :
    (innerBlock m s body).NeedsRoom := by
  intro w hroom
  obtain ⟨inner, h, hblock⟩ := innerBlock_eq m s body w
  rw [hblock]
  cases body with
  | nil => exact trivial
  | cons stmt rest =>
    have hstmt := (hm inner stmt).cramped { w with heap := h } hroom
    rw [statements, Action.bind_apply]
    cases hexec : m.exec inner stmt { w with heap := h } with
    | ok c w' => rw [hexec] at hstmt; exact hstmt.elim
    | error e w' => rw [hexec] at hstmt; exact hstmt

/-- A script cannot catch that there is no room. -/
theorem Evaluation.needsRoom_guarded (s : ScopeId) (body : List Stmt) (param : Option Pattern)
    (handler : Option (List Stmt)) : (guarded m s body param handler).NeedsRoom := by
  have hbody := needsRoom_innerBlock hm s body
  cases handler with
  | none => exact hbody
  | some handler =>
    intro w hroom
    have hinner := hbody w hroom
    have hnot : ¬Catchable (innerBlock m s body w) := by
      rintro ⟨e, w', heq, he⟩
      rw [heq] at hinner
      rcases hinner with h | h
      · cases h
      · cases h
        exact Bool.false_ne_true he
    change match Action.catching (innerBlock m s body) (handle m s param handler) w with
      | .ok _ _ => True
      | .error e _ => e = .unfinished ∨ e = .raised .stackExhausted
    rwa [Action.catching_of_not hnot]

end

/-- Machines that give related actions for what binding a pattern below a size asks of them. -/
structure Machine.Asked (R : (α : Type) → Action α → Action α → Prop)
    (Admits : FunctionDef → Prop) (size : Nat) (m m' : Machine) : Prop
    extends Congruence R Admits where
  eval (s : ScopeId) (e : Expr) : 2 * SizeOf.sizeOf e < size →
    R Value (m.eval s e) (m'.eval s e)
  pattern (kind : DeclKind) (s : ScopeId) (p : Pattern) (v : Value) :
    2 * SizeOf.sizeOf p < size → R Unit (m.bind kind s p v) (m'.bind kind s p v)
  call : Caller.Related R m.call m'.call

namespace Machine.Asked

variable {R : (α : Type) → Action α → Action α → Prop} {Admits : FunctionDef → Prop}
  {size : Nat} {m m' : Machine} (h : Machine.Asked R Admits size m m')

include h

/-! ### Patterns -/

theorem propertyKey (s : ScopeId) (key : PropertyKey) (hk : 2 * SizeOf.sizeOf key ≤ size) :
    R String (propertyKey m s key) (propertyKey m' s key) := by
  cases key with
  | fixed name => exact h.pure name
  | computed e =>
    simp only [PropertyKey.computed.sizeOf_spec] at hk
    exact h.bind (h.eval s e (by omega)) fun _ ↦ h.read fun _ ↦ h.pure _

theorem readFields (v : Value) (keys : List String) :
    R (List (String × Value)) (readFields m v keys) (readFields m' v keys) := by
  induction keys with
  | nil => exact h.pure _
  | cons key rest ih =>
    exact h.bind (h.getProperty h.call v key) fun _ ↦ h.bind ih fun _ ↦ h.pure _

theorem bindFields (kind : DeclKind) (s : ScopeId) (v : Value) (fields : List PatternField)
    (hf : 2 * SizeOf.sizeOf fields ≤ size) :
    R (List String) (bindFields m kind s v fields) (bindFields m' kind s v fields) := by
  induction fields with
  | nil => exact h.pure _
  | cons field rest ih =>
    obtain ⟨key, target⟩ := field
    simp only [List.cons.sizeOf_spec, PatternField.field.sizeOf_spec] at hf
    refine h.bind (h.propertyKey s key (by omega)) fun key ↦
      h.bind (h.getProperty h.call v key) fun item ↦
      h.bind (h.pattern kind s target item (by omega)) fun _ ↦
      h.bind (ih (by omega)) fun _ ↦ h.pure _

theorem bindObject (kind : DeclKind) (s : ScopeId) (fields : List PatternField)
    (rest : Option Pattern) (v : Value)
    (hf : 2 * SizeOf.sizeOf fields ≤ size) (hr : 2 * SizeOf.sizeOf rest ≤ size) :
    R Unit (bindObject m kind s fields rest v) (bindObject m' kind s fields rest v) := by
  unfold Evaluation.bindObject
  split
  · exact h.bind (h.text v) fun _ ↦ h.typeError _ (.of_suffix (by decide))
  · refine h.bind (h.bindFields kind s v fields hf) fun used ↦ ?_
    cases rest with
    | none => exact h.pure _
    | some target =>
      simp only [Option.some.sizeOf_spec] at hr
      exact h.read fun _ ↦ h.bind (h.readFields v _) fun _ ↦ h.bind (h.newPlain _) fun _ ↦
        h.pattern kind s target _ (by omega)

theorem bindElements (kind : DeclKind) (s : ScopeId) (elements : List (Option Pattern))
    (he : 2 * SizeOf.sizeOf elements ≤ size) : ∀ values,
    R Unit (bindElements m kind s elements values) (bindElements m' kind s elements values) := by
  induction elements with
  | nil => intro values; exact h.pure _
  | cons element rest ih =>
    intro values
    simp only [List.cons.sizeOf_spec] at he
    cases element with
    | none => exact h.bind (h.pure _) fun _ ↦ ih (by omega) _
    | some target =>
      simp only [Option.some.sizeOf_spec] at he
      exact h.bind (h.pattern kind s target _ (by omega)) fun _ ↦ ih (by omega) _

theorem bindArray (kind : DeclKind) (s : ScopeId) (elements : List (Option Pattern))
    (rest : Option Pattern) (v : Value)
    (he : 2 * SizeOf.sizeOf elements ≤ size) (hr : 2 * SizeOf.sizeOf rest ≤ size) :
    R Unit (bindArray m kind s elements rest v) (bindArray m' kind s elements rest v) := by
  refine h.bind (h.iterate v) fun values ↦
    h.bind (h.bindElements kind s elements he values) fun _ ↦ ?_
  cases rest with
  | none => exact h.pure _
  | some target =>
    simp only [Option.some.sizeOf_spec] at hr
    exact h.bind (h.newArray _) fun _ ↦ h.pattern kind s target _ (by omega)

/-- A pattern is bound alike if the machines evaluate its defaults and computed keys alike. -/
theorem bindPattern (kind : DeclKind) (s : ScopeId) (v : Value) (p : Pattern)
    (hp : 2 * SizeOf.sizeOf p ≤ size) :
    R Unit (bindPattern m kind s v p) (bindPattern m' kind s v p) := by
  cases p with
  | name name => exact h.declareAs kind s name v
  | withDefault target fallback =>
    simp only [Pattern.withDefault.sizeOf_spec] at hp
    cases v with
    | undefined =>
      exact h.bind (h.eval s fallback (by omega)) fun v ↦ h.pattern kind s target v (by omega)
    | _ => exact h.pattern kind s target _ (by omega)
  | object fields rest =>
    simp only [Pattern.object.sizeOf_spec] at hp
    exact h.bindObject kind s fields rest v (by omega) (by omega)
  | array elements rest =>
    simp only [Pattern.array.sizeOf_spec] at hp
    exact h.bindArray kind s elements rest v (by omega) (by omega)

end Machine.Asked

/-- Machines that relate the room for entries relate entries. -/
theorem Congruence.nested {R : (α : Type) → Action α → Action α → Prop}
    {Admits : FunctionDef → Prop} (hR : Congruence R Admits) {m m' : Machine}
    (hroom : R Unit m.room m'.room) {α : Type} {x y : Action α} (hxy : R α x y) :
    R α (m.nested x) (m'.nested y) :=
  hR.bind hroom fun _ ↦ hR.entering hxy

/-- Machines that relate the functions that they invoke relate their calls. -/
theorem Congruence.machineCall {R : (α : Type) → Action α → Action α → Prop}
    {Admits : FunctionDef → Prop} (hR : Congruence R Admits) {m m' : Machine}
    (hroom : R Unit m.room m'.room)
    (hinvoke : ∀ f self args, R Value (m.invoke f self args) (m'.invoke f self args)) :
    Caller.Related R m.call m'.call := by
  intro f self args
  cases f with
  | function id => exact hR.nested hroom (hinvoke id self args)
  | _ => exact hR.typeError _ (.of_suffix (by decide))

/-- Machines that answer related actions to questions below a size. -/
structure Machine.Related (R : (α : Type) → Action α → Action α → Prop)
    (Admits : FunctionDef → Prop) (size : Nat) (m m' : Machine) : Prop
    extends Congruence R Admits where
  admits (code : FunctionDef) : 2 * SizeOf.sizeOf code < size → Admits code
  step : R Unit m.step m'.step
  room : R Unit m.room m'.room
  erase (target : Value) (key : String) : R Unit (m.erase target key) (m'.erase target key)
  watches {c : Capability} : c.Watches → ∀ args,
    R Value (Action.capability m.call c args) (Action.capability m'.call c args)
  eval (s : ScopeId) (e : Expr) : 2 * SizeOf.sizeOf e < size →
    R Value (m.eval s e) (m'.eval s e)
  link (s : ScopeId) (e : Expr) : 2 * SizeOf.sizeOf e + 1 < size →
    R (Option Value) (m.link s e) (m'.link s e)
  exec (s : ScopeId) (stmt : Stmt) : 2 * SizeOf.sizeOf stmt < size →
    R Completion (m.exec s stmt) (m'.exec s stmt)
  pattern (kind : DeclKind) (s : ScopeId) (p : Pattern) (v : Value) :
    2 * SizeOf.sizeOf p < size → R Unit (m.bind kind s p v) (m'.bind kind s p v)
  invoke (f : FunctionId) (self : Value) (args : List Value) :
    R Value (m.invoke f self args) (m'.invoke f self args)
  finalize {x y f g : Action Completion} : R Completion x y → R Completion f g →
    x.Finalized f → y.Finalized g → R Completion (m.finalize x f) (m'.finalize y g)
  loop {again again' : Action Bool} {round round' : Action (Option Completion)} :
    R Bool again again' → R (Option Completion) round round' →
    R Completion (repeatRounds m.step again round m.rounds)
      (repeatRounds m'.step again' round' m'.rounds)
  halts (s : ScopeId) (stmt : Stmt) : (m.exec s stmt).Halts
  halts' (s : ScopeId) (stmt : Stmt) : (m'.exec s stmt).Halts

namespace Machine.Related

variable {R : (α : Type) → Action α → Action α → Prop} {Admits : FunctionDef → Prop}
  {size : Nat} {m m' : Machine} (h : Machine.Related R Admits size m m')

include h

theorem nested {α : Type} {x y : Action α} (hxy : R α x y) : R α (m.nested x) (m'.nested y) :=
  h.toCongruence.nested h.room hxy

/-- Related machines call functions from outside alike. -/
theorem call : Caller.Related R m.call m'.call := h.machineCall h.room h.invoke

/-- What a larger part of the syntax asks of a machine is asked of its parts. -/
theorem asked : Machine.Asked R Admits size m m' :=
  { h with call := h.call }

/-- A closure is admitted with the code around it. -/
theorem closure (s : ScopeId) (code : FunctionDef) (hc : 2 * SizeOf.sizeOf code < size) :
    R Value (closure s code) (closure s code) :=
  h.newFunction _ (h.admits code hc)

/-! ### Expressions -/

theorem templateText (s : ScopeId) (es : List Expr) (he : 2 * SizeOf.sizeOf es ≤ size) : ∀ texts,
    R String (templateText m s texts es) (templateText m' s texts es) := by
  induction es with
  | nil =>
    intro texts
    induction texts with
    | nil => exact h.pure _
    | cons t texts ih => exact h.bind ih fun _ ↦ h.pure _
  | cons e rest ih =>
    intro texts
    simp only [List.cons.sizeOf_spec] at he
    cases texts with
    | nil => exact h.pure _
    | cons t texts =>
      exact h.bind (h.eval s e (by omega)) fun v ↦ h.bind (h.text v) fun _ ↦
        h.bind (ih (by omega) texts) fun _ ↦ h.pure _

theorem values (s : ScopeId) (items : List Item) (hi : 2 * SizeOf.sizeOf items ≤ size) :
    R (List Value) (values m s items) (values m' s items) := by
  induction items with
  | nil => exact h.pure _
  | cons item rest ih =>
    simp only [List.cons.sizeOf_spec] at hi
    cases item with
    | value e =>
      simp only [Item.value.sizeOf_spec] at hi
      exact h.bind (h.eval s e (by omega)) fun _ ↦ h.bind (ih (by omega)) fun _ ↦ h.pure _
    | spread e =>
      simp only [Item.spread.sizeOf_spec] at hi
      exact h.bind (h.eval s e (by omega)) fun v ↦ h.bind (h.iterate v) fun _ ↦
        h.bind (ih (by omega)) fun _ ↦ h.pure _
    | hole => exact h.bind (ih (by omega)) fun _ ↦ h.pure _

theorem objectFields (s : ScopeId) (properties : List Property)
    (hp : 2 * SizeOf.sizeOf properties ≤ size) : ∀ fields,
    R (Fields Value) (objectFields m s fields properties)
      (objectFields m' s fields properties) := by
  induction properties with
  | nil => intro fields; exact h.pure _
  | cons property rest ih =>
    intro fields
    simp only [List.cons.sizeOf_spec] at hp
    cases property with
    | entry key e =>
      simp only [Property.entry.sizeOf_spec] at hp
      exact h.bind (h.asked.propertyKey s key (by omega)) fun _ ↦
        h.bind (h.eval s e (by omega)) fun _ ↦ ih (by omega) _
    | spread e =>
      simp only [Property.spread.sizeOf_spec] at hp
      exact h.bind (h.eval s e (by omega)) fun v ↦ h.read fun _ ↦
        h.bind (h.asked.readFields v _) fun _ ↦ ih (by omega) _

theorem unaryExpr (s : ScopeId) (op : UnaryOp) (e : Expr) (he : 2 * SizeOf.sizeOf e < size) :
    R Value (unaryExpr m s op e) (unaryExpr m' s op e) := by
  unfold Evaluation.unaryExpr
  split
  · exact h.bind (h.lookup h.call _ s) fun _ ↦ h.pure _
  · exact h.bind (h.eval s _ he) fun v ↦ h.unary _ v

theorem memberKey (s : ScopeId) (key : MemberKey) (hk : 2 * SizeOf.sizeOf key ≤ size) :
    R String (memberKey m s key) (memberKey m' s key) := by
  cases key with
  | fixed name => exact h.pure name
  | computed e =>
    simp only [MemberKey.computed.sizeOf_spec] at hk
    exact h.bind (h.eval s e (by omega)) fun _ ↦ h.read fun _ ↦ h.pure _

theorem place (s : ScopeId) (target : Target) (ht : 2 * SizeOf.sizeOf target ≤ size) :
    R Place (place m s target) (place m' s target) := by
  cases target with
  | name n => exact h.pure _
  | member e key =>
    simp only [Target.member.sizeOf_spec] at ht
    exact h.bind (h.eval s e (by omega)) fun _ ↦
      h.bind (h.memberKey s key (by omega)) fun _ ↦ h.pure _

/-- A place is read as the value it leads to is read. -/
theorem readPlace (s : ScopeId) (p : Place) : R Value (readPlace m s p) (readPlace m' s p) := by
  cases p with
  | name n => exact h.readName h.call n s
  | member object key => exact h.getProperty h.call object key

/-- A place is written with the caller of the machine. -/
theorem writePlace (s : ScopeId) (v : Value) (p : Place) :
    R Unit (writePlace m s v p) (writePlace m' s v p) := by
  cases p with
  | name n => exact h.assign h.call n v s
  | member object key => exact h.setProperty h.call object key v

/-- The place is found before the value is computed, and both before the write. -/
theorem assignment (s : ScopeId) (op : AssignOp) (target : Target) (e : Expr)
    (ht : 2 * SizeOf.sizeOf target ≤ size) (he : 2 * SizeOf.sizeOf e < size) :
    R Value (assignment m s op target e) (assignment m' s op target e) := by
  refine h.bind (h.place s target ht) fun p ↦ ?_
  cases op with
  | plain =>
    exact h.bind (h.eval s e he) fun v ↦ h.bind (h.writePlace s v p) fun _ ↦ h.pure v
  | binary op =>
    exact h.bind (h.readPlace s p) fun current ↦ h.bind (h.eval s e he) fun v ↦
      h.bind (h.binary op current v) fun v ↦ h.bind (h.writePlace s v p) fun _ ↦ h.pure v
  | logical op =>
    refine h.bind (h.readPlace s p) fun current ↦ ?_
    split
    · exact h.pure current
    · exact h.bind (h.eval s e he) fun v ↦ h.bind (h.writePlace s v p) fun _ ↦ h.pure v

theorem updateExpr (s : ScopeId) (increment before : Bool) (target : Target)
    (ht : 2 * SizeOf.sizeOf target ≤ size) :
    R Value (updateExpr m s increment before target) (updateExpr m' s increment before target) :=
  h.bind (h.place s target ht) fun p ↦ h.bind (h.readPlace s p) fun v ↦
    h.bind (h.number v) fun _ ↦ h.bind (h.writePlace s _ p) fun _ ↦ h.pure _

theorem deleteExpr (s : ScopeId) (target : Target) (ht : 2 * SizeOf.sizeOf target ≤ size) :
    R Value (deleteExpr m s target) (deleteExpr m' s target) := by
  refine h.bind (h.place s target ht) fun p ↦ ?_
  cases p with
  | name n => exact h.bind (h.pure _) fun _ ↦ h.pure _
  | member object key => exact h.bind (h.erase object key) fun _ ↦ h.pure _

/-! ### Members and calls -/

/-- A marked link may end the chain before its key is computed. -/
theorem memberLink (s : ScopeId) (object : Expr) (key : MemberKey) (isOptional : Bool)
    (ho : 2 * SizeOf.sizeOf object + 1 < size) (hk : 2 * SizeOf.sizeOf key ≤ size) :
    R (Option Value) (memberLink m s object key isOptional)
      (memberLink m' s object key isOptional) := by
  refine h.bind (h.link s object ho) fun base ↦ ?_
  cases base with
  | none => exact h.pure _
  | some base =>
    dsimp only
    split
    · exact h.pure _
    · exact h.bind (h.memberKey s key hk) fun key ↦
        h.bind (h.getProperty h.call base key) fun _ ↦ h.pure _

theorem callee (s : ScopeId) (e : Expr) (he : 2 * SizeOf.sizeOf e + 1 < size) :
    R (Option (Value × Value)) (callee m s e) (callee m' s e) := by
  cases e with
  | member object key isOptional =>
    simp only [Expr.member.sizeOf_spec] at he
    refine h.bind (h.link s object (by omega)) fun base ↦ ?_
    cases base with
    | none => exact h.pure _
    | some base =>
      dsimp only
      split
      · exact h.pure _
      · exact h.bind (h.memberKey s key (by omega)) fun key ↦
          h.bind (h.getProperty h.call base key) fun _ ↦ h.pure _
  | _ => exact h.bind (h.link s _ he) fun _ ↦ h.pure _

/-- A marked call may end the chain before its arguments are computed. -/
theorem callLink (s : ScopeId) (target : Expr) (arguments : List Item) (isOptional : Bool)
    (ht : 2 * SizeOf.sizeOf target + 1 < size) (ha : 2 * SizeOf.sizeOf arguments ≤ size) :
    R (Option Value) (callLink m s target arguments isOptional)
      (callLink m' s target arguments isOptional) := by
  refine h.bind (h.callee s target ht) fun found ↦ ?_
  cases found with
  | none => exact h.pure _
  | some found =>
    dsimp only
    split
    · exact h.pure _
    · split
      · exact h.typeError _ (.of_suffix (by decide))
      · exact h.bind (h.values s arguments ha) fun args ↦
          h.bind (h.call found.1 found.2 args) fun _ ↦ h.pure _

/-- The links of a chain, from its base on. -/
theorem chainLink (s : ScopeId) (e : Expr) (he : 2 * SizeOf.sizeOf e + 1 ≤ size) :
    R (Option Value) (chainLink m s e) (chainLink m' s e) := by
  cases e with
  | member object key isOptional =>
    simp only [Expr.member.sizeOf_spec] at he
    exact h.memberLink s object key isOptional (by omega) (by omega)
  | call target arguments isOptional =>
    simp only [Expr.call.sizeOf_spec] at he
    exact h.callLink s target arguments isOptional (by omega) (by omega)
  | _ => exact h.map (h.eval s _ (by omega)) some

theorem sequence (s : ScopeId) (es : List Expr) (he : 2 * SizeOf.sizeOf es ≤ size) : ∀ last,
    R Value (sequence m s last es) (sequence m' s last es) := by
  induction es with
  | nil => intro last; exact h.pure last
  | cons e rest ih =>
    intro last
    simp only [List.cons.sizeOf_spec] at he
    exact h.bind (h.eval s e (by omega)) fun v ↦ ih (by omega) v

/-- Every expression is made of smaller ones, which related machines evaluate alike. -/
theorem expression (s : ScopeId) (e : Expr) (he : 2 * SizeOf.sizeOf e ≤ size) :
    R Value (expression m s e) (expression m' s e) := by
  cases e with
  | literal v => exact h.pure _
  | template texts es =>
    simp only [Expr.template.sizeOf_spec] at he
    exact h.map (h.templateText s es (by omega) texts) Value.string
  | name n => exact h.readName h.call n s
  | this => exact h.read fun _ ↦ h.pure _
  | array items =>
    simp only [Expr.array.sizeOf_spec] at he
    exact h.bind (h.values s items (by omega)) fun _ ↦ h.newArray _
  | object properties =>
    simp only [Expr.object.sizeOf_spec] at he
    exact h.bind (h.objectFields s properties (by omega) []) fun _ ↦ h.newPlain _
  | function code =>
    simp only [Expr.function.sizeOf_spec] at he
    exact h.closure s code (by omega)
  | unary op e =>
    simp only [Expr.unary.sizeOf_spec] at he
    exact h.unaryExpr s op e (by omega)
  | binary op a b =>
    simp only [Expr.binary.sizeOf_spec] at he
    exact h.bind (h.eval s a (by omega)) fun v ↦ h.bind (h.eval s b (by omega)) fun w ↦
      h.binary op v w
  | logical op a b =>
    simp only [Expr.logical.sizeOf_spec] at he
    refine h.bind (h.eval s a (by omega)) fun v ↦ ?_
    split
    · exact h.pure v
    · exact h.eval s b (by omega)
  | conditional t a b =>
    simp only [Expr.conditional.sizeOf_spec] at he
    refine h.bind (h.eval s t (by omega)) fun v ↦ ?_
    split
    · exact h.eval s a (by omega)
    · exact h.eval s b (by omega)
  | assign op target e =>
    simp only [Expr.assign.sizeOf_spec] at he
    exact h.assignment s op target e (by omega) (by omega)
  | update increment before target =>
    simp only [Expr.update.sizeOf_spec] at he
    exact h.updateExpr s increment before target (by omega)
  | delete target =>
    simp only [Expr.delete.sizeOf_spec] at he
    exact h.deleteExpr s target (by omega)
  | member object key isOptional =>
    simp only [Expr.member.sizeOf_spec] at he
    exact h.map (h.memberLink s object key isOptional (by omega) (by omega))
      (Option.getD · .undefined)
  | call target arguments isOptional =>
    simp only [Expr.call.sizeOf_spec] at he
    exact h.map (h.callLink s target arguments isOptional (by omega) (by omega))
      (Option.getD · .undefined)
  | chain inner =>
    simp only [Expr.chain.sizeOf_spec] at he
    exact h.map (h.link s inner (by omega)) (Option.getD · .undefined)
  | sequence es =>
    simp only [Expr.sequence.sizeOf_spec] at he
    exact h.sequence s es (by omega) _

/-! ### Statements -/

theorem hoist (s : ScopeId) (body : List Stmt) (hb : 2 * SizeOf.sizeOf body ≤ size) :
    R Unit (hoist s body) (hoist s body) := by
  induction body with
  | nil => exact h.pure _
  | cons stmt rest ih =>
    simp only [List.cons.sizeOf_spec] at hb
    cases stmt with
    | function code =>
      simp only [Stmt.function.sizeOf_spec] at hb
      exact h.bind (h.closure s code (by omega)) fun v ↦
        h.bind (h.declare s _ v true) fun _ ↦ ih (by omega)
    | _ => exact ih (by omega)

/-- Statements run alike up to the first that does not complete normally. -/
theorem statements (s : ScopeId) (body : List Stmt) (hb : 2 * SizeOf.sizeOf body ≤ size) :
    R Completion (statements m s body) (statements m' s body) := by
  induction body with
  | nil => exact h.pure _
  | cons stmt rest ih =>
    simp only [List.cons.sizeOf_spec] at hb
    refine h.bind (h.exec s stmt (by omega)) fun c ↦ ?_
    cases c with
    | normal => exact ih (by omega)
    | _ => exact h.pure _

theorem block (s : ScopeId) (body : List Stmt) (hb : 2 * SizeOf.sizeOf body ≤ size) :
    R Completion (block m s body) (block m' s body) :=
  h.bind (h.hoist s body hb) fun _ ↦ h.statements s body hb

theorem innerBlock (s : ScopeId) (body : List Stmt) (hb : 2 * SizeOf.sizeOf body ≤ size) :
    R Completion (innerBlock m s body) (innerBlock m' s body) :=
  h.bind (h.childScope s) fun inner ↦ h.block inner body hb

/-- A whole text: its functions are hoisted, then its statements run. -/
theorem program (s : ScopeId) (body : List Stmt) (hb : 2 * SizeOf.sizeOf body ≤ size) :
    R Value (program m s body) (program m' s body) := by
  refine h.bind (h.nested (h.block s body hb)) fun c ↦ ?_
  cases c with
  | «return» v => exact h.pure v
  | _ => exact h.pure _

theorem declarations (kind : DeclKind) (s : ScopeId) (ds : List Declarator)
    (hd : 2 * SizeOf.sizeOf ds ≤ size) :
    R Unit (declarations m kind s ds) (declarations m' kind s ds) := by
  induction ds with
  | nil => exact h.pure _
  | cons d rest ih =>
    obtain ⟨target, e⟩ := d
    simp only [List.cons.sizeOf_spec, Declarator.declare.sizeOf_spec] at hd
    have hrest (v : Value) :
        R Unit (m.bind kind s target v >>= fun _ ↦ Evaluation.declarations m kind s rest)
          (m'.bind kind s target v >>= fun _ ↦ Evaluation.declarations m' kind s rest) :=
      h.bind (h.pattern kind s target v (by omega)) fun _ ↦ ih (by omega)
    cases e with
    | none => exact h.bind (h.pure _) hrest
    | some e =>
      simp only [Option.some.sizeOf_spec] at hd
      exact h.bind (h.eval s e (by omega)) hrest

/-! ### Loops -/

theorem testHolds (s : ScopeId) (test : Option Expr) (ht : 2 * SizeOf.sizeOf test ≤ size) :
    R Bool (testHolds m s test) (testHolds m' s test) := by
  cases test with
  | none => exact h.pure _
  | some e =>
    simp only [Option.some.sizeOf_spec] at ht
    exact h.map (h.eval s e (by omega)) Value.isTruthy

/-- One round of a counting loop. -/
theorem forRound (s : ScopeId) (test update : Option Expr) (body : Stmt)
    (ht : 2 * SizeOf.sizeOf test ≤ size) (hu : 2 * SizeOf.sizeOf update ≤ size)
    (hb : 2 * SizeOf.sizeOf body < size) :
    R (Option Completion) (forRound m s test update body) (forRound m' s test update body) := by
  refine h.bind (h.testHolds s test ht) fun b ↦ ?_
  split
  · exact h.pure _
  · refine h.bind (h.childScope s) fun inner ↦ h.bind (h.exec inner body hb) fun c ↦ ?_
    split
    · exact h.pure _
    · cases update with
      | none => exact h.bind (h.pure _) fun _ ↦ h.pure _
      | some e =>
        simp only [Option.some.sizeOf_spec] at hu
        exact h.bind (h.discard (h.eval s e (by omega))) fun _ ↦ h.pure _

/-- A counting loop: where it does not end, the bound on the rounds decides. -/
theorem forLoop (s : ScopeId) (init : Option Stmt) (test update : Option Expr) (body : Stmt)
    (hi : 2 * SizeOf.sizeOf init ≤ size) (ht : 2 * SizeOf.sizeOf test ≤ size)
    (hu : 2 * SizeOf.sizeOf update ≤ size) (hb : 2 * SizeOf.sizeOf body < size) :
    R Completion (forLoop m s init test update body) (forLoop m' s init test update body) := by
  refine h.bind (h.childScope s) fun inner ↦ ?_
  have hrounds := h.loop (h.pure true) (h.forRound inner test update body ht hu hb)
  cases init with
  | none => exact h.bind (h.pure PUnit.unit) fun _ ↦ hrounds
  | some stmt =>
    simp only [Option.some.sizeOf_spec] at hi
    exact h.bind (h.discard (h.exec inner stmt (by omega))) fun _ ↦ hrounds

/-- A loop over items is rounds in a row. -/
theorem forEach {α : Type} {round round' : α → Action (Option Completion)}
    (hr : ∀ a, R (Option Completion) (round a) (round' a)) (items : List α) :
    R Completion (forEach round items) (forEach round' items) := by
  induction items with
  | nil => exact h.pure _
  | cons a rest ih =>
    refine h.bind (hr a) fun c ↦ ?_
    cases c with
    | none => exact ih
    | some c => exact h.pure c

theorem itemRound (kind : DeclKind) (s : ScopeId) (binding : Pattern) (body : Stmt)
    (hp : 2 * SizeOf.sizeOf binding < size) (hb : 2 * SizeOf.sizeOf body < size) (item : Value) :
    R (Option Completion) (itemRound m kind s binding body item)
      (itemRound m' kind s binding body item) :=
  h.bind h.step fun _ ↦ h.bind (h.childScope s) fun inner ↦
    h.bind (h.pattern kind inner binding item hp) fun _ ↦
    h.bind (h.exec inner body hb) fun _ ↦ h.pure _

theorem whileLoop (s : ScopeId) (test : Expr) (body : Stmt)
    (ht : 2 * SizeOf.sizeOf test < size) (hb : 2 * SizeOf.sizeOf body < size) :
    R Completion (whileLoop m s test body) (whileLoop m' s test body) :=
  h.loop (h.map (h.eval s test ht) Value.isTruthy) (h.map (h.exec s body hb) loopEnd)

theorem doRound (s : ScopeId) (body : Stmt) (test : Expr)
    (hb : 2 * SizeOf.sizeOf body < size) (ht : 2 * SizeOf.sizeOf test < size) :
    R (Option Completion) (doRound m s body test) (doRound m' s body test) := by
  refine h.bind (h.exec s body hb) fun c ↦ ?_
  split
  · exact h.pure _
  · exact h.bind (h.eval s test ht) fun _ ↦ h.pure _

/-! ### Switches -/

theorem matchingCase (s : ScopeId) (subject : Value) (cases_ : List SwitchCase)
    (hc : 2 * SizeOf.sizeOf cases_ ≤ size) : ∀ i,
    R (Option Nat) (matchingCase m s subject i cases_) (matchingCase m' s subject i cases_) := by
  induction cases_ with
  | nil => intro i; exact h.pure _
  | cons c rest ih =>
    intro i
    obtain ⟨test, body⟩ := c
    simp only [List.cons.sizeOf_spec, SwitchCase.case.sizeOf_spec] at hc
    cases test with
    | none => exact ih (by omega) _
    | some e =>
      simp only [Option.some.sizeOf_spec] at hc
      refine h.bind (h.eval s e (by omega)) fun v ↦ ?_
      split
      · exact h.pure _
      · exact ih (by omega) _

/-- From the case that matches on, all cases run. -/
theorem runCases (s : ScopeId) (cases_ : List SwitchCase)
    (hc : 2 * SizeOf.sizeOf cases_ ≤ size) :
    R Completion (runCases m s cases_) (runCases m' s cases_) := by
  induction cases_ with
  | nil => exact h.pure _
  | cons c rest ih =>
    obtain ⟨test, body⟩ := c
    simp only [List.cons.sizeOf_spec, SwitchCase.case.sizeOf_spec] at hc
    refine h.bind (h.block s body (by omega)) fun c ↦ ?_
    cases c with
    | normal => exact ih (by omega)
    | _ => exact h.pure _

theorem switch (s : ScopeId) (subject : Expr) (cases_ : List SwitchCase)
    (hs : 2 * SizeOf.sizeOf subject < size) (hc : 2 * SizeOf.sizeOf cases_ ≤ size) :
    R Completion (switch m s subject cases_) (switch m' s subject cases_) := by
  refine h.bind (h.eval s subject hs) fun v ↦ h.bind (h.childScope s) fun inner ↦
    h.bind (h.matchingCase inner v cases_ hc 0) fun found ↦ ?_
  split
  · rename_i start _
    have hdrop : SizeOf.sizeOf (cases_.drop start) ≤ SizeOf.sizeOf cases_ :=
      sizeOf_drop_le cases_ start
    exact h.runCases inner _ (by omega)
  · exact h.pure _

/-! ### Exceptions -/

/-- A handler binds the error before it runs. -/
theorem handle (s : ScopeId) (param : Option Pattern) (handler : List Stmt) (e : ScriptError)
    (hp : 2 * SizeOf.sizeOf param ≤ size) (hh : 2 * SizeOf.sizeOf handler ≤ size) :
    R Completion (handle m s param handler e) (handle m' s param handler e) := by
  refine h.bind (h.childScope s) fun inner ↦ ?_
  cases param with
  | none => exact h.block inner handler hh
  | some p =>
    simp only [Option.some.sizeOf_spec] at hp
    exact h.bind (h.caught e) fun v ↦ h.bind (h.pattern .letKind inner p v (by omega)) fun _ ↦
      h.block inner handler hh

/-- Only errors that scripts may catch come to the handler. -/
theorem guarded (s : ScopeId) (body : List Stmt) (param : Option Pattern)
    (handler : Option (List Stmt)) (hb : 2 * SizeOf.sizeOf body ≤ size)
    (hp : 2 * SizeOf.sizeOf param ≤ size) (hh : 2 * SizeOf.sizeOf handler ≤ size) :
    R Completion (guarded m s body param handler) (guarded m' s body param handler) := by
  cases handler with
  | none => exact h.innerBlock s body hb
  | some handler =>
    simp only [Option.some.sizeOf_spec] at hh
    exact h.catching (h.innerBlock s body hb) fun e _ ↦ h.handle s param handler e hp (by omega)

/-- The finalizer runs after the block and its handler, whatever came of them. -/
theorem tryCatch (s : ScopeId) (body : List Stmt) (param : Option Pattern)
    (handler finalizer : Option (List Stmt)) (hb : 2 * SizeOf.sizeOf body ≤ size)
    (hp : 2 * SizeOf.sizeOf param ≤ size) (hh : 2 * SizeOf.sizeOf handler ≤ size)
    (hf : 2 * SizeOf.sizeOf finalizer ≤ size) :
    R Completion (tryCatch m s body param handler finalizer)
      (tryCatch m' s body param handler finalizer) := by
  have hguarded := h.guarded s body param handler hb hp hh
  cases finalizer with
  | none => exact hguarded
  | some f =>
    simp only [Option.some.sizeOf_spec] at hf
    exact h.finalize hguarded (h.innerBlock s f (by omega))
      ⟨needsRoom_guarded h.halts s body param handler, stalls_innerBlock h.halts s f⟩
      ⟨needsRoom_guarded h.halts' s body param handler, stalls_innerBlock h.halts' s f⟩

/-! ### All statements and calls -/

/-- Every statement is made of smaller ones, which related machines run alike. -/
theorem statement (s : ScopeId) (stmt : Stmt) (hs : 2 * SizeOf.sizeOf stmt ≤ size) :
    R Completion (statement m s stmt) (statement m' s stmt) := by
  refine h.bind h.step fun _ ↦ ?_
  cases stmt with
  | expr e =>
    simp only [Stmt.expr.sizeOf_spec] at hs
    exact h.bind (h.discard (h.eval s e (by omega))) fun _ ↦ h.pure _
  | declare kind ds =>
    simp only [Stmt.declare.sizeOf_spec] at hs
    exact h.bind (h.declarations kind s ds (by omega)) fun _ ↦ h.pure _
  | «return» value =>
    cases value with
    | none => exact h.pure _
    | some e =>
      simp only [Stmt.return.sizeOf_spec, Option.some.sizeOf_spec] at hs
      exact h.map (h.eval s e (by omega)) Completion.return
  | ifElse test a b =>
    simp only [Stmt.ifElse.sizeOf_spec] at hs
    refine h.bind (h.eval s test (by omega)) fun v ↦ ?_
    split
    · exact h.exec s a (by omega)
    · cases b with
      | none => exact h.pure _
      | some b =>
        simp only [Option.some.sizeOf_spec] at hs
        exact h.exec s b (by omega)
  | block body =>
    simp only [Stmt.block.sizeOf_spec] at hs
    exact h.innerBlock s body (by omega)
  | forLoop init test update body =>
    simp only [Stmt.forLoop.sizeOf_spec] at hs
    exact h.forLoop s init test update body (by omega) (by omega) (by omega) (by omega)
  | forOf kind binding e body =>
    simp only [Stmt.forOf.sizeOf_spec] at hs
    exact h.bind (h.eval s e (by omega)) fun v ↦ h.bind (h.iterate v) fun items ↦
      h.forEach (h.itemRound kind s binding body (by omega) (by omega)) items
  | forIn kind binding e body =>
    simp only [Stmt.forIn.sizeOf_spec] at hs
    exact h.bind (h.eval s e (by omega)) fun v ↦ h.read fun _ ↦
      h.forEach (fun key ↦ h.itemRound kind s binding body (by omega) (by omega) (.string key)) _
  | whileLoop test body =>
    simp only [Stmt.whileLoop.sizeOf_spec] at hs
    exact h.whileLoop s test body (by omega) (by omega)
  | doWhile body test =>
    simp only [Stmt.doWhile.sizeOf_spec] at hs
    exact h.loop (h.pure true) (h.doRound s body test (by omega) (by omega))
  | switch subject cases_ =>
    simp only [Stmt.switch.sizeOf_spec] at hs
    exact h.switch s subject cases_ (by omega) (by omega)
  | throw e =>
    simp only [Stmt.throw.sizeOf_spec] at hs
    exact h.bind (h.eval s e (by omega)) fun v ↦ h.throwValue v
  | tryCatch body param handler finalizer =>
    simp only [Stmt.tryCatch.sizeOf_spec] at hs
    exact h.tryCatch s body param handler finalizer (by omega) (by omega) (by omega) (by omega)
  | function _ => exact h.pure _
  | empty => exact h.pure _
  | «break» => exact h.pure _
  | «continue» => exact h.pure _

/-- Parameters are bound in their order, each with what is left of the arguments. -/
theorem bindParams (s : ScopeId) (params : List Pattern)
    (hp : 2 * SizeOf.sizeOf params ≤ size) : ∀ args,
    R (List Value) (bindParams m s params args) (bindParams m' s params args) := by
  induction params with
  | nil => intro args; exact h.pure args
  | cons p rest ih =>
    intro args
    simp only [List.cons.sizeOf_spec] at hp
    exact h.bind (h.pattern .letKind s p _ (by omega)) fun _ ↦ ih (by omega) _

/-- A call of a closure runs its body in a scope of its own. -/
theorem callClosure (code : FunctionDef) (hc : 2 * SizeOf.sizeOf code ≤ size)
    (captured : ScopeId) (self : Value) (args : List Value) :
    R Value (callClosure m code captured self args)
      (callClosure m' code captured self args) := by
  obtain ⟨name, params, rest, body, arrow⟩ := code
  simp only [FunctionDef.make.sizeOf_spec] at hc
  refine h.bind (h.newScope _) fun s ↦ h.bind (h.bindParams s params (by omega) args) fun extra ↦ ?_
  have hprogram := h.program s body (by omega)
  cases rest with
  | none => exact hprogram
  | some p =>
    simp only [Option.some.sizeOf_spec] at hc
    exact h.bind (h.newArray _) fun v ↦ h.bind (h.pattern .letKind s p v (by omega)) fun _ ↦
      hprogram

/-- Related machines do alike whatever a function is: a closure with admitted code, a native one, or one
that scripts have made from others. -/
theorem perform (hcode : ∀ code, Admits code → Related R Admits (2 * SizeOf.sizeOf code) m m')
    (self : Value) (args : List Value) (fn : Function) (hfn : fn.Within Admits)
    (hregular : fn.IsRegular) : R Value (perform m self args fn) (perform m' self args fn) := by
  cases fn with
  | native n => exact h.native h.call n hregular self args fun _ hc ↦ h.watches hc args
  | bound target self => exact h.invoke target self args
  | closure code captured =>
    exact (hcode code hfn).callClosure code (Nat.le_refl _) captured self args

end Machine.Related

/-- Reading a function and performing it is related if every kind of function is, with `splice`
apart. -/
theorem Congruence.performing {R : (α : Type) → Action α → Action α → Prop}
    {Admits : FunctionDef → Prop} (hR : Congruence R Admits)
    (hoverlap : R Value (throw .overlap) (throw .overlap)) (id : FunctionId) (self : Value)
    (args : List Value) {f g : Function → Action Value}
    (hfg : ∀ fn, fn.Within Admits → fn.IsRegular → R Value (f fn) (g fn))
    (hf : f (.native (.array .splice)) = Action.spliceCall self args)
    (hg : g (.native (.array .splice)) = Action.spliceCall self args) :
    R Value (Action.heap >>= fun h ↦ f (h.function id))
      (Action.heap >>= fun h ↦ g (h.function id)) := by
  refine hR.function id fun fn hfn ↦ ?_
  rcases fn.isRegular_or with hregular | rfl
  · exact hfg fn hfn hregular
  · rw [hf, hg]
    exact hR.bind (hR.arrayReceiver self _) fun a ↦ hR.splice hoverlap a args

end Nodecraft.Sandbox
