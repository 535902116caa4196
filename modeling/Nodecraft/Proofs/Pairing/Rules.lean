import Nodecraft.Proofs.Pairing.Method
import Nodecraft.Sandbox.Evaluation.Call

/-!
# Rules of evaluation in worlds that are alike

Two machines are alike along a pairing if they answer the same questions alike in all scopes where
code may run that mentions what the question mentions. The rule for a construct asks its machine
only about parts of the construct, so machines that are alike give rules that are alike: one lemma
for each rule, and from them one for expressions, links, statements, patterns, whole programs and
calls.
-/

set_option autoImplicit false

namespace Nodecraft.Sandbox

open Script Evaluation

inductive Completion.Alike (p : Pairing) : Completion → Completion → Prop
  | normal : Completion.Alike p .normal .normal
  | «return» {v v' : Value} : Value.Alike p v v' → Completion.Alike p (.return v) (.return v')
  | «break» : Completion.Alike p .break .break
  | «continue» : Completion.Alike p .continue .continue

instance : Stable Completion.Alike where
  mono hle := by
    rintro _ _ (_ | h | _ | _)
    · exact .normal
    · exact .return (Stable.mono hle h)
    · exact .break
    · exact .continue

theorem Completion.Alike.loopEnd {p : Pairing} {c c' : Completion} (hc : Completion.Alike p c c') :
    OptionAlike Completion.Alike p (loopEnd c) (loopEnd c') := by
  cases hc with
  | normal => exact .none
  | «return» hv => exact .some (.return hv)
  | «break» => exact .some .normal
  | «continue» => exact .none

inductive Place.Alike (p : Pairing) (s : ScopeId) : Place → Place → Prop
  | name {name : String} : p.allows s.index (.use name) →
    Place.Alike p s (.name name) (.name name)
  | member {v v' : Value} (key : String) : Value.Alike p v v' →
    Place.Alike p s (.member v key) (.member v' key)

theorem Place.Alike.mono {p q : Pairing} {s s' : ScopeId} {place place' : Place}
    (h : Place.Alike p s place place') (hle : p ≤ q) (hs : p.scope s.index s'.index) :
    Place.Alike q s place place' := by
  cases h with
  | name hname => exact .name ((hle.allows hs _).2 hname)
  | member key hv => exact .member key (Stable.mono hle hv)

/-- Machines that give the same answers in worlds that are alike. -/
structure Machine.Alike (p : Pairing) (m m' : Machine) : Prop where
  rounds : m.rounds = m'.rounds
  step : Action.Alike p Same m.step m'.step
  room : Action.Alike p Same m.room m'.room
  erase {q : Pairing} (hq : p ≤ q) {target target' : Value} (key : String) :
    Value.Alike q target target' → Action.Alike q Same (m.erase target key) (m'.erase target' key)
  finalize {q : Pairing} (hq : p ≤ q) {x y f g : Action Completion} :
    Action.Alike q Completion.Alike x y → Action.Alike q Completion.Alike f g →
    Action.Alike q Completion.Alike (m.finalize x f) (m'.finalize y g)
  eval {q : Pairing} (hq : p ≤ q) {s s' : ScopeId} (e : Expr) : q.Runs s s' e.mentions →
    Action.Alike q Value.Alike (m.eval s e) (m'.eval s' e)
  link {q : Pairing} (hq : p ≤ q) {s s' : ScopeId} (e : Expr) : q.Runs s s' e.mentions →
    Action.Alike q (OptionAlike Value.Alike) (m.link s e) (m'.link s' e)
  exec {q : Pairing} (hq : p ≤ q) {s s' : ScopeId} (stmt : Stmt) : q.Runs s s' stmt.mentions →
    Action.Alike q Completion.Alike (m.exec s stmt) (m'.exec s' stmt)
  bind {q : Pairing} (hq : p ≤ q) (kind : DeclKind) {s s' : ScopeId} (target : Pattern)
    {v v' : Value} : q.Runs s s' target.mentions → Value.Alike q v v' →
    Action.Alike q Same (m.bind kind s target v) (m'.bind kind s' target v')
  invoke {q : Pairing} (hq : p ≤ q) {f f' : FunctionId} {self self' : Value}
    {args args' : List Value} : q.function f.index f'.index → Value.Alike q self self' →
    ListAlike Value.Alike q args args' →
    Action.Alike q Value.Alike (m.invoke f self args) (m'.invoke f' self' args')

theorem casesMentions_drop_subset (cases_ : List SwitchCase) : ∀ n,
    casesMentions (cases_.drop n) ⊆ casesMentions cases_ := by
  induction cases_ with
  | nil => intro n; simp
  | cons c rest ih =>
    intro n
    obtain ⟨test, body⟩ := c
    cases n with
    | zero => exact fun _ h ↦ h
    | succ n =>
      rw [List.drop_succ_cons]
      exact fun m hm ↦ List.mem_append_right _ (List.mem_append_right _ (ih n hm))

namespace Machine.Alike

variable {p : Pairing} {m m' : Machine} (h : Machine.Alike p m m') {s s' : ScopeId}

include h

theorem mono {q : Pairing} (hle : p ≤ q) : Machine.Alike q m m' where
  rounds := h.rounds
  step := h.step.mono hle
  room := h.room.mono hle
  erase hq := h.erase (Pairing.le_trans hle hq)
  finalize hq := h.finalize (Pairing.le_trans hle hq)
  eval hq := h.eval (Pairing.le_trans hle hq)
  link hq := h.link (Pairing.le_trans hle hq)
  exec hq := h.exec (Pairing.le_trans hle hq)
  bind hq := h.bind (Pairing.le_trans hle hq)
  invoke hq := h.invoke (Pairing.le_trans hle hq)

/-! ### Calls and questions at the pairing itself -/

theorem nested {α β : Type} {Q : Pairing → α → β → Prop} {x : Action α} {y : Action β}
    (hxy : Action.Alike p Q x y) : Action.Alike p Q (m.nested x) (m'.nested y) :=
  h.room.bindSame fun _ hq _ ↦ .entering (hxy.mono hq)

theorem call : Caller.Alike p m.call m'.call := by
  intro q hq f f' self self' args args' hf hself hargs
  cases hf with
  | function hf => exact (h.mono hq).nested (h.invoke hq hf hself hargs)
  | _ => exact .typeError _

theorem value (e : Expr) (hs : p.Runs s s' e.mentions) :
    Action.Alike p Value.Alike (m.eval s e) (m'.eval s' e) :=
  h.eval (Pairing.le_refl p) e hs

/-- A machine that runs alike binds paired values to a pattern alike. -/
theorem pattern (kind : DeclKind) (target : Pattern) (hs : p.Runs s s' target.mentions)
    {v v' : Value} (hv : Value.Alike p v v') :
    Action.Alike p Same (m.bind kind s target v) (m'.bind kind s' target v') :=
  h.bind (Pairing.le_refl p) kind target hs hv

/-! ### Patterns -/

omit h in
theorem closure (code : FunctionDef) (hs : p.Runs s s' code.mentions) :
    Action.Alike p Value.Alike (closure s code) (closure s' code) :=
  .newFunction (.closure hs)

/-- The value of an expression, as a key. -/
theorem key (e : Expr) (hs : p.Runs s s' e.mentions) :
    Action.Alike p Same (do let v ← m.eval s e; return (← Action.heap).key v)
      (do let v ← m'.eval s' e; return (← Action.heap).key v) :=
  (h.value e hs).bind fun _ _ _ _ hv ↦ .readSame fun _ hr _ _ hh ↦ hh.key_eq (Stable.mono hr hv)

/-- Computed keys run alike and give the same key. -/
theorem propertyKey (key : PropertyKey) (hs : p.Runs s s' key.mentions) :
    Action.Alike p Same (propertyKey m s key) (propertyKey m' s' key) := by
  cases key with
  | fixed name => exact .pure rfl
  | computed e => exact h.key e hs

theorem readFields {v v' : Value} (keys : List String) : ∀ {q : Pairing}, p ≤ q →
    Value.Alike q v v' →
    Action.Alike q (FieldsAlike Value.Alike) (readFields m v keys) (readFields m' v' keys) := by
  induction keys with
  | nil => intro q _ _; exact .pure .nil
  | cons key rest ih =>
    intro q hq hv
    exact (Action.Alike.getProperty (h.call.mono hq) hv key).bind fun r hr _ _ hitem ↦
      (ih (Pairing.le_trans hq hr) (Stable.mono hr hv)).bind fun _ ht _ _ hrest ↦
        .pure (.cons ⟨rfl, Stable.mono ht hitem⟩ hrest)

/-- The fields of an object pattern are bound alike, one by one. -/
theorem bindFields (kind : DeclKind) {v v' : Value} (fields : List PatternField) :
    ∀ {q : Pairing}, p ≤ q → q.Runs s s' (fieldsMentions fields) → Value.Alike q v v' →
    Action.Alike q Same (bindFields m kind s v fields) (bindFields m' kind s' v' fields) := by
  induction fields with
  | nil => intro q _ _ _; exact .pure rfl
  | cons field rest ih =>
    intro q hq hs hv
    obtain ⟨key, target⟩ := field
    refine ((h.mono hq).propertyKey key hs.left).bindSame fun r hr key ↦ ?_
    have hle := Pairing.le_trans hq hr
    have hv : Value.Alike r v v' := Stable.mono hr hv
    have hs := hs.right.mono hr
    refine (Action.Alike.getProperty (h.call.mono hle) hv key).bind fun t ht _ _ hitem ↦
      ((h.mono (Pairing.le_trans hle ht)).pattern kind target (hs.left.mono ht) hitem).bindSame
        fun u hu _ ↦ ?_
    have htu := Pairing.le_trans ht hu
    exact (ih (Pairing.le_trans hle htu) (hs.right.mono htu) (Stable.mono htu hv)).bindSame
      fun _ _ _ ↦ .pure rfl

theorem bindObject (kind : DeclKind) (fields : List PatternField) (rest : Option Pattern)
    (hs : p.Runs s s' (fieldsMentions fields ++ optPatternMentions rest)) {v v' : Value}
    (hv : Value.Alike p v v') :
    Action.Alike p Same (bindObject m kind s fields rest v) (bindObject m' kind s' fields rest v') := by
  unfold Evaluation.bindObject
  rw [hv.isNullish_eq]
  split
  · exact (Action.Alike.text hv).bindSame fun _ _ _ ↦ .typeError _
  · refine (h.bindFields kind fields (Pairing.le_refl p) hs.left hv).bindSame fun q hq used ↦ ?_
    cases rest with
    | none => exact .pure rfl
    | some target =>
      refine .read fun r hr hl hl' hh ↦ ?_
      have hle := Pairing.le_trans hq hr
      have hv := Stable.mono hle hv
      rw [hh.enumerableKeys_eq hv]
      exact (h.readFields _ hle hv).bind fun t ht _ _ hfields ↦
        (Action.Alike.newPlain (FieldsAlike.insertAll hfields .nil)).bind fun u hu _ _ hrest ↦
        (h.mono (Pairing.le_trans hle (Pairing.le_trans ht hu))).pattern kind target
          (hs.right.mono (Pairing.le_trans hle (Pairing.le_trans ht hu))) hrest

/-- The elements of an array pattern are bound alike, one by one. -/
theorem bindElements (kind : DeclKind) (elements : List (Option Pattern)) :
    ∀ {q : Pairing}, p ≤ q → q.Runs s s' (elementsMentions elements) →
    ∀ {values values' : List Value}, ListAlike Value.Alike q values values' →
    Action.Alike q Same (bindElements m kind s elements values)
      (bindElements m' kind s' elements values') := by
  induction elements with
  | nil => intro q _ _ values values' _; exact .pure rfl
  | cons element rest ih =>
    intro q hq hs values values' hv
    cases element with
    | none => exact ih hq hs hv.tail
    | some target =>
      exact ((h.mono hq).pattern kind target hs.left (hv.headD .undefined)).bindSame
        fun r hr _ ↦ ih (Pairing.le_trans hq hr) (hs.right.mono hr) (Stable.mono hr hv.tail)

theorem bindArray (kind : DeclKind) (elements : List (Option Pattern)) (rest : Option Pattern)
    (hs : p.Runs s s' (elementsMentions elements ++ optPatternMentions rest)) {v v' : Value}
    (hv : Value.Alike p v v') :
    Action.Alike p Same (bindArray m kind s elements rest v)
      (bindArray m' kind s' elements rest v') := by
  refine (Action.Alike.iterate hv).bind fun q hq values values' hvalues ↦
    (h.bindElements kind elements hq (hs.left.mono hq) hvalues).bindSame fun r hr _ ↦ ?_
  cases rest with
  | none => exact .pure rfl
  | some target =>
    have hle := Pairing.le_trans hq hr
    have hdrop : ListAlike Value.Alike r (values.drop elements.length)
        (values'.drop elements.length) :=
      List.forall₂_drop _ (Stable.mono (Q := ListAlike Value.Alike) hr hvalues)
    exact (Action.Alike.newArray (.ofList hdrop)).bind fun t ht _ _ hrest ↦
      (h.mono (Pairing.le_trans hle ht)).pattern kind target
        (hs.right.mono (Pairing.le_trans hle ht)) hrest

/-- Every pattern is bound alike to paired values. -/
theorem bindPattern (kind : DeclKind) (target : Pattern) (hs : p.Runs s s' target.mentions)
    {v v' : Value} (hv : Value.Alike p v v') :
    Action.Alike p Same (bindPattern m kind s v target) (bindPattern m' kind s' v' target) := by
  cases target with
  | name name => exact .declareAs kind hs.scope hs.head hv
  | withDefault target fallback =>
    have hkept := h.pattern kind target hs.left hv
    cases hv with
    | undefined =>
      exact (h.value fallback hs.right).bind fun q hq _ _ hv ↦
        (h.mono hq).pattern kind target (hs.left.mono hq) hv
    | _ => exact hkept
  | object fields rest => exact h.bindObject kind fields rest hs hv
  | array elements rest => exact h.bindArray kind elements rest hs hv

/-! ### Expressions -/

theorem templateText (es : List Expr) : ∀ {q : Pairing}, p ≤ q →
    q.Runs s s' (exprsMentions es) → ∀ texts,
    Action.Alike q Same (templateText m s texts es) (templateText m' s' texts es) := by
  induction es with
  | nil =>
    intro q _ _ texts
    induction texts with
    | nil => exact .pure rfl
    | cons t texts ih => exact ih.bindSame fun _ _ _ ↦ .pure rfl
  | cons e rest ih =>
    intro q hq hs texts
    cases texts with
    | nil => exact .pure rfl
    | cons t texts =>
      refine ((h.mono hq).value e hs.left).bind fun r hr v v' hv ↦
        (Action.Alike.text hv).bindSame fun u hu shown ↦ ?_
      have hle := Pairing.le_trans hr hu
      exact (ih (Pairing.le_trans hq hle) (hs.right.mono hle) texts).bindSame fun _ _ _ ↦ .pure rfl

/-- Lists of arguments and of array items run alike, spreads included. -/
theorem values (items : List Item) : ∀ {q : Pairing}, p ≤ q →
    q.Runs s s' (itemsMentions items) →
    Action.Alike q (ListAlike Value.Alike) (values m s items) (values m' s' items) := by
  induction items with
  | nil => intro q _ _; exact .pure .nil
  | cons item rest ih =>
    intro q hq hs
    cases item with
    | value e =>
      exact ((h.mono hq).value e hs.left).bind fun r hr _ _ hv ↦
        (ih (Pairing.le_trans hq hr) (hs.right.mono hr)).bind fun _ ht _ _ hrest ↦
          .pure (.cons (Stable.mono ht hv) hrest)
    | spread e =>
      exact ((h.mono hq).value e hs.left).bind fun r hr _ _ hv ↦
        (Action.Alike.iterate hv).bind fun t ht _ _ hspread ↦
        (ih (Pairing.le_trans hq (Pairing.le_trans hr ht))
          (hs.right.mono (Pairing.le_trans hr ht))).bind fun _ hu _ _ hrest ↦
          .pure (List.rel_append (Stable.mono (Q := ListAlike Value.Alike) hu hspread) hrest)
    | hole => exact (ih hq hs).bind fun _ _ _ _ hrest ↦ .pure (.cons .undefined hrest)

/-- Object literals run alike and give paired fields. -/
theorem objectFields (properties : List Property) : ∀ {q : Pairing}, p ≤ q →
    q.Runs s s' (propertiesMentions properties) → ∀ {fields fields' : Fields Value},
    FieldsAlike Value.Alike q fields fields' →
    Action.Alike q (FieldsAlike Value.Alike) (objectFields m s fields properties)
      (objectFields m' s' fields' properties) := by
  induction properties with
  | nil => intro q _ _ fields fields' hf; exact .pure hf
  | cons property rest ih =>
    intro q hq hs fields fields' hf
    cases property with
    | entry key e =>
      refine ((h.mono hq).propertyKey key hs.left).bindSame fun r hr key ↦ ?_
      have hs := hs.right.mono hr
      exact ((h.mono (Pairing.le_trans hq hr)).value e hs.left).bind fun t ht _ _ hv ↦
        ih (Pairing.le_trans hq (Pairing.le_trans hr ht)) (hs.right.mono ht)
          (FieldsAlike.insert (Stable.mono ht (Stable.mono (Q := FieldsAlike Value.Alike) hr hf))
            key hv)
    | spread e =>
      refine ((h.mono hq).value e hs.left).bind fun r hr v v' hv ↦
        .read fun t ht hl hl' hh ↦ ?_
      have hv := Stable.mono ht hv
      have hle := Pairing.le_trans hr ht
      rw [hh.enumerableKeys_eq hv]
      exact (h.readFields _ (Pairing.le_trans hq hle) hv).bind fun u hu _ _ hentries ↦
        ih (Pairing.le_trans hq (Pairing.le_trans hle hu))
          (hs.right.mono (Pairing.le_trans hle hu))
          (FieldsAlike.insertAll hentries
            (Stable.mono (Q := FieldsAlike Value.Alike) (Pairing.le_trans hle hu) hf))

theorem unaryExpr (op : UnaryOp) (e : Expr) (hs : p.Runs s s' e.mentions) :
    Action.Alike p Value.Alike (unaryExpr m s op e) (unaryExpr m' s' op e) := by
  unfold Evaluation.unaryExpr
  split
  · exact (Action.Alike.lookup h.call hs.scope hs.head).bind fun _ _ _ _ hv ↦ by
      rw [(OptionAlike.getD hv .undefined).typeName_eq]
      exact .pure (.string _)
  · exact (h.value _ hs).bind fun _ _ _ _ hv ↦ .unary hv _

theorem memberKey (key : MemberKey) (hs : p.Runs s s' key.mentions) :
    Action.Alike p Same (memberKey m s key) (memberKey m' s' key) := by
  cases key with
  | fixed name => exact .pure rfl
  | computed e => exact h.key e hs

/-- The target of an assignment is evaluated to paired places. -/
theorem place (target : Target) (hs : p.Runs s s' target.mentions) :
    Action.Alike p (fun q ↦ Place.Alike q s) (place m s target) (place m' s' target) := by
  cases target with
  | name n => exact fun q hq w w' hw ↦ .ok (.name ((hq.allows hs.scope _).2 hs.head)) hw
  | member e key =>
    refine (h.value e hs.left).bind fun q hq v v' hv ↦
      ((h.mono hq).memberKey key (hs.right.mono hq)).bindSame fun r hr key t ht w w' hw ↦ ?_
    exact .ok (.member key (Stable.mono ht (Stable.mono hr hv))) hw

theorem readPlace {place place' : Place} (hs : p.scope s.index s'.index)
    (hp : Place.Alike p s place place') :
    Action.Alike p Value.Alike (readPlace m s place) (readPlace m' s' place') := by
  cases hp with
  | name hname => exact .readName h.call hs hname
  | member key hv => exact .getProperty h.call hv key

theorem writePlace {place place' : Place} (hs : p.scope s.index s'.index)
    (hp : Place.Alike p s place place') {v v' : Value} (hv : Value.Alike p v v') :
    Action.Alike p Same (writePlace m s v place) (writePlace m' s' v' place') := by
  cases hp with
  | name hname => exact .assign h.call hs hname hv
  | member key ht => exact .setProperty h.call ht key hv

/-- A value is written and is the result. -/
theorem store {place place' : Place} (hs : p.scope s.index s'.index)
    (hp : Place.Alike p s place place') {v v' : Value} (hv : Value.Alike p v v') :
    Action.Alike p Value.Alike (do Evaluation.writePlace m s v place; return v)
      (do Evaluation.writePlace m' s' v' place'; return v') :=
  (h.writePlace hs hp hv).bindSame fun _ hq _ ↦ .pure (Stable.mono hq hv)

/-- Assignments run alike, compound and logical ones included. -/
theorem assignment (op : AssignOp) (target : Target) (e : Expr)
    (hs : p.Runs s s' (target.mentions ++ e.mentions)) :
    Action.Alike p Value.Alike (assignment m s op target e) (assignment m' s' op target e) := by
  refine (h.place target hs.left).bind fun q hq place place' hp ↦ ?_
  have hs := hs.mono hq
  have h := h.mono hq
  cases op with
  | plain =>
    exact (h.value e hs.right).bind fun r hr _ _ hv ↦
      (h.mono hr).store (hr.scope hs.scope) (hp.mono hr hs.scope) hv
  | binary op =>
    refine (h.readPlace hs.scope hp).bind fun r hr _ _ hcurrent ↦
      ((h.mono hr).value e (hs.right.mono hr)).bind fun t ht _ _ hv ↦
      (Action.Alike.binary (Stable.mono ht hcurrent) hv op).bind fun u hu _ _ hv ↦ ?_
    have hle := Pairing.le_trans hr (Pairing.le_trans ht hu)
    exact (h.mono hle).store (hle.scope hs.scope) (hp.mono hle hs.scope) hv
  | logical op =>
    refine (h.readPlace hs.scope hp).bind fun r hr current current' hcurrent ↦ ?_
    have hstops : stopsAt op current = stopsAt op current' := by
      cases op <;> simp only [stopsAt, hcurrent.isTruthy_eq, hcurrent.isNullish_eq]
    rw [hstops]
    split
    · exact .pure hcurrent
    · refine ((h.mono hr).value e (hs.right.mono hr)).bind fun t ht _ _ hv ↦ ?_
      have hle := Pairing.le_trans hr ht
      exact (h.mono hle).store (hle.scope hs.scope) (hp.mono hle hs.scope) hv

theorem updateExpr (increment before : Bool) (target : Target)
    (hs : p.Runs s s' target.mentions) :
    Action.Alike p Value.Alike (updateExpr m s increment before target)
      (updateExpr m' s' increment before target) := by
  refine (h.place target hs).bind fun q hq place place' hp ↦
    ((h.mono hq).readPlace (hq.scope hs.scope) hp).bind fun r hr _ _ hv ↦
    (Action.Alike.number hv).bindSame fun t ht old ↦ ?_
  have hle := Pairing.le_trans hr ht
  exact ((h.mono (Pairing.le_trans hq hle)).writePlace (hle.scope (hq.scope hs.scope))
    (hp.mono hle (hq.scope hs.scope)) (.number _)).bindSame fun _ _ _ ↦ .pure (.number _)

theorem deleteExpr (target : Target) (hs : p.Runs s s' target.mentions) :
    Action.Alike p Value.Alike (deleteExpr m s target) (deleteExpr m' s' target) := by
  refine (h.place target hs).bind fun q hq place place' hp ↦ ?_
  cases hp with
  | name _ => exact .pure (.bool true)
  | member key hv =>
    exact (h.erase hq key hv).bindSame fun _ _ _ ↦ .pure (.bool true)

/-! ### Members and calls -/

theorem base (e : Expr) (hs : p.Runs s s' e.mentions) :
    Action.Alike p (OptionAlike Value.Alike) (m.link s e) (m'.link s' e) :=
  h.link (Pairing.le_refl p) e hs

/-- A member access in a chain runs alike and ends early on both sides or on neither. -/
theorem memberLink (object : Expr) (key : MemberKey) (isOptional : Bool)
    (hs : p.Runs s s' (object.mentions ++ key.mentions)) :
    Action.Alike p (OptionAlike Value.Alike) (memberLink m s object key isOptional)
      (memberLink m' s' object key isOptional) := by
  refine (h.base object hs.left).bind fun q hq base base' hbase ↦ ?_
  cases hbase with
  | none => exact .pure .none
  | some hbase =>
    dsimp only
    rw [hbase.isNullish_eq]
    split
    · exact .pure .none
    · exact ((h.mono hq).memberKey key (hs.right.mono hq)).bindSame fun r hr key ↦
        (Action.Alike.getProperty (h.call.mono (Pairing.le_trans hq hr)) (Stable.mono hr hbase)
          key).bind fun _ _ _ _ hv ↦ .pure (.some hv)

theorem callee (e : Expr) (hs : p.Runs s s' e.mentions) :
    Action.Alike p (OptionAlike (PairAlike Value.Alike Value.Alike)) (callee m s e)
      (callee m' s' e) := by
  have hplain := (h.base e hs).bind (R := OptionAlike (PairAlike Value.Alike Value.Alike))
    fun q _ _ _ hf ↦ .pure (OptionAlike.map (R := PairAlike Value.Alike Value.Alike) hf
      (f := fun f ↦ (f, Value.undefined)) (g := fun f ↦ (f, Value.undefined))
      fun _ _ hf ↦ ⟨hf, .undefined⟩)
  cases e with
  | member object key isOptional =>
    refine (h.base object hs.left).bind fun q hq base base' hbase ↦ ?_
    cases hbase with
    | none => exact .pure .none
    | some hbase =>
      dsimp only
      rw [hbase.isNullish_eq]
      split
      · exact .pure .none
      · exact ((h.mono hq).memberKey key (hs.right.mono hq)).bindSame fun r hr key ↦
          (Action.Alike.getProperty (h.call.mono (Pairing.le_trans hq hr)) (Stable.mono hr hbase)
            key).bind fun _ ht _ _ hv ↦
            .pure (.some ⟨hv, Stable.mono ht (Stable.mono hr hbase)⟩)
  | _ => exact hplain

/-- A call in a chain runs alike and ends early on both sides or on neither. -/
theorem callLink (target : Expr) (arguments : List Item) (isOptional : Bool)
    (hs : p.Runs s s' (target.mentions ++ itemsMentions arguments)) :
    Action.Alike p (OptionAlike Value.Alike) (callLink m s target arguments isOptional)
      (callLink m' s' target arguments isOptional) := by
  refine (h.callee target hs.left).bind fun q hq found found' hfound ↦ ?_
  cases hfound with
  | none => exact .pure .none
  | some hfound =>
    obtain ⟨hf, hself⟩ := hfound
    dsimp only
    rw [hf.isNullish_eq, hf.isFunction_eq]
    split
    · exact .pure .none
    · split
      · exact .typeError _
      · exact (h.values arguments hq (hs.right.mono hq)).bind fun r hr _ _ hargs ↦
          (h.call r (Pairing.le_trans hq hr) _ _ _ _ _ _ (Stable.mono hr hf)
            (Stable.mono hr hself) hargs).bind fun _ _ _ _ hv ↦ .pure (.some hv)

/-- Every link of an optional chain runs alike. -/
theorem chainLink (e : Expr) (hs : p.Runs s s' e.mentions) :
    Action.Alike p (OptionAlike Value.Alike) (chainLink m s e) (chainLink m' s' e) := by
  have hplain := (h.value e hs).map (R := OptionAlike Value.Alike) (f := Option.some)
    (g := Option.some) fun _ _ _ _ hv ↦ .some hv
  cases e with
  | member object key isOptional => exact h.memberLink object key isOptional hs
  | call target arguments isOptional => exact h.callLink target arguments isOptional hs
  | _ => exact hplain

theorem sequence (es : List Expr) : ∀ {q : Pairing}, p ≤ q →
    q.Runs s s' (exprsMentions es) → ∀ {last last' : Value}, Value.Alike q last last' →
    Action.Alike q Value.Alike (sequence m s last es) (sequence m' s' last' es) := by
  induction es with
  | nil => intro q _ _ last last' hlast; exact .pure hlast
  | cons e rest ih =>
    intro q hq hs last last' _
    exact ((h.mono hq).value e hs.left).bind fun r hr _ _ hv ↦
      ih (Pairing.le_trans hq hr) (hs.right.mono hr) hv

/-- Every expression runs alike in paired scopes that allow its mentions. -/
theorem expression (e : Expr) (hs : p.Runs s s' e.mentions) :
    Action.Alike p Value.Alike (expression m s e) (expression m' s' e) := by
  have hle := Pairing.le_refl p
  cases e with
  | literal v => exact .pure (by cases v <;> constructor)
  | template texts es =>
    exact (h.templateText es hle hs texts).bindSame fun _ _ _ ↦ .pure (.string _)
  | name n => exact .readName h.call hs.scope hs.head
  | this => exact .readSame fun _ hq _ _ hh ↦ hh.self_alike (hq.scope hs.scope)
  | array items => exact (h.values items hle hs).bind fun _ _ _ _ hv ↦ .newArray (.ofList hv)
  | object properties =>
    exact (h.objectFields properties hle hs .nil).bind fun _ _ _ _ hf ↦ .newPlain hf
  | function code => exact closure code hs
  | unary op e => exact h.unaryExpr op e hs
  | binary op a b =>
    exact (h.value a hs.left).bind fun q hq _ _ ha ↦
      ((h.mono hq).value b (hs.right.mono hq)).bind fun _ hr _ _ hb ↦
        .binary (Stable.mono hr ha) hb op
  | logical op a b =>
    refine (h.value a hs.left).bind fun q hq v v' hv ↦ ?_
    have hstops : stopsAt op v = stopsAt op v' := by
      cases op <;> simp only [stopsAt, hv.isTruthy_eq, hv.isNullish_eq]
    rw [hstops]
    split
    · exact .pure hv
    · exact (h.mono hq).value b (hs.right.mono hq)
  | conditional t a b =>
    refine (h.value t hs.left).bind fun q hq v v' hv ↦ ?_
    rw [hv.isTruthy_eq]
    split
    · exact (h.mono hq).value a (hs.right.left.mono hq)
    · exact (h.mono hq).value b (hs.right.right.mono hq)
  | assign op target e => exact h.assignment op target e hs
  | update increment before target => exact h.updateExpr increment before target hs
  | delete target => exact h.deleteExpr target hs
  | member object key isOptional =>
    exact (h.memberLink object key isOptional hs).bind fun _ _ _ _ hv ↦
      .pure (OptionAlike.getD hv .undefined)
  | call target arguments isOptional =>
    exact (h.callLink target arguments isOptional hs).bind fun _ _ _ _ hv ↦
      .pure (OptionAlike.getD hv .undefined)
  | chain inner =>
    exact (h.base inner hs).bind fun _ _ _ _ hv ↦ .pure (OptionAlike.getD hv .undefined)
  | sequence es => exact h.sequence es hle hs .undefined

/-! ### Statements -/

omit h in
theorem hoist (body : List Stmt) : ∀ {q : Pairing}, p ≤ q → q.Runs s s' (blockMentions body) →
    Action.Alike q Same (hoist s body) (hoist s' body) := by
  induction body with
  | nil => intro q _ _; exact .pure rfl
  | cons stmt rest ih =>
    intro q hq hs
    cases stmt with
    | function code =>
      have hleft : q.Runs s s' (.declare (code.name.getD "") :: code.mentions) := hs.left
      exact (closure code hleft.tail).bind fun r hr _ _ hv ↦
        (Action.Alike.declare (hr.scope hs.scope) ((hr.allows hs.scope _).2 hleft.head) hv
          true).bindSame fun t ht _ ↦
        ih (Pairing.le_trans hq (Pairing.le_trans hr ht)) (hs.right.mono (Pairing.le_trans hr ht))
    | _ => exact ih hq hs.right

/-- A list of statements runs alike and stops at the same statement. -/
theorem statements (body : List Stmt) : ∀ {q : Pairing}, p ≤ q →
    q.Runs s s' (blockMentions body) →
    Action.Alike q Completion.Alike (statements m s body) (statements m' s' body) := by
  induction body with
  | nil => intro q _ _; exact .pure .normal
  | cons stmt rest ih =>
    intro q hq hs
    refine (h.exec hq stmt hs.left).bind fun r hr c c' hc ↦ ?_
    cases hc with
    | normal => exact ih (Pairing.le_trans hq hr) (hs.right.mono hr)
    | «return» hv => exact .pure (.return hv)
    | «break» => exact .pure .break
    | «continue» => exact .pure .continue

theorem block (body : List Stmt) (hs : p.Runs s s' (blockMentions body)) :
    Action.Alike p Completion.Alike (block m s body) (block m' s' body) :=
  (hoist body (Pairing.le_refl p) hs).bindSame fun _ hq _ ↦ h.statements body hq (hs.mono hq)

theorem innerBlock (body : List Stmt) (hs : p.Runs s s' (blockMentions body)) :
    Action.Alike p Completion.Alike (innerBlock m s body) (innerBlock m' s' body) :=
  (Action.Alike.childScope hs).bind fun _ hq _ _ hs ↦ (h.mono hq).block body hs

theorem program (body : List Stmt) (hs : p.Runs s s' (blockMentions body)) :
    Action.Alike p Value.Alike (program m s body) (program m' s' body) := by
  refine (h.nested (h.block body hs)).bind fun _ _ c c' hc ↦ ?_
  cases hc with
  | «return» hv => exact .pure hv
  | _ => exact .pure .undefined

theorem declarations (kind : DeclKind) (ds : List Declarator) : ∀ {q : Pairing}, p ≤ q →
    q.Runs s s' (declaratorsMentions ds) →
    Action.Alike q Same (declarations m kind s ds) (declarations m' kind s' ds) := by
  induction ds with
  | nil => intro q _ _; exact .pure rfl
  | cons d rest ih =>
    intro q hq hs
    obtain ⟨target, e⟩ := d
    have hrest {r : Pairing} (hr : q ≤ r) {v v' : Value} (hv : Value.Alike r v v') :
        Action.Alike r Same
          (m.bind kind s target v >>= fun _ ↦ Evaluation.declarations m kind s rest)
          (m'.bind kind s' target v' >>= fun _ ↦ Evaluation.declarations m' kind s' rest) :=
      ((h.mono (Pairing.le_trans hq hr)).pattern kind target (hs.right.left.mono hr) hv).bindSame
        fun t ht _ ↦ ih (Pairing.le_trans hq (Pairing.le_trans hr ht))
          (hs.right.right.mono (Pairing.le_trans hr ht))
    cases e with
    | none => exact hrest (Pairing.le_refl q) .undefined
    | some e => exact ((h.mono hq).value e hs.left).bind fun r hr _ _ hv ↦ hrest hr hv

/-! ### Loops -/

/-- Loops with the same room go round alike. -/
theorem loop {again again' : Action Bool} {round round' : Action (Option Completion)}
    (ha : Action.Alike p Same again again')
    (hr : Action.Alike p (OptionAlike Completion.Alike) round round') :
    Action.Alike p Completion.Alike (repeatRounds m.step again round m.rounds)
      (repeatRounds m'.step again' round' m'.rounds) := by
  rw [h.rounds]
  generalize m'.rounds = n
  induction n with
  | zero => exact .failure .unfinished
  | succ n ih =>
    refine ha.bindSame fun q hq b ↦ ?_
    split
    · refine (h.step.mono hq).bindSame fun r hqr _ ↦
        (hr.mono (Pairing.le_trans hq hqr)).bind fun t ht c c' hc ↦ ?_
      cases hc with
      | none => exact ih.mono (Pairing.le_trans hq (Pairing.le_trans hqr ht))
      | some hc => exact .pure hc
    · exact .pure .normal

theorem testHolds (test : Option Expr) (hs : p.Runs s s' (optExprMentions test)) :
    Action.Alike p Same (testHolds m s test) (testHolds m' s' test) := by
  cases test with
  | none => exact .pure rfl
  | some e => exact (h.value e hs).map fun _ _ _ _ hv ↦ hv.isTruthy_eq

/-- The end of a body, as the end of the loop. -/
theorem bodyEnd (body : Stmt) (hs : p.Runs s s' body.mentions) :
    Action.Alike p (OptionAlike Completion.Alike) (do return loopEnd (← m.exec s body))
      (do return loopEnd (← m'.exec s' body)) :=
  (h.exec (Pairing.le_refl p) body hs).map fun _ _ _ _ hc ↦ hc.loopEnd

theorem forRound (test update : Option Expr) (body : Stmt)
    (hs : p.Runs s s' (optExprMentions test ++ (optExprMentions update ++ body.mentions))) :
    Action.Alike p (OptionAlike Completion.Alike) (forRound m s test update body)
      (forRound m' s' test update body) := by
  refine (h.testHolds test hs.left).bindSame fun q hq b ↦ ?_
  split
  · exact .pure (.some .normal)
  · refine (Action.Alike.childScope (hs.right.right.mono hq)).bind fun r hr inner inner' hinner ↦
      (h.exec (Pairing.le_trans hq hr) body hinner).bind fun t ht c c' hc ↦ ?_
    have hle := Pairing.le_trans hq (Pairing.le_trans hr ht)
    have hend := hc.loopEnd
    generalize loopEnd c = e, loopEnd c' = e' at hend ⊢
    cases hend with
    | some he => exact .pure (.some he)
    | none =>
      cases update with
      | none => exact .pure .none
      | some e =>
        exact ((h.mono hle).value e (hs.right.left.mono hle)).discard.bindSame fun _ _ _ ↦
          .pure .none

theorem forLoop (init : Option Stmt) (test update : Option Expr) (body : Stmt)
    (hs : p.Runs s s' (optStmtMentions init ++
      (optExprMentions test ++ (optExprMentions update ++ body.mentions)))) :
    Action.Alike p Completion.Alike (forLoop m s init test update body)
      (forLoop m' s' init test update body) := by
  refine (Action.Alike.childScope hs).bind fun q hq inner inner' hinner ↦ ?_
  have hrounds {r : Pairing} (hr : q ≤ r) :=
    (h.mono (Pairing.le_trans hq hr)).loop (.pure (a := true) rfl)
      ((h.mono (Pairing.le_trans hq hr)).forRound test update body (hinner.right.mono hr))
  cases init with
  | none => exact hrounds (Pairing.le_refl q)
  | some stmt =>
    exact (h.exec hq stmt hinner.left).discard.bindSame fun _ hr _ ↦ hrounds hr

omit h in
/-- A loop over paired items runs alike when its round does. -/
theorem forEach {α β : Type} {Q : Pairing → α → β → Prop} [Stable Q]
    {round : α → Action (Option Completion)} {round' : β → Action (Option Completion)}
    {items : List α} {items' : List β} (hi : ListAlike Q p items items') :
    ∀ {q : Pairing}, p ≤ q → (∀ r, q ≤ r → ∀ a b, Q r a b →
      Action.Alike r (OptionAlike Completion.Alike) (round a) (round' b)) →
    Action.Alike q Completion.Alike (forEach round items) (forEach round' items') := by
  induction hi with
  | nil => intro q _ _; exact .pure .normal
  | cons hab _ ih =>
    intro q hq hr
    refine (hr q (Pairing.le_refl q) _ _ (Stable.mono hq hab)).bind fun r hqr c c' hc ↦ ?_
    cases hc with
    | none => exact ih (Pairing.le_trans hq hqr) fun t ht ↦ hr t (Pairing.le_trans hqr ht)
    | some hc => exact .pure hc

theorem itemRound (kind : DeclKind) (binding : Pattern) (body : Stmt)
    (hs : p.Runs s s' (binding.mentions ++ body.mentions)) {item item' : Value}
    (hi : Value.Alike p item item') :
    Action.Alike p (OptionAlike Completion.Alike) (itemRound m kind s binding body item)
      (itemRound m' kind s' binding body item') := by
  refine h.step.bindSame fun q hq _ ↦ (Action.Alike.childScope (hs.mono hq)).bind
    fun r hr inner inner' hinner ↦ ?_
  have hle := Pairing.le_trans hq hr
  exact ((h.mono hle).pattern kind binding hinner.left (Stable.mono hle hi)).bindSame fun t ht _ ↦
    (h.mono (Pairing.le_trans hle ht)).bodyEnd body (hinner.right.mono ht)

theorem whileLoop (test : Expr) (body : Stmt) (hs : p.Runs s s' (test.mentions ++ body.mentions)) :
    Action.Alike p Completion.Alike (whileLoop m s test body) (whileLoop m' s' test body) :=
  h.loop ((h.value test hs.left).map fun _ _ _ _ hv ↦ hv.isTruthy_eq) (h.bodyEnd body hs.right)

theorem doRound (body : Stmt) (test : Expr) (hs : p.Runs s s' (body.mentions ++ test.mentions)) :
    Action.Alike p (OptionAlike Completion.Alike) (doRound m s body test)
      (doRound m' s' body test) := by
  refine (h.exec (Pairing.le_refl p) body hs.left).bind fun q hq c c' hc ↦ ?_
  have hend := hc.loopEnd
  generalize loopEnd c = e, loopEnd c' = e' at hend ⊢
  cases hend with
  | some he => exact .pure (.some he)
  | none =>
    refine ((h.mono hq).value test (hs.right.mono hq)).bind fun _ _ v v' hv ↦ ?_
    rw [hv.isTruthy_eq]
    split
    · exact .pure .none
    · exact .pure (.some .normal)

/-! ### Switches -/

theorem matchingCase (cases_ : List SwitchCase) : ∀ {q : Pairing}, p ≤ q →
    q.Runs s s' (casesMentions cases_) → ∀ {subject subject' : Value},
    Value.Alike q subject subject' → ∀ i,
    Action.Alike q Same (matchingCase m s subject i cases_)
      (matchingCase m' s' subject' i cases_) := by
  induction cases_ with
  | nil => intro q _ _ subject subject' _ i; exact .pure rfl
  | cons c rest ih =>
    intro q hq hs subject subject' hsubject i
    obtain ⟨test, body⟩ := c
    cases test with
    | none => exact ih hq hs.right.right hsubject _
    | some e =>
      refine ((h.mono hq).value e hs.left).bind fun r hr v v' hv t ht w w' hw ↦ ?_
      have hle := Pairing.le_trans hr ht
      rw [hw.heap.strictEquals_eq (Stable.mono hle hsubject) (Stable.mono ht hv)]
      split
      · exact (Action.Alike.pure (Q := Same) rfl).now (Pairing.le_refl t) hw
      · exact (ih (Pairing.le_trans hq hle) (hs.right.right.mono hle)
          (Stable.mono hle hsubject) _).now (Pairing.le_refl t) hw

/-- The clauses of a switch run alike from the same clause on. -/
theorem runCases (cases_ : List SwitchCase) : ∀ {q : Pairing}, p ≤ q →
    q.Runs s s' (casesMentions cases_) →
    Action.Alike q Completion.Alike (runCases m s cases_) (runCases m' s' cases_) := by
  induction cases_ with
  | nil => intro q _ _; exact .pure .normal
  | cons c rest ih =>
    intro q hq hs
    obtain ⟨test, body⟩ := c
    refine ((h.mono hq).block body hs.right.left).bind fun r hr c c' hc ↦ ?_
    cases hc with
    | normal => exact ih (Pairing.le_trans hq hr) (hs.right.right.mono hr)
    | «return» hv => exact .pure (.return hv)
    | «break» => exact .pure .normal
    | «continue» => exact .pure .continue

theorem switch (subject : Expr) (cases_ : List SwitchCase)
    (hs : p.Runs s s' (subject.mentions ++ casesMentions cases_)) :
    Action.Alike p Completion.Alike (switch m s subject cases_)
      (switch m' s' subject cases_) := by
  refine (h.value subject hs.left).bind fun q hq v v' hv ↦
    (Action.Alike.childScope (hs.right.mono hq)).bind fun r hr inner inner' hinner ↦
    (h.matchingCase cases_ (Pairing.le_trans hq hr) hinner (Stable.mono hr hv) 0).bindSame
      fun t ht found ↦ ?_
  split
  · rename_i start _
    have hdrop : t.Runs inner inner' (casesMentions (cases_.drop start)) :=
      ⟨ht.scope hinner.scope, fun hm ↦
        (hinner.mono ht).allowed (casesMentions_drop_subset cases_ start hm)⟩
    exact h.runCases _ (Pairing.le_trans hq (Pairing.le_trans hr ht)) hdrop
  · exact .pure .normal

/-! ### Exceptions -/

/-- A handler is given paired errors and runs alike. -/
theorem handle (param : Option Pattern) (handler : List Stmt)
    (hs : p.Runs s s' (optPatternMentions param ++ blockMentions handler)) {e e' : ScriptError}
    (he : ScriptError.Alike p e e') :
    Action.Alike p Completion.Alike (handle m s param handler e)
      (handle m' s' param handler e') := by
  refine (Action.Alike.childScope hs).bind fun q hq inner inner' hinner ↦ ?_
  cases param with
  | none => exact (h.mono hq).block handler hinner
  | some target =>
    exact (Action.Alike.caught (Stable.mono hq he)).bind fun r hr _ _ hv ↦
      ((h.mono (Pairing.le_trans hq hr)).pattern .letKind target (hinner.left.mono hr) hv).bindSame
        fun t ht _ ↦ (h.mono (Pairing.le_trans hq (Pairing.le_trans hr ht))).block handler
          (hinner.right.mono (Pairing.le_trans hr ht))

theorem guarded (body : List Stmt) (param : Option Pattern) (handler : Option (List Stmt))
    (hb : p.Runs s s' (blockMentions body))
    (hs : p.Runs s s' (optPatternMentions param ++ optBlockMentions handler)) :
    Action.Alike p Completion.Alike (guarded m s body param handler)
      (guarded m' s' body param handler) := by
  cases handler with
  | none => exact h.innerBlock body hb
  | some handler =>
    exact .catching (h.innerBlock body hb) fun q hq _ _ he ↦
      (h.mono hq).handle param handler (hs.mono hq) he

/-- Guarded blocks run alike with their handlers and finalizers. -/
theorem tryCatch (body : List Stmt) (param : Option Pattern)
    (handler finalizer : Option (List Stmt))
    (hs : p.Runs s s' (blockMentions body ++
      (optPatternMentions param ++ (optBlockMentions handler ++ optBlockMentions finalizer)))) :
    Action.Alike p Completion.Alike (tryCatch m s body param handler finalizer)
      (tryCatch m' s' body param handler finalizer) := by
  have hguarded := h.guarded body param handler hs.left
    ⟨hs.scope, fun hm ↦ hs.right.allowed (by
      rw [← List.append_assoc]
      exact List.mem_append_left _ hm)⟩
  cases finalizer with
  | none => exact hguarded
  | some f => exact h.finalize (Pairing.le_refl p) hguarded (h.innerBlock f hs.right.right.right)

/-! ### All statements and calls -/

/-- Every statement runs alike in paired scopes that allow its mentions. -/
theorem statement (stmt : Stmt) (hs : p.Runs s s' stmt.mentions) :
    Action.Alike p Completion.Alike (statement m s stmt) (statement m' s' stmt) := by
  refine h.step.bindSame fun q hq _ ↦ ?_
  replace hs := hs.mono hq
  replace h := h.mono hq
  have hle := Pairing.le_refl q
  cases stmt with
  | expr e => exact (h.value e hs).discard.bindSame fun _ _ _ ↦ .pure .normal
  | declare kind ds => exact (h.declarations kind ds hle hs).bindSame fun _ _ _ ↦ .pure .normal
  | «return» value =>
    cases value with
    | none => exact .pure (.return .undefined)
    | some e => exact (h.value e hs).map fun _ _ _ _ hv ↦ .return hv
  | ifElse test a b =>
    refine (h.value test hs.left).bind fun r hr v v' hv ↦ ?_
    rw [hv.isTruthy_eq]
    split
    · exact h.exec hr a (hs.right.left.mono hr)
    · cases b with
      | none => exact .pure .normal
      | some b => exact h.exec hr b (hs.right.right.mono hr)
  | block body => exact h.innerBlock body hs
  | forLoop init test update body => exact h.forLoop init test update body hs
  | forOf kind binding e body =>
    exact (h.value e hs.left).bind fun r hr _ _ hv ↦ (Action.Alike.iterate hv).bind
      fun t ht _ _ hitems ↦ forEach hitems (Pairing.le_refl t) fun u hu _ _ hi ↦
        have hle := Pairing.le_trans hr (Pairing.le_trans ht hu)
        (h.mono hle).itemRound kind binding body (hs.right.mono hle) hi
  | forIn kind binding e body =>
    refine (h.value e hs.left).bind fun r hr v v' hv ↦ .read fun t ht hl hl' hh ↦ ?_
    rw [hh.enumerableKeys_eq (Stable.mono ht hv)]
    exact forEach (Q := Same) (List.forall₂_same.2 fun _ _ ↦ rfl) (Pairing.le_refl t)
      fun u hu key key' hkey ↦ by
        obtain rfl : key = key' := hkey
        have hle := Pairing.le_trans hr (Pairing.le_trans ht hu)
        exact (h.mono hle).itemRound kind binding body (hs.right.mono hle) (.string key)
  | whileLoop test body => exact h.whileLoop test body hs
  | doWhile body test => exact h.loop (.pure rfl) (h.doRound body test hs)
  | switch subject cases_ => exact h.switch subject cases_ hs
  | throw e => exact (h.value e hs).bind fun _ _ _ _ hv ↦ .throwValue hv
  | tryCatch body param handler finalizer => exact h.tryCatch body param handler finalizer hs
  | function _ => exact .pure .normal
  | empty => exact .pure .normal
  | «break» => exact .pure .break
  | «continue» => exact .pure .continue

/-- Parameters are bound alike to paired arguments. -/
theorem bindParams (params : List Pattern) : ∀ {q : Pairing}, p ≤ q →
    q.Runs s s' (paramsMentions params) → ∀ {args args' : List Value},
    ListAlike Value.Alike q args args' →
    Action.Alike q (ListAlike Value.Alike) (bindParams m s params args)
      (bindParams m' s' params args') := by
  induction params with
  | nil => intro q _ _ args args' hargs; exact .pure hargs
  | cons target rest ih =>
    intro q hq hs args args' hargs
    exact ((h.mono hq).pattern .letKind target hs.left (hargs.headD .undefined)).bindSame
      fun r hr _ ↦ ih (Pairing.le_trans hq hr) (hs.right.mono hr) (Stable.mono hr hargs.tail)

/-- A closure runs alike when it is called in paired captured scopes. -/
theorem callClosure (code : FunctionDef) {captured captured' : ScopeId}
    (hs : p.Runs captured captured' code.mentions) {self self' : Value}
    (hself : Value.Alike p self self') {args args' : List Value}
    (hargs : ListAlike Value.Alike p args args') :
    Action.Alike p Value.Alike (callClosure m code captured self args)
      (callClosure m' code captured' self' args') := by
  obtain ⟨name, params, rest, body, arrow⟩ := code
  have hreceiver : OptionAlike Value.Alike p (if arrow then none else some self)
      (if arrow then none else some self') := by
    split
    · exact .none
    · exact .some hself
  refine (Action.Alike.newScope hs hreceiver true).bind fun q hq s s' hs ↦
    (h.bindParams params hq hs.left (Stable.mono hq hargs)).bind fun r hr extra extra' hextra ↦ ?_
  have hle := Pairing.le_trans hq hr
  replace hs := hs.right.mono hr
  cases rest with
  | none => exact (h.mono hle).program body hs.right
  | some target =>
    exact (Action.Alike.newArray (.ofList hextra)).bind fun t ht _ _ hv ↦
      ((h.mono (Pairing.le_trans hle ht)).pattern .letKind target (hs.left.mono ht) hv).bindSame
        fun u hu _ ↦ (h.mono (Pairing.le_trans hle (Pairing.le_trans ht hu))).program body
          (hs.right.mono (Pairing.le_trans ht hu))

/-- Paired functions called with paired arguments run alike, closures, natives and bound functions. -/
theorem perform {fn fn' : Function} (hfn : Function.Alike p fn fn') {self self' : Value}
    (hself : Value.Alike p self self') {args args' : List Value}
    (hargs : ListAlike Value.Alike p args args') :
    Action.Alike p Value.Alike (perform m self args fn) (perform m' self' args' fn') := by
  cases hfn with
  | native hn => exact .native h.call hn hself hargs
  | bound ht hself => exact h.invoke (Pairing.le_refl p) ht hself hargs
  | closure hs => exact h.callClosure _ hs hself hargs

/-- Paired function cells called with paired arguments run alike. -/
theorem apply {f f' : FunctionId} (hf : p.function f.index f'.index) {self self' : Value}
    (hself : Value.Alike p self self') {args args' : List Value}
    (hargs : ListAlike Value.Alike p args args') :
    Action.Alike p Value.Alike (apply m f self args) (apply m' f' self' args') :=
  .read fun _ hq _ _ hh ↦ (h.mono hq).perform (hh.function (hq.function hf))
    (Stable.mono hq hself) (Stable.mono hq hargs)

end Machine.Alike

end Nodecraft.Sandbox
