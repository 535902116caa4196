import Nodecraft.Proofs.Sandbox.Probe
import Nodecraft.Proofs.Sandbox.Region
import Nodecraft.Script.Syntax

/-!
# What pure code does

Pure code reads the cells that it comes by and makes new ones. Where no cell that it comes by is a
computed one, reading runs no other code, so it changes none of the cells that it finds: evaluating
pure expressions keeps to any region, and so does binding the names of pure patterns
(`machine_gathers`). The rules of evaluation ask their machine only about parts of a construct,
which are as pure as the construct.

An expression or a pattern is pure (`Expr.isPure`, `Pattern.isPure`) if it contains no assignment,
no update, no deletion and no call. Functions that it makes may contain anything, since nothing in
it calls them.
-/

set_option autoImplicit false

namespace Nodecraft.Script

mutual

def Expr.isPure : Expr → Bool
  | .literal _ => true
  | .template _ es => exprsPure es
  | .name _ => true
  | .this => true
  | .array items => itemsPure items
  | .object properties => propertiesPure properties
  | .function _ => true
  | .unary _ e => e.isPure
  | .binary _ a b => a.isPure && b.isPure
  | .logical _ a b => a.isPure && b.isPure
  | .conditional t a b => t.isPure && (a.isPure && b.isPure)
  | .assign _ _ _ => false
  | .update _ _ _ => false
  | .delete _ => false
  | .member object key _ => object.isPure && key.isPure
  | .call _ _ _ => false
  | .chain inner => inner.isPure
  | .sequence es => exprsPure es

def exprsPure : List Expr → Bool
  | [] => true
  | e :: rest => e.isPure && exprsPure rest

def itemsPure : List Item → Bool
  | [] => true
  | .value e :: rest => e.isPure && itemsPure rest
  | .spread e :: rest => e.isPure && itemsPure rest
  | .hole :: rest => itemsPure rest

def propertiesPure : List Property → Bool
  | [] => true
  | .entry key e :: rest => key.isPure && (e.isPure && propertiesPure rest)
  | .spread e :: rest => e.isPure && propertiesPure rest

def PropertyKey.isPure : PropertyKey → Bool
  | .fixed _ => true
  | .computed e => e.isPure

def MemberKey.isPure : MemberKey → Bool
  | .fixed _ => true
  | .computed e => e.isPure

end

mutual

def Pattern.isPure : Pattern → Bool
  | .name _ => true
  | .object fields rest => fieldsPure fields && optPatternPure rest
  | .array elements rest => elementsPure elements && optPatternPure rest
  | .withDefault target fallback => target.isPure && fallback.isPure

def optPatternPure : Option Pattern → Bool
  | none => true
  | some p => p.isPure

def fieldsPure : List PatternField → Bool
  | [] => true
  | .field key target :: rest => key.isPure && (target.isPure && fieldsPure rest)

def elementsPure : List (Option Pattern) → Bool
  | [] => true
  | none :: rest => elementsPure rest
  | some p :: rest => p.isPure && elementsPure rest

end

end Nodecraft.Script

namespace Nodecraft.Sandbox

open Script Evaluation

/-- What the machine does with pure code in scopes made since keeps to the region. Declarations of
functions' scopes are left out: such a scope may be an old one. -/
structure Machine.Gathers (r : Region) (m : Machine) : Prop where
  eval {s : ScopeId} (hs : r.Opens s) {e : Expr} : e.isPure = true →
    Action.Gathers r r.Has (m.eval s e)
  link {s : ScopeId} (hs : r.Opens s) {e : Expr} : e.isPure = true →
    Action.Gathers r (fun v ↦ ∀ u ∈ v, r.Has u) (m.link s e)
  bind {kind : DeclKind} (hkind : kind ≠ .var) {s : ScopeId} (hs : r.Opens s) {p : Pattern}
    {v : Value} : p.isPure = true → r.Has v → Action.Gathers r (fun _ ↦ True) (m.bind kind s p v)

namespace Machine.Gathers

variable {r : Region} {m : Machine} (h : m.Gathers r) {s : ScopeId} (hs : r.Opens s)

include h hs

/-- A computed key converts what its expression gathered. -/
theorem key {e : Expr} (he : e.isPure = true) : Action.Gathers r (fun _ ↦ True)
    (do let v ← m.eval s e; return (← Action.heap).key v) :=
  (h.eval hs he).bind fun _ _ ↦ .read fun _ _ ↦ .pure trivial

theorem propertyKey {key : PropertyKey} (hkey : key.isPure = true) :
    Action.Gathers r (fun _ ↦ True) (propertyKey m s key) := by
  cases key with
  | fixed name => exact .pure trivial
  | computed e => exact h.key hs hkey

theorem memberKey {key : MemberKey} (hkey : key.isPure = true) :
    Action.Gathers r (fun _ ↦ True) (memberKey m s key) := by
  cases key with
  | fixed name => exact .pure trivial
  | computed e => exact h.key hs hkey

omit h hs in
theorem readFields {v : Value} (hv : r.Has v) (keys : List String) :
    Action.Gathers r (fun entries ↦ ∀ entry ∈ entries, r.Has entry.2) (readFields m v keys) := by
  induction keys with
  | nil => exact .pure nofun
  | cons key rest ih =>
    exact (Action.Gathers.getProperty m.call hv key).bind fun u hu ↦ ih.map fun entries hentries ↦
      List.forall_mem_cons.2 ⟨hu, hentries⟩

/-! ### Patterns -/

variable {kind : DeclKind} (hkind : kind ≠ .var)

include hkind

theorem bindFields {v : Value} (hv : r.Has v) {fields : List PatternField} :
    fieldsPure fields = true →
      Action.Gathers r (fun _ ↦ True) (bindFields m kind s v fields) := by
  induction fields with
  | nil => exact fun _ ↦ .pure trivial
  | cons field rest ih =>
    intro hpure
    obtain ⟨key, target⟩ := field
    simp only [fieldsPure, Bool.and_eq_true] at hpure
    exact (h.propertyKey hs hpure.1).bind fun key _ ↦
      (Action.Gathers.getProperty m.call hv key).bind fun u hu ↦
        (h.bind hkind hs hpure.2.1 hu).bind fun _ _ ↦ (ih hpure.2.2).map fun _ _ ↦ trivial

theorem bindObject {v : Value} (hv : r.Has v) {fields : List PatternField} {rest : Option Pattern}
    (hfields : fieldsPure fields = true) (hrest : optPatternPure rest = true) :
    Action.Gathers r (fun _ ↦ True) (bindObject m kind s fields rest v) := by
  unfold Evaluation.bindObject
  split
  · exact (Action.Gathers.text v).bind fun _ _ ↦ .typeError _
  · refine (h.bindFields hs hkind hv hfields).bind fun used _ ↦ ?_
    cases rest with
    | none => exact .pure trivial
    | some target =>
      refine .read fun heap _ ↦ (readFields hv _).bind fun entries hentries ↦ ?_
      refine (Action.Gathers.newPlain fun entry hentry ↦ ?_).bind fun u hu ↦
        h.bind hkind hs hrest hu
      exact hentries entry ((Fields.mem_insertAll hentry).resolve_left List.not_mem_nil)

theorem bindElements {elements : List (Option Pattern)} : elementsPure elements = true →
    ∀ {values : List Value}, (∀ v ∈ values, r.Has v) →
      Action.Gathers r (fun _ ↦ True) (bindElements m kind s elements values) := by
  induction elements with
  | nil => exact fun _ _ _ ↦ .pure trivial
  | cons element rest ih =>
    intro hpure values hvalues
    have htail : ∀ v ∈ values.tail, r.Has v := fun v hv ↦ hvalues v (List.mem_of_mem_tail hv)
    cases element with
    | none => exact ih hpure htail
    | some target =>
      simp only [elementsPure, Bool.and_eq_true] at hpure
      refine (h.bind hkind hs hpure.1 ?_).bind fun _ _ ↦ ih hpure.2 htail
      cases values with
      | nil => trivial
      | cons v values => exact hvalues v List.mem_cons_self

theorem bindArray {v : Value} (hv : r.Has v) {elements : List (Option Pattern)}
    {rest : Option Pattern} (helements : elementsPure elements = true)
    (hrest : optPatternPure rest = true) :
    Action.Gathers r (fun _ ↦ True) (bindArray m kind s elements rest v) := by
  refine (Action.Gathers.iterate hv).bind fun values hvalues ↦
    (h.bindElements hs hkind helements hvalues).bind fun _ _ ↦ ?_
  cases rest with
  | none => exact .pure trivial
  | some target =>
    refine (Action.Gathers.newArray fun u hu ↦ ?_).bind fun u hu ↦ h.bind hkind hs hrest hu
    exact hvalues u (List.mem_of_mem_drop (List.mem_toArray.1 hu))

/-- A pure pattern declares covered values in a scope of its own. -/
theorem bindPattern {v : Value} (hv : r.Has v) {p : Pattern} (hp : p.isPure = true) :
    Action.Gathers r (fun _ ↦ True) (bindPattern m kind s v p) := by
  cases p with
  | name name =>
    cases kind with
    | var => exact absurd rfl hkind
    | letKind | constKind => exact .declare hs name hv _
  | withDefault target fallback =>
    simp only [Pattern.isPure, Bool.and_eq_true] at hp
    cases v with
    | undefined => exact (h.eval hs hp.2).bind fun u hu ↦ h.bind hkind hs hp.1 hu
    | _ => exact h.bind hkind hs hp.1 hv
  | object fields rest =>
    simp only [Pattern.isPure, Bool.and_eq_true] at hp
    exact h.bindObject hs hkind hv hp.1 hp.2
  | array elements rest =>
    simp only [Pattern.isPure, Bool.and_eq_true] at hp
    exact h.bindArray hs hkind hv hp.1 hp.2

omit hkind

/-! ### Expressions -/

theorem templateText {es : List Expr} : exprsPure es = true → ∀ texts,
    Action.Gathers r (fun _ ↦ True) (templateText m s texts es) := by
  induction es with
  | nil =>
    intro _ texts
    induction texts with
    | nil => exact .pure trivial
    | cons t texts ih => exact ih.map fun _ _ ↦ trivial
  | cons e rest ih =>
    intro hpure texts
    simp only [exprsPure, Bool.and_eq_true] at hpure
    cases texts with
    | nil => exact .pure trivial
    | cons t texts =>
      exact (h.eval hs hpure.1).bind fun v _ ↦ (Action.Gathers.text v).bind fun _ _ ↦
        (ih hpure.2 texts).map fun _ _ ↦ trivial

theorem values {items : List Item} : itemsPure items = true →
    Action.Gathers r (fun vs ↦ ∀ v ∈ vs, r.Has v) (values m s items) := by
  induction items with
  | nil => exact fun _ ↦ .pure nofun
  | cons item rest ih =>
    intro hpure
    cases item with
    | value e =>
      simp only [itemsPure, Bool.and_eq_true] at hpure
      exact (h.eval hs hpure.1).bind fun v hv ↦ (ih hpure.2).map fun vs hvs ↦
        List.forall_mem_cons.2 ⟨hv, hvs⟩
    | spread e =>
      simp only [itemsPure, Bool.and_eq_true] at hpure
      exact (h.eval hs hpure.1).bind fun v hv ↦ (Action.Gathers.iterate hv).bind fun us hus ↦
        (ih hpure.2).map fun vs hvs ↦ List.forall_mem_append.2 ⟨hus, hvs⟩
    | hole =>
      exact (ih hpure).map fun vs hvs ↦ List.forall_mem_cons.2 ⟨trivial, hvs⟩

theorem objectFields {properties : List Property} : propertiesPure properties = true →
    ∀ {fields : Fields Value}, (∀ entry ∈ fields, r.Has entry.2) →
      Action.Gathers r (fun fields ↦ ∀ entry ∈ fields, r.Has entry.2)
        (objectFields m s fields properties) := by
  induction properties with
  | nil => exact fun _ _ hfields ↦ .pure hfields
  | cons property rest ih =>
    intro hpure fields hfields
    cases property with
    | entry key e =>
      simp only [propertiesPure, Bool.and_eq_true] at hpure
      refine (h.propertyKey hs hpure.1).bind fun key _ ↦ (h.eval hs hpure.2.1).bind fun v hv ↦
        ih hpure.2.2 fun entry hentry ↦ ?_
      rcases Fields.mem_insert hentry with hold | rfl
      · exact hfields entry hold
      · exact hv
    | spread e =>
      simp only [propertiesPure, Bool.and_eq_true] at hpure
      refine (h.eval hs hpure.1).bind fun source hsource ↦ .read fun heap _ ↦
        (readFields hsource _).bind fun entries hentries ↦ ih hpure.2 fun entry hentry ↦ ?_
      rcases Fields.mem_insertAll hentry with hold | hnew
      · exact hfields entry hold
      · exact hentries entry hnew

theorem unaryExpr (op : UnaryOp) {e : Expr} (he : e.isPure = true) :
    Action.Gathers r r.Has (unaryExpr m s op e) := by
  unfold Evaluation.unaryExpr
  split
  · exact (Action.Gathers.lookup m.call _ hs).map fun _ _ ↦ trivial
  · exact (h.eval hs he).bind fun v _ ↦ .unary _ v

/-- A read of a member. -/
theorem memberLink {object : Expr} {key : MemberKey} (hobject : object.isPure = true)
    (hkey : key.isPure = true) (isOptional : Bool) :
    Action.Gathers r (fun v ↦ ∀ u ∈ v, r.Has u) (memberLink m s object key isOptional) := by
  refine (h.link hs hobject).bind fun target htarget ↦ ?_
  cases target with
  | none => exact .pure nofun
  | some target =>
    dsimp only
    split
    · exact .pure nofun
    · exact (h.memberKey hs hkey).bind fun key _ ↦
        (Action.Gathers.getProperty m.call (htarget target rfl) key).map fun v hv u hu ↦
          Option.some.inj hu ▸ hv

/-- A chain of reads. -/
theorem chainLink {e : Expr} (he : e.isPure = true) :
    Action.Gathers r (fun v ↦ ∀ u ∈ v, r.Has u) (chainLink m s e) := by
  cases e with
  | member object key isOptional =>
    simp only [Expr.isPure, Bool.and_eq_true] at he
    exact h.memberLink hs he.1 he.2 isOptional
  | call target arguments isOptional => exact nomatch he
  | _ => exact (h.eval hs he).map fun v hv u hu ↦ Option.some.inj hu ▸ hv

theorem sequence {es : List Expr} : exprsPure es = true → ∀ {last : Value}, r.Has last →
    Action.Gathers r r.Has (sequence m s last es) := by
  induction es with
  | nil => exact fun _ _ hlast ↦ .pure hlast
  | cons e rest ih =>
    intro hpure last _
    simp only [exprsPure, Bool.and_eq_true] at hpure
    exact (h.eval hs hpure.1).bind fun v hv ↦ ih hpure.2 hv

/-- A pure expression gathers covered values and changes nothing it has not made. -/
theorem expression {e : Expr} (he : e.isPure = true) :
    Action.Gathers r r.Has (expression m s e) := by
  have hgetD {v : Option Value} (hv : ∀ u ∈ v, r.Has u) : r.Has (v.getD .undefined) := by
    cases v with
    | none => trivial
    | some u => exact hv u rfl
  cases e with
  | literal value => cases value <;> exact .pure trivial
  | template texts es => exact (h.templateText hs he texts).map fun _ _ ↦ trivial
  | name n => exact .readName m.call n hs
  | this => exact .read fun heap hr ↦ .pure (hr.self hs)
  | array items =>
    exact (h.values hs he).bind fun vs hvs ↦ .newArray fun v hv ↦ hvs v (List.mem_toArray.1 hv)
  | object properties =>
    exact (h.objectFields hs he fun _ hentry ↦ absurd hentry List.not_mem_nil).bind
      fun fields hfields ↦ .newPlain hfields
  | function code => exact .newFunction _
  | unary op e => exact h.unaryExpr hs op he
  | binary op a b =>
    simp only [Expr.isPure, Bool.and_eq_true] at he
    exact (h.eval hs he.1).bind fun a _ ↦ (h.eval hs he.2).bind fun b _ ↦ .binary op a b
  | logical op a b =>
    simp only [Expr.isPure, Bool.and_eq_true] at he
    refine (h.eval hs he.1).bind fun a ha ↦ ?_
    split
    · exact .pure ha
    · exact h.eval hs he.2
  | conditional t a b =>
    simp only [Expr.isPure, Bool.and_eq_true] at he
    refine (h.eval hs he.1).bind fun v _ ↦ ?_
    split
    · exact h.eval hs he.2.1
    · exact h.eval hs he.2.2
  | assign op target e => exact nomatch he
  | update increment before target => exact nomatch he
  | delete target => exact nomatch he
  | member object key isOptional =>
    simp only [Expr.isPure, Bool.and_eq_true] at he
    exact (h.memberLink hs he.1 he.2 isOptional).map fun _ hv ↦ hgetD hv
  | call callee arguments isOptional => exact nomatch he
  | chain inner => exact (h.link hs (e := inner) he).map fun _ hv ↦ hgetD hv
  | sequence es => exact h.sequence hs he trivial

end Machine.Gathers

/-- Pure code reads what it comes by and makes new cells, and does nothing else. -/
theorem machine_gathers (r : Region) (n : Nat) : (machineWithin n).Gathers r := by
  rw [← probe_never]
  induction n with
  | zero =>
    exact {
      eval := fun _ _ _ ↦ .failure nofun
      link := fun _ _ _ ↦ .failure nofun
      bind := fun _ _ _ _ _ _ _ ↦ .failure nofun }
  | succ n ih =>
    have hprobe : probe Stop.never (n + 1) = (probe Stop.never n).probing Stop.never := rfl
    rw [hprobe]
    have hroom : (probe Stop.never n).room = Action.room := probe_room Stop.never n
    have hnested {x : Action Value} (hx : Action.Gathers r r.Has x) :
        Action.Gathers r r.Has ((probe Stop.never n).nested x) := by
      unfold Machine.nested
      rw [hroom]
      exact Action.Gathers.room.bind fun _ _ ↦ hx.entering
    exact {
      eval := fun hs _ he ↦ hnested (ih.expression hs he)
      link := fun hs _ he ↦ ih.chainLink hs he
      bind := fun hkind _ hs _ _ hp hv ↦ ih.bindPattern hs hkind hv hp }

end Nodecraft.Sandbox
