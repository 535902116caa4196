import Nodecraft.Proofs.Template.Purity
import Nodecraft.Proofs.Template.Rules
import Nodecraft.Template.Compile

/-!
# Rendering again

Rendering a pure template reads the cells that its state leads to and makes new ones, so it finds
the same when it is repeated, although what it makes lies at other places then. The walk over a
template shows both at once (`render_repeats`): each step keeps to the region below the state, and
does the same in a world that is alike along the cells that were there before.

`Template.rendering_repeats` puts them together: all cells are left as they are, and a second
rendering of the same state ends with the same error, or with the same view, whose handlers run in
scopes that stand for those of the first.
-/

set_option autoImplicit false

namespace Nodecraft.Template

open Script Sandbox

variable {r : Region} {p : Pairing}

/-! ### Handlers and attributes -/

/-- The same handler, for scopes that stand for each other. -/
structure BoundHandler.Alike (p : Pairing) (b b' : BoundHandler) : Prop where
  handler : b.handler = b'.handler
  scope : p.scope b.scope.index b'.scope.index

instance : Stable BoundHandler.Alike where
  mono hle _ _ h := ⟨h.handler, hle.scope h.scope⟩

structure Evaluated.Alike (p : Pairing) (acc acc' : Evaluated) : Prop where
  classes : acc.classes = acc'.classes
  styles : acc.styles = acc'.styles
  values : FieldsAlike Value.Alike p acc.values acc'.values

instance : Stable Evaluated.Alike where
  mono hle _ _ h := ⟨h.classes, h.styles, Stable.mono hle h.values⟩

section

variable {acc acc' : Evaluated} {h h' : Heap}

/-- Values that are alike give the same attribute. -/
theorem setAttribute_alike (hh : Heap.Alike p h h') (entries : List (String × String))
    (name : String) {v v' : Value} (hv : Value.Alike p v v') :
    setAttribute h entries name v = setAttribute h' entries name v' := by
  have htext := hh.text_eq hv
  cases hv with
  | bool b => cases b <;> rfl
  | undefined | null => rfl
  | _ => exact congrArg (setSorted entries name) htext

/-- Elements evaluated alike have the same attributes. -/
theorem Evaluated.Alike.attributes_eq (hacc : Evaluated.Alike p acc acc')
    (hh : Heap.Alike p h h') : acc.attributes h = acc'.attributes h' := by
  unfold Evaluated.attributes
  rw [hacc.classes, hacc.styles]
  exact hacc.values.foldl_eq (fun entries name _ _ hv ↦ setAttribute_alike hh entries name hv) _

/-- Elements evaluated alike have the same props. -/
theorem Evaluated.Alike.props_eq (hacc : Evaluated.Alike p acc acc')
    (hh : Heap.Alike p h h') : acc.props h = acc'.props h' := by
  unfold Evaluated.props
  rw [hacc.classes, hacc.styles]
  refine hacc.values.foldl_eq (fun entries name _ _ hv ↦ ?_) _
  dsimp only
  rw [hh.document_eq hv]

end

/-! ### Evaluating and reading -/

variable (n : Nat) {s s' : ScopeId} (hs : r.Twins p s s')

include hs

/-- A pure expression is evaluated alike a second time. -/
theorem valueOf_repeats {e : Expr} (he : e.isPure = true) :
    Action.Repeats r p r.Shares (valueOf (machineWithin n) s e)
      (valueOf (machineWithin n) s' e) := by
  rw [valueOf_eq, valueOf_eq]
  refine .of_alike (Q := Value.Alike) (P := r.Has) ?_ ?_
  · refine .catching ((machine_alike p n).value e (hs.runs _)) fun q _ e e' he ↦ ?_
    cases he with
    | unbound name => exact .pure .undefined
    | thrown message hv => exact .raise (.thrown message hv)
    | type message => exact .raise (.type message)
    | callDepth limit => exact .raise (.callDepth limit)
    | stepBudget limit => exact .raise (.stepBudget limit)
    | stackExhausted => exact .raise .stackExhausted
  · refine .catching ((machine_gathers r n).eval hs.opens he) fun e he ↦ ?_
    cases e with
    | unbound name => exact .pure trivial
    | _ => exact .failure he

/-- A pure pattern is bound alike a second time. -/
theorem pattern_repeats {pattern : Pattern} (hpure : pattern.isPure = true) {v v' : Value}
    (hv : r.Shares p v v') :
    Action.Repeats r p Same ((machineWithin n).bind .constKind s pattern v)
      ((machineWithin n).bind .constKind s' pattern v') := by
  have hgathers : Action.Gathers r (fun _ ↦ True) ((machineWithin n).bind .constKind s pattern v) :=
    (machine_gathers r n).bind (fun h : DeclKind.constKind = .var ↦ nomatch h) hs.opens hpure hv.2
  exact (Action.Repeats.of_alike ((machine_alike p n).pattern .constKind pattern (hs.runs _) hv.1)
    hgathers).imp fun _ _ _ _ h ↦ h.1

omit hs in
/-- So is a property read. -/
theorem getProperty_repeats {target target' : Value} (ht : r.Shares p target target')
    (key : String) :
    Action.Repeats r p r.Shares (Action.getProperty (machineWithin n).call target key)
      (Action.getProperty (machineWithin n).call target' key) :=
  .of_alike (.getProperty (machine_alike p n).call ht.1 key)
    (.getProperty _ ht.2 key)

/-- Scopes made at the same point are twins. -/
theorem childScope_repeats :
    Action.Repeats r p r.Twins (Action.childScope s) (Action.childScope s') := by
  have halike : Action.Alike p
      (fun q inner inner' ↦ q.scope inner.index inner'.index ∧ ∀ m, q.allows inner.index m)
      (Action.childScope s) (Action.childScope s') := by
    unfold Action.childScope Action.newScope
    refine .allocate fun q hq h h' hh ↦ ?_
    have hs' := hs.mono hq
    have hinner : Scope.Alike q (q.allows s.index) ⟨[], some s, none, none, false⟩
        ⟨[], some s', none, none, false⟩ := {
      binding := fun _ ↦ .none
      parent := .some ⟨hs'.scope, fun _ ↦ Iff.rfl⟩
      fallback := .none
      self := .none
      isFunction := rfl
      unbound := fun _ ↦ ⟨rfl, rfl⟩ }
    obtain ⟨t, hm, hscope, hallows⟩ := hh.moreScope hs'.scope hinner
    exact ⟨t, hm, hscope, fun m ↦ (hallows m).2 (hs'.allows m)⟩
  exact (Action.Repeats.of_alike halike (.childScope hs.opens)).imp
    fun _ _ _ _ h ↦ ⟨h.2, h.1.1, h.1.2⟩

/-! ### Texts, loops and attributes -/

/-- A text is the same a second time. -/
theorem interpolate_repeats {parts : List TextPart} : parts.all TextPart.isPure = true →
    ∀ {q : Pairing}, p ≤ q →
      Action.Repeats r q Same (interpolate (machineWithin n) s parts)
        (interpolate (machineWithin n) s' parts) := by
  induction parts with
  | nil => exact fun _ _ _ ↦ .pure rfl
  | cons part rest ih =>
    intro hpure q hq
    rw [List.all_cons, Bool.and_eq_true] at hpure
    cases part with
    | fixed text => exact (ih hpure.2 hq).bindSame fun _ _ _ ↦ .pure rfl
    | shown e =>
      refine (valueOf_repeats n (hs.mono hq) hpure.1).bind fun q₁ hq₁ v v' hv ↦
        .read fun q₂ hq₂ h h' hh _ _ ↦ ?_
      have hle := Pairing.le_trans hq (Pairing.le_trans hq₁ hq₂)
      dsimp only
      rw [hh.display_eq (Stable.mono hq₂ hv.1)]
      exact (ih hpure.2 hle).bindSame fun _ _ _ ↦ .pure rfl

omit hs

theorem objectRows_repeats {source source' : Value} (keys : List String) :
    ∀ {q : Pairing} (i : Nat), r.Shares q source source' →
      Action.Repeats r q (ListAlike (ListAlike r.Shares))
        (objectRows (machineWithin n) source i keys)
        (objectRows (machineWithin n) source' i keys) := by
  induction keys with
  | nil => exact fun _ _ ↦ .pure .nil
  | cons key rest ih =>
    intro q i hsource
    refine (getProperty_repeats n hsource key).bind fun q₁ hq₁ v v' hv ↦
      (ih (i + 1) (Stable.mono hq₁ hsource)).bind fun q₂ hq₂ rows rows' hrows ↦
        .pure (.cons (.cons (Stable.mono hq₂ hv) (.cons ⟨.string key, trivial⟩
          (.cons ⟨.number _, trivial⟩ .nil))) hrows)

omit n in
theorem withIndices_shares {vs vs' : List Value} (hvs : ListAlike r.Shares p vs vs') :
    ListAlike (ListAlike r.Shares) p (withIndices vs) (withIndices vs') := by
  unfold withIndices
  generalize 0 = start
  induction hvs generalizing start with
  | nil => exact .nil
  | cons hv _ ih =>
    rw [List.zipIdx_cons, List.zipIdx_cons]
    exact .cons (.cons hv (.cons ⟨.number _, trivial⟩ .nil)) (ih _)

omit n in
/-- Lists that are alike, of values of the region. -/
theorem shares_of_alike {vs vs' : List Value} (hvs : ListAlike Value.Alike p vs vs')
    (hhas : ∀ v ∈ vs, r.Has v) : ListAlike r.Shares p vs vs' := by
  induction hvs with
  | nil => exact .nil
  | cons hv _ ih =>
    obtain ⟨hfirst, hrest⟩ := List.forall_mem_cons.1 hhas
    exact .cons ⟨hv, hfirst⟩ (ih hrest)

/-- A loop has the same rows a second time. -/
theorem loopRows_repeats {source source' : Value} (hsource : r.Shares p source source') :
    Action.Repeats r p (ListAlike (ListAlike r.Shares)) (loopRows (machineWithin n) source)
      (loopRows (machineWithin n) source') := by
  obtain ⟨hv, hhas⟩ := hsource
  cases hv with
  | undefined | null | bool | function => exact .pure .nil
  | array ha =>
    refine .read fun q hq h h' hh _ hcovers ↦ .pure (withIndices_shares ?_)
    exact shares_of_alike (hh.array (hq.array ha)) (hcovers.items hhas)
  | string s =>
    exact .pure (withIndices_shares (.ofMap fun c ↦ ⟨.string _, trivial⟩))
  | number x =>
    unfold loopRows
    dsimp only
    split
    · exact .typeError _
    · exact .pure (.ofMap fun i ↦ .cons ⟨.number _, trivial⟩ (.cons ⟨.number _, trivial⟩ .nil))
  | object ho =>
    refine .read fun q hq h h' hh _ _ ↦ ?_
    rw [hh.enumerableKeys_eq (.object (hq.object ho))]
    exact objectRows_repeats n _ 0 ⟨.object (hq.object ho), hhas⟩

include hs in
/-- They are bound alike. -/
theorem bindAliases_repeats {aliases : List Pattern} : aliases.all Pattern.isPure = true →
    ∀ {q : Pairing}, p ≤ q → ∀ {vs vs' : List Value}, ListAlike r.Shares q vs vs' →
      Action.Repeats r q Same (bindAliases (machineWithin n) s aliases vs)
        (bindAliases (machineWithin n) s' aliases vs') := by
  induction aliases with
  | nil => exact fun _ _ _ _ _ _ ↦ .pure rfl
  | cons alias_ rest ih =>
    intro hpure q hq vs vs' hvs
    rw [List.all_cons, Bool.and_eq_true] at hpure
    cases hvs with
    | nil => exact .pure rfl
    | cons hv hvs =>
      exact (pattern_repeats n (hs.mono hq) hpure.1 hv).bindSame fun q₁ hq₁ _ ↦
        ih hpure.2 (Pairing.le_trans hq hq₁) (Stable.mono (Q := ListAlike r.Shares) hq₁ hvs)

omit n in
theorem addValue_repeats {acc acc' : Evaluated} (hacc : Evaluated.Alike p acc acc') (name : String)
    {v v' : Value} (hv : Value.Alike p v v') :
    Action.Repeats r p Evaluated.Alike (addValue acc name v) (addValue acc' name v') := by
  refine .read fun q hq h h' hh hin _ ↦ ?_
  have hacc := Stable.mono hq hacc
  have hv := Stable.mono hq hv
  rw [classText?_alike hh hv hin, styleText?_alike hh hv hin, hacc.classes, hacc.styles]
  split
  · cases classText? h' v' with
    | some text => exact .pure ⟨rfl, rfl, hacc.values⟩
    | none => exact .unfinished
  · split
    · cases styleText? h' v' with
      | some text => exact .pure ⟨rfl, rfl, hacc.values⟩
      | none => exact .unfinished
    · exact .pure ⟨rfl, rfl, List.rel_append hacc.values (.cons ⟨rfl, hv⟩ .nil)⟩

/-- A spread object is read alike. -/
theorem addEntries_repeats {source source' : Value} (keys : List String) : ∀ {q : Pairing},
    r.Shares q source source' → ∀ {acc acc' : Evaluated}, Evaluated.Alike q acc acc' →
      Action.Repeats r q Evaluated.Alike (addEntries (machineWithin n) source acc keys)
        (addEntries (machineWithin n) source' acc' keys) := by
  induction keys with
  | nil => exact fun _ _ _ hacc ↦ .pure hacc
  | cons key rest ih =>
    intro q hsource acc acc' hacc
    exact (getProperty_repeats n hsource key).bind fun q₁ hq₁ v v' hv ↦
      (addValue_repeats (Stable.mono hq₁ hacc) key hv.1).bind fun q₂ hq₂ acc acc' hacc ↦
        ih (Stable.mono (Pairing.le_trans hq₁ hq₂) hsource) hacc

include hs in
/-- An attribute is evaluated alike. -/
theorem addAttribute_repeats {acc acc' : Evaluated} (hacc : Evaluated.Alike p acc acc')
    {a : Attribute} (ha : a.isPure = true) :
    Action.Repeats r p Evaluated.Alike (addAttribute (machineWithin n) s acc a)
      (addAttribute (machineWithin n) s' acc' a) := by
  cases a with
  | fixed name value => exact addValue_repeats hacc name (.string value)
  | bound name e =>
    exact (valueOf_repeats n hs ha).bind fun q hq v v' hv ↦
      addValue_repeats (Stable.mono hq hacc) name hv.1
  | spread e =>
    refine (valueOf_repeats n hs ha).bind fun q hq v v' hv ↦ .read fun q₁ hq₁ h h' hh _ _ ↦ ?_
    rw [hh.enumerableKeys_eq (Stable.mono hq₁ hv.1)]
    exact addEntries_repeats n _ (Stable.mono hq₁ hv) (Stable.mono (Pairing.le_trans hq hq₁) hacc)

include hs in
/-- So are all attributes. -/
theorem evaluateAttributes_repeats {attributes : List Attribute} :
    attributes.all Attribute.isPure = true → ∀ {q : Pairing}, p ≤ q → ∀ {acc acc' : Evaluated},
      Evaluated.Alike q acc acc' →
        Action.Repeats r q Evaluated.Alike (evaluateAttributes (machineWithin n) s acc attributes)
          (evaluateAttributes (machineWithin n) s' acc' attributes) := by
  induction attributes with
  | nil => exact fun _ _ _ _ _ hacc ↦ .pure hacc
  | cons a rest ih =>
    intro hpure q hq acc acc' hacc
    rw [List.all_cons, Bool.and_eq_true] at hpure
    exact (addAttribute_repeats n (hs.mono hq) hacc hpure.1).bind fun q₁ hq₁ acc acc' hacc ↦
      ih hpure.2 (Pairing.le_trans hq hq₁) hacc

include hs in
theorem addVisibility_repeats {acc acc' : Evaluated} (hacc : Evaluated.Alike p acc acc')
    {visible : Option Expr} (hvisible : visible.all Expr.isPure = true) :
    Action.Repeats r p Evaluated.Alike (addVisibility (machineWithin n) s acc visible)
      (addVisibility (machineWithin n) s' acc' visible) := by
  cases visible with
  | none => exact .pure hacc
  | some e =>
    refine (valueOf_repeats n hs hvisible).bind fun q hq v v' hv ↦ ?_
    have hacc := Stable.mono hq hacc
    rw [hv.1.isTruthy_eq]
    split
    · exact .pure hacc
    · exact .pure ⟨hacc.classes, congrArg (· ++ ["display: none"]) hacc.styles, hacc.values⟩

/-! ### Trees -/

/-- Renderings that are repeated, whatever handlers have been bound before. -/
def Rendering.Repeats {α β : Type} (r : Region) (p : Pairing) (Q : Pairing → α → β → Prop)
    (x : Rendering α) (y : Rendering β) : Prop :=
  ∀ q, p ≤ q → ∀ hs hs', ArrayAlike BoundHandler.Alike q hs hs' →
    Action.Repeats r q (PairAlike Q (ArrayAlike BoundHandler.Alike)) (x.run hs) (y.run hs')

namespace Rendering.Repeats

variable {α β γ δ : Type} {q : Pairing} {Q : Pairing → α → β → Prop} {R : Pairing → γ → δ → Prop}
  {x : Rendering α} {y : Rendering β}

theorem mono (hx : Rendering.Repeats r p Q x y) (hle : p ≤ q) : Rendering.Repeats r q Q x y :=
  fun t ht ↦ hx t (Pairing.le_trans hle ht)

theorem pure [Stable Q] {a : α} {b : β} (hab : Q p a b) :
    Rendering.Repeats r p Q (Pure.pure a) (Pure.pure b) :=
  fun _ hq hs hs' hhs ↦ Action.Repeats.pure (a := (a, hs)) (b := (b, hs')) ⟨Stable.mono hq hab, hhs⟩

theorem lift [Stable Q] {x : Action α} {y : Action β} (hx : Action.Repeats r p Q x y) :
    Rendering.Repeats r p Q (liftM x) (liftM y) :=
  fun _ hq _ _ hhs ↦ (hx.mono hq).bind fun _ hq₁ _ _ hab ↦
    .pure (Q := PairAlike Q (ArrayAlike BoundHandler.Alike))
      ⟨hab, Stable.mono (Q := ArrayAlike BoundHandler.Alike) hq₁ hhs⟩

/-- What follows is repeated from values that are alike. -/
theorem bind {f : α → Rendering γ} {g : β → Rendering δ} (hx : Rendering.Repeats r p Q x y)
    (hf : ∀ q, p ≤ q → ∀ a b, Q q a b → Rendering.Repeats r q R (f a) (g b)) :
    Rendering.Repeats r p R (x >>= f) (y >>= g) :=
  fun q hq hs hs' hhs ↦ (hx q hq hs hs' hhs).bind fun q₁ hq₁ _ _ hab ↦
    hf q₁ (Pairing.le_trans hq hq₁) _ _ hab.1 q₁ (Pairing.le_refl q₁) _ _ hab.2

/-- The heap is read alike. -/
theorem read {f : Heap → Rendering γ} {g : Heap → Rendering δ}
    (hfg : ∀ q, p ≤ q → ∀ h h', Heap.Alike q h h' → Rendering.Repeats r q R (f h) (g h')) :
    Rendering.Repeats r p R (liftM Action.heap >>= f) (liftM Action.heap >>= g) :=
  fun _ hq hs hs' hhs q₁ hq₁ w w' hw hin hcovers ↦
    hfg q₁ (Pairing.le_trans hq hq₁) _ _ hw.heap q₁ (Pairing.le_refl q₁) hs hs'
      (Stable.mono (Q := ArrayAlike BoundHandler.Alike) hq₁ hhs) q₁ (Pairing.le_refl q₁) w w' hw
      hin hcovers

/-- The results are the same data. -/
theorem bindSame {x y : Rendering α} {f : α → Rendering γ} {g : α → Rendering δ}
    (hx : Rendering.Repeats r p Same x y)
    (hf : ∀ q, p ≤ q → ∀ a, Rendering.Repeats r q R (f a) (g a)) :
    Rendering.Repeats r p R (x >>= f) (y >>= g) := by
  refine hx.bind fun q hq a b hab ↦ ?_
  obtain rfl : a = b := hab
  exact hf q hq a

end Rendering.Repeats

include hs in
omit n in
/-- Handlers are bound under the same numbers. -/
theorem bindEvents_repeats (events : List (String × Nat)) : ∀ {q : Pairing}, p ≤ q →
    ∀ acc : List (String × Nat),
      Rendering.Repeats r q Same (bindEvents s acc events) (bindEvents s' acc events) := by
  induction events with
  | nil => exact fun _ _ ↦ .pure rfl
  | cons event rest ih =>
    obtain ⟨name, handler⟩ := event
    intro q hq acc q₁ hq₁ hs₁ hs₁' hhs
    have hle := Pairing.le_trans hq hq₁
    have hbound : PairAlike Same (ArrayAlike BoundHandler.Alike) q₁
        (hs₁.size, hs₁.push ⟨handler, s⟩) (hs₁'.size, hs₁'.push ⟨handler, s'⟩) :=
      ⟨hhs.size_eq, hhs.push ⟨rfl, hle.scope hs.scope⟩⟩
    have hnext (q₂ : Pairing) (hq₂ : q₁ ≤ q₂) (a b : Nat × Array BoundHandler)
        (hab : PairAlike Same (ArrayAlike BoundHandler.Alike) q₂ a b) :
        Action.Repeats r q₂ (PairAlike Same (ArrayAlike BoundHandler.Alike))
          ((bindEvents s (setSorted acc name a.1) rest).run a.2)
          ((bindEvents s' (setSorted acc name b.1) rest).run b.2) := by
      rw [show a.1 = b.1 from hab.1]
      exact ih (Pairing.le_trans hle hq₂) _ q₂ (Pairing.le_refl q₂) _ _ hab.2
    exact (Action.Repeats.pure hbound).bind hnext

include hs in
/-- Rows are rendered alike. -/
theorem renderRows_repeats {aliases : List Pattern} (hpure : aliases.all Pattern.isPure = true)
    {body body' : ScopeId → Rendering (List View.Node)}
    (hbody : ∀ q, p ≤ q → ∀ s s', r.Twins q s s' → Rendering.Repeats r q Same (body s) (body' s'))
    {rows : List (List Value)} : ∀ {q : Pairing} {rows' : List (List Value)}, p ≤ q →
      ListAlike (ListAlike r.Shares) q rows rows' →
        Rendering.Repeats r q Same (renderRows (machineWithin n) aliases body s rows)
          (renderRows (machineWithin n) aliases body' s' rows') := by
  induction rows with
  | nil =>
    intro q rows' _ hrows
    cases hrows
    exact .pure rfl
  | cons vs rest ih =>
    intro q rows' hq hrows
    cases hrows with
    | cons hvs hrest =>
      refine (Rendering.Repeats.lift (childScope_repeats (hs.mono hq))).bind
        fun q₁ hq₁ inner inner' hinner ↦ ?_
      have hvs := Stable.mono (Q := ListAlike r.Shares) hq₁ hvs
      refine (Rendering.Repeats.lift (bindAliases_repeats n hinner hpure (Pairing.le_refl q₁)
        hvs)).bindSame fun q₂ hq₂ _ ↦ ?_
      have hle₂ := Pairing.le_trans hq₁ hq₂
      refine (hbody q₂ (Pairing.le_trans hq hle₂) inner inner' (hinner.mono hq₂)).bindSame
        fun q₃ hq₃ nodes ↦ ?_
      have hle₃ := Pairing.le_trans hle₂ hq₃
      exact (ih (Pairing.le_trans hq hle₃)
        (Stable.mono (Q := ListAlike (ListAlike r.Shares)) hle₃ hrest)).bindSame fun _ _ _ ↦
          .pure rfl

variable (registered : Registered)

mutual

/-- A pure tree is rendered alike a second time, by recursion over it together with its children and
branches. -/
theorem render_repeats {p : Pairing} {s s' : ScopeId} (hs : r.Twins p s s') :
    ∀ t : Tree, t.isPure = true →
      Rendering.Repeats r p Same (render (machineWithin n) registered s t)
        (render (machineWithin n) registered s' t)
  | .text text, _ => by
    unfold render
    exact .pure rfl
  | .interpolated parts, hpure => by
    unfold render
    exact (Rendering.Repeats.lift (interpolate_repeats n hs hpure (Pairing.le_refl p))).bindSame
      fun _ _ _ ↦ .pure rfl
  | .fragment children, hpure => by
    unfold render
    exact renderAll_repeats hs children hpure
  | .conditional branches, hpure => by
    unfold render
    exact renderBranches_repeats hs branches hpure
  | .loop aliases source body, hpure => by
    simp only [Tree.isPure, Bool.and_eq_true] at hpure
    unfold render
    refine (Rendering.Repeats.lift (valueOf_repeats n hs hpure.2.1)).bind fun q hq v v' hv ↦ ?_
    refine (Rendering.Repeats.lift (loopRows_repeats n hv)).bind fun q₁ hq₁ rows rows' hrows ↦ ?_
    exact renderRows_repeats n (hs.mono (Pairing.le_trans hq hq₁)) hpure.1
      (fun q₂ _ inner inner' hinner ↦ render_repeats hinner body hpure.2.2) (Pairing.le_refl q₁)
      hrows
  | .element tag attributes events visible children, hpure => by
    simp only [Tree.isPure, Bool.and_eq_true] at hpure
    unfold render
    have hempty : Evaluated.Alike p ⟨[], [], []⟩ ⟨[], [], []⟩ := ⟨rfl, rfl, .nil⟩
    refine (Rendering.Repeats.lift (evaluateAttributes_repeats n hs hpure.1 (Pairing.le_refl p)
      hempty)).bind fun q hq acc acc' hacc ↦ ?_
    have hs₁ := hs.mono hq
    refine (Rendering.Repeats.lift (addVisibility_repeats n hs₁ hacc hpure.2.1)).bind
      fun q₁ hq₁ acc acc' hacc ↦ ?_
    have hs₂ := hs₁.mono hq₁
    refine (bindEvents_repeats hs₂ events (Pairing.le_refl q₁) []).bindSame fun q₂ hq₂ events ↦ ?_
    have hs₃ := hs₂.mono hq₂
    refine (renderAll_repeats hs₃ children hpure.2.2).bindSame fun q₃ hq₃ children ↦ ?_
    have hacc := Stable.mono (Pairing.le_trans hq₂ hq₃) hacc
    refine .read fun q₄ hq₄ h h' hh ↦ ?_
    have hacc := Stable.mono hq₄ hacc
    rw [hacc.attributes_eq hh, hacc.props_eq hh]
    split
    · exact .pure rfl
    · exact .pure rfl

theorem renderAll_repeats {p : Pairing} {s s' : ScopeId} (hs : r.Twins p s s') :
    ∀ trees : List Tree, treesPure trees = true →
      Rendering.Repeats r p Same (renderAll (machineWithin n) registered s trees)
        (renderAll (machineWithin n) registered s' trees)
  | [], _ => by
    unfold renderAll
    exact .pure rfl
  | t :: rest, hpure => by
    simp only [treesPure, Bool.and_eq_true] at hpure
    unfold renderAll
    exact (render_repeats hs t hpure.1).bindSame fun q hq _ ↦
      (renderAll_repeats (hs.mono hq) rest hpure.2).bindSame fun _ _ _ ↦ .pure rfl

theorem renderBranches_repeats {p : Pairing} {s s' : ScopeId} (hs : r.Twins p s s') :
    ∀ branches : List Branch, branchesPure branches = true →
      Rendering.Repeats r p Same (renderBranches (machineWithin n) registered s branches)
        (renderBranches (machineWithin n) registered s' branches)
  | [], _ => by
    unfold renderBranches
    exact .pure rfl
  | .branch none t :: _, hpure => by
    simp only [branchesPure, Bool.and_eq_true] at hpure
    unfold renderBranches
    exact render_repeats hs t hpure.1
  | .branch (some test) t :: rest, hpure => by
    simp only [branchesPure, Bool.and_eq_true] at hpure
    unfold renderBranches
    refine (Rendering.Repeats.lift (valueOf_repeats n hs hpure.1)).bind fun q hq v v' hv ↦ ?_
    rw [hv.1.isTruthy_eq]
    split
    · exact render_repeats (hs.mono hq) t hpure.2.1
    · exact renderBranches_repeats (hs.mono hq) rest hpure.2.2

end

/-! ### Whole renderings -/

/-- The same view, with the same handlers for scopes that stand for each other. -/
structure Output.Alike (p : Pairing) (o o' : Output) : Prop where
  nodes : o.nodes = o'.nodes
  handlers : ArrayAlike BoundHandler.Alike p o.handlers o'.handlers

omit n in
/-- The scopes of two states that stand for each other stand for each other. -/
theorem stateScope_repeats {w w' : World} (hw : World.Alike p w w') (hin : p.Within w.heap)
    (hcovers : r.Covers w.heap) {state state' : Value} (hstate : r.Shares p state state') :
    ∃ q s s' w₁ w₁', stateScope state w = .ok s w₁ ∧ stateScope state' w' = .ok s' w₁' ∧
      p ≤ q ∧ World.Alike q w₁ w₁' ∧ q.Within w₁.heap ∧ r.Covers w₁.heap ∧ w₁.run = w.run ∧
      r.Twins q s s' := by
  have hall (q : Pairing) : (∀ t m, q.allows t m) → ∀ m : Mention, True := fun _ _ ↦ trivial
  have houter : Scope.Alike p (fun _ ↦ True) ⟨[], none, none, none, true⟩
      ⟨[], none, none, none, true⟩ :=
    ⟨fun _ ↦ .none, .none, .none, .none, rfl, fun h ↦ absurd trivial h⟩
  have hle := hw.heap.le_withScope _ (hall p)
  have hw₁ := hw.heap.newScope (hall p) houter
  let q := p.withScope w.heap.scopes.size w'.heap.scopes.size fun _ ↦ True
  have hinner : Scope.Alike q (fun _ ↦ True)
      ⟨[], some ⟨w.heap.scopes.size⟩, some state, some state, false⟩
      ⟨[], some ⟨w'.heap.scopes.size⟩, some state', some state', false⟩ := {
    binding := fun _ ↦ .none
    parent := .some ⟨.inr ⟨rfl, rfl⟩, Pairing.withScope_allows_self⟩
    fallback := .some (Stable.mono hle hstate.1)
    self := .some (Stable.mono hle hstate.1)
    isFunction := rfl
    unbound := fun h ↦ absurd trivial h }
  have hle' := hw₁.le_withScope _ (hall q)
  have hw₂ := hw₁.newScope (hall q) hinner
  have hcovers₁ : r.Covers (w.heap.newScope ⟨[], none, none, none, true⟩).2 :=
    hcovers.newScope ⟨fun h ↦ absurd h List.not_mem_nil, nofun, nofun, nofun⟩
  have hopens : r.Opens ⟨w.heap.scopes.size⟩ := hcovers.untouched.scopes.size_le
  have hencloses : r.Encloses ⟨[], some ⟨w.heap.scopes.size⟩, some state, some state, false⟩ :=
    ⟨fun h ↦ absurd h List.not_mem_nil, fun h ↦ Option.some.inj h ▸ hopens,
      fun h ↦ Option.some.inj h ▸ hstate.2, fun h ↦ Option.some.inj h ▸ hstate.2⟩
  exact ⟨_, _, _, _, _, rfl, rfl, Pairing.le_trans hle hle',
    ⟨hw₂, Stable.mono (Pairing.le_trans hle hle') hw.run⟩, hin, hcovers₁.newScope hencloses, rfl,
    hcovers₁.untouched.scopes.size_le, .inr ⟨rfl, rfl⟩,
    fun m ↦ (Pairing.withScope_allows_self m).2 trivial⟩

/-- Pure templates are rendered alike in worlds that are alike, and rendering keeps to the
region. -/
theorem runOn_repeats {t : Template} (ht : t.isPure = true) {w w' : World}
    (hw : World.Alike p w w') (hin : p.Within w.heap) (hcovers : r.Covers w.heap)
    {state state' : Value} (hstate : r.Shares p state state') :
    ∃ q, p ≤ q ∧ Outcome.Alike q Output.Alike (t.runOn (machineWithin n) registered state w)
        (t.runOn (machineWithin n) registered state' w') ∧
      r.Leaves (fun _ ↦ True) w (t.runOn (machineWithin n) registered state w) := by
  obtain ⟨q, s, s', w₁, w₁', hs, hs', hle, hw₁, hin₁, hcovers₁, hrun, htwins⟩ :=
    stateScope_repeats hw hin hcovers hstate
  obtain ⟨⟨q₁, hgrows, hr⟩, hleaves⟩ := renderAll_repeats n registered htwins t.roots ht q
    (Pairing.le_refl q) #[] #[] .nil q (Pairing.le_refl q) w₁ w₁' hw₁ hin₁ hcovers₁
  unfold runOn
  rw [Action.bind_apply, Action.bind_apply, hs, hs']
  dsimp only
  rw [Action.bind_apply, Action.bind_apply]
  have hidle : w.run.IsIdle w₁.run := .inl hrun
  generalize (renderAll (machineWithin n) registered s t.roots).run #[] w₁ = result,
    (renderAll (machineWithin n) registered s' t.roots).run #[] w₁' = result' at hr hleaves ⊢
  refine ⟨q₁, Pairing.le_trans hle hgrows.le, ?_, ?_⟩
  · cases hr with
    | ok hab hw₂ => exact .ok ⟨hab.1, hab.2⟩ hw₂
    | error he hw₂ => exact .error he hw₂
  · cases result with
    | ok a w₂ => exact .ok hleaves.covers (hidle.trans hleaves.run) trivial
    | error e w₂ => exact .error hleaves.covers (hidle.trans hleaves.run) (hleaves.failure rfl)

/-- Between runs, rendering does not depend on the step count. -/
theorem stepBlind_runOn (t : Template) (state : Value) :
    (t.runOn (machineWithin n) registered state).StepBlind := by
  have hR : Congruence (fun _ x _ ↦ x.Balanced ∧ x.StepBlind) fun _ ↦ True :=
    .ofNeutral (fun hx ↦ ⟨.of_neutral hx, .of_neutral hx⟩)
      (fun hx hf ↦ ⟨hx.1.bind fun a ↦ (hf a).1, hx.2.bind hx.1 fun a ↦ (hf a).2⟩)
      (fun hx ↦ ⟨hx.1.entering, .entering _⟩)
      (fun hx hf ↦ ⟨hx.1.catching fun e he ↦ (hf e he).1,
        hx.2.catching hx.1 fun e he ↦ (hf e he).2⟩)
  have hunfinished {α : Type} : (throw .unfinished : Action α).Balanced ∧
      (throw .unfinished : Action α).StepBlind := ⟨.failure _, fun _ _ ↦ rfl⟩
  have hrespects : Respects (fun _ x _ ↦ x.Balanced ∧ x.StepBlind) (machineWithin n)
      (machineWithin n) := by
    rw [← probe_never]
    refine .of_asked (Machine.asked_of_runs hR hunfinished (fun q x _ _ hx ↦ ?_) (fun n entry ↦ ?_)
      n) (fun _ he ↦ ⟨.failure _, .of_neutral (.raise he)⟩) hunfinished
    · rwa [Action.stopping_never]
    · rw [probe_never]
      exact ⟨entry.balanced_run n, entry.stepBlind_run n⟩
  exact (hrespects.run registered t state).2

/-- Renderings that end with the same error, or with the same view on heaps on which the handlers of
the one have scopes that stand for those of the other. -/
inductive EndsSame (p : Pairing) : Outcome Output → Outcome Output → Prop
  | ok {q : Pairing} {o o' : Output} {w w' : World} : p ≤ q → Heap.Alike q w.heap w'.heap →
    Output.Alike q o o' → EndsSame p (.ok o w) (.ok o' w')
  | error {e : Failure} {w w' : World} : EndsSame p (.error e w) (.error e w')

omit n registered in
/-- Outcomes that are alike end the same. -/
theorem EndsSame.of_alike {q : Pairing} (hle : p ≤ q) {result result' : Outcome Output}
    (h : Outcome.Alike q Output.Alike result result')
    (hplain : ∀ {e w}, result = .error e w → e.IsPlain) : EndsSame p result result' := by
  cases h with
  | ok ho hw => exact .ok hle hw.heap ho
  | @error e e' w w' he hw =>
    have hsame : e = e' := by
      have he' := hplain rfl
      cases he with
      | raised he =>
        cases he with
        | thrown message hv => exact absurd rfl (he' _ _)
        | _ => rfl
      | _ => rfl
    rw [hsame]
    exact .error

omit n registered in
/-- Step counts make no difference to how a rendering ends. -/
theorem EndsSame.of_mapWorld {result other result' : Outcome Output}
    (h : mapWorld World.forgetSteps result = mapWorld World.forgetSteps other)
    (hsame : EndsSame p other result') : EndsSame p result result' := by
  cases hsame with
  | ok hle hh ho =>
    cases result with
    | ok o w =>
      obtain ⟨rfl, hworld⟩ := EStateM.Result.ok.inj h
      have hheap : w.forgetSteps.heap = _ := congrArg World.heap hworld
      exact .ok hle (show Heap.Alike _ w.forgetSteps.heap _ from hheap ▸ hh) ho
    | error e w => exact nomatch h
  | error =>
    cases result with
    | ok o w => exact nomatch h
    | error e w =>
      obtain ⟨rfl, -⟩ := EStateM.Result.error.inj h
      exact .error

end Nodecraft.Template

namespace Nodecraft

open Sandbox Template

/-- Rendering a pure template for a state that leads to no computed cell leaves all cells as they
are, and rendering it again ends the same way. -/
theorem Template.rendering_repeats {t : Template} (ht : t.isPure = true) (registered : Registered)
    {state : Value} {w : World} (hw : w.Grounded)
    (hstate : Value.Alike (Pairing.own w.heap) state state) (hplain : w.heap.LacksComputed state) :
    w.heap.Untouched (finalWorld (t.run registered state w)).heap ∧
    w.run.IsIdle (finalWorld (t.run registered state w)).run ∧
    EndsSame (Pairing.own w.heap).loose (t.run registered state w)
      (t.run registered state (finalWorld (t.run registered state w))) := by
  have hcovers := Heap.regionOf_covers hplain
  have hin : (Pairing.own w.heap).loose.Within w.heap := fun ha ↦ ha.2
  have hshares : (w.heap.regionOf state).Shares (Pairing.own w.heap).loose state state :=
    ⟨Loose.loosen hstate, Heap.Reaches.root.has⟩
  obtain ⟨-, -, -, hleaves⟩ := runOn_repeats patience registered ht hw.alike hin hcovers hshares
  have huntouched := hleaves.covers.untouched
  change w.heap.Untouched (finalWorld (t.run registered state w)).heap at huntouched
  have hidle := hleaves.run
  change w.run.IsIdle (finalWorld (t.run registered state w)).run at hidle
  refine ⟨huntouched, hidle, ?_⟩
  have hheap := hw.heap.alike huntouched
  -- if steps are not counted afresh, then the interpreter is as before
  rcases hidle with hsame | ⟨hnesting, hsame⟩
  · have hagain : World.Alike (Pairing.own w.heap).loose w
        (finalWorld (t.run registered state w)) :=
      ⟨hheap, by rw [hsame]; exact Loose.loosen hw.run⟩
    obtain ⟨q, hle, hr, hleaves⟩ := runOn_repeats patience registered ht hagain hin hcovers hshares
    exact .of_alike hle hr hleaves.failure
  · have hagain : World.Alike (Pairing.own w.heap).loose w.forgetSteps
        (finalWorld (t.run registered state w)) := by
      refine ⟨hheap, ?_⟩
      rw [hsame]
      exact { Loose.loosen (Q := Run.Alike) hw.run with steps := rfl }
    obtain ⟨q, hle, hr, hleaves⟩ := runOn_repeats patience registered ht hagain hin hcovers hshares
    exact .of_mapWorld (stepBlind_runOn patience registered t state w hnesting)
      (.of_alike hle hr hleaves.failure)

namespace Template

/-- A list of the items of a state, one of which can be picked. -/
def listMarkup : String :=
  "<li v-for=\"x in items\" :class=\"x\" @click=\"picked = x\">\x7b\x7b x \x7d\x7d</li>"

def listTemplate : Template := (ofMarkup listMarkup).toOption.getD default

def listState : Value × Heap :=
  Heap.empty.ofDocument (.object [("items", .array [.string "a", .string "b"])])

/-- Picking an item changes the state, showing the items does not. -/
theorem rendering_repeats_list :
    (ofMarkup listMarkup).isOk = true ∧ listTemplate.isPure = true ∧
    listState.2.LacksComputed listState.1 ∧
    let first := listTemplate.run [] listState.1 ⟨listState.2, Run.start .standard .undefined⟩
    listState.2.Untouched (finalWorld first).heap ∧
    EndsSame (Pairing.own listState.2).loose first
      (listTemplate.run [] listState.1 (finalWorld first)) := by
  have hpure : listTemplate.isPure = true := by decide +kernel
  have hplain : listState.2.LacksComputed listState.1 := by
    rintro ⟨_ | i⟩ -
    · rfl
    · rfl
  obtain ⟨hheap, hstate⟩ := Heap.grounded_empty.ofDocument
    (.object [("items", .array [.string "a", .string "b"])])
  have hworld : World.Grounded ⟨listState.2, Run.start .standard .undefined⟩ :=
    ⟨hheap, rfl, rfl, rfl, rfl, .nil, .none, .undefined⟩
  obtain ⟨huntouched, -, hsame⟩ := rendering_repeats hpure [] hworld hstate hplain
  exact ⟨by decide +kernel, hpure, hplain, huntouched, hsame⟩

end Template

end Nodecraft
