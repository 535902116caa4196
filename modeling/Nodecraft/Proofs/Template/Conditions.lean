import Nodecraft.Proofs.Template.Outline

/-!
# Conditions of templates

Elements with conditions become branches of one tree: the first stands where its element is written,
and each further one joins the tree before it. So every condition of a template is a chain
(`IsChain`): all its branches have tests but perhaps the last. An element whose branch is a further
one stands behind one that has a test, with nothing but white space and comments between them
(`Adjoin`), or the markup is not accepted.

Rendering a chain evaluates its tests in turn, and what it comes to depends on no branch behind the
first one that is taken (`Decides`). The main theorem is `conditions_are_chains`.
-/

set_option autoImplicit false

namespace Nodecraft.Template

open Script Sandbox

/-! ### Chains of branches -/

namespace Branch

def test? : Branch → Option Expr
  | .branch test _ => test

def tree : Branch → Tree
  | .branch _ t => t

end Branch

/-- There is a first branch, and all branches have tests but perhaps the last of several. -/
structure IsChain (branches : List Branch) : Prop where
  first : ∃ b rest, branches = b :: rest ∧ b.test?.isSome
  inner : ∀ b ∈ branches.dropLast, b.test?.isSome

theorem IsChain.single (test : Expr) (t : Tree) : IsChain [.branch (some test) t] :=
  ⟨⟨_, [], rfl, rfl⟩, fun _ h ↦ absurd h List.not_mem_nil⟩

/-- A branch may follow one with a test. -/
theorem IsChain.concat {branches : List Branch} (h : IsChain branches)
    (hopen : isOpenEnded branches = true) (b : Branch) : IsChain (branches ++ [b]) where
  first := by
    obtain ⟨first, rest, rfl, hfirst⟩ := h.first
    exact ⟨first, rest ++ [b], rfl, hfirst⟩
  inner := by
    rw [List.dropLast_concat]
    obtain ⟨first, rest, hbranches, -⟩ := h.first
    have hne : branches ≠ [] := hbranches ▸ List.cons_ne_nil _ _
    intro c hc
    rw [← List.dropLast_append_getLast hne] at hc
    rcases List.mem_append.1 hc with hc | hc
    · exact h.inner c hc
    · rw [List.mem_singleton.1 hc]
      unfold isOpenEnded at hopen
      rw [List.getLast?_eq_some_getLast hne] at hopen
      generalize branches.getLast hne = last at hopen ⊢
      obtain ⟨test, t⟩ := last
      exact hopen

mutual

/-- The conditions anywhere in a tree, by their branches. -/
def Tree.conditions : Tree → List (List Branch)
  | .text _ => []
  | .interpolated _ => []
  | .element _ _ _ _ children => conditionsOf children
  | .fragment children => conditionsOf children
  | .conditional branches => branches :: conditionsOfBranches branches
  | .loop _ _ body => body.conditions

def conditionsOf : List Tree → List (List Branch)
  | [] => []
  | t :: rest => t.conditions ++ conditionsOf rest

def conditionsOfBranches : List Branch → List (List Branch)
  | [] => []
  | .branch _ t :: rest => t.conditions ++ conditionsOfBranches rest

end

/-! ### Branches that are taken -/

section

variable (m : Machine) (s : ScopeId)

/-- The tests of branches are evaluated one after the other, from one world to another, and none of
them holds. -/
inductive Passes : List Branch → World → World → Prop
  | nil {w : World} : Passes [] w w
  | cons {test : Expr} {t : Tree} {rest : List Branch} {v : Value} {w w₁ w' : World} :
    valueOf m s test w = .ok v w₁ → v.isTruthy = false → Passes rest w₁ w' →
    Passes (.branch (some test) t :: rest) w w'

variable (registered : Registered) (hs : Array BoundHandler) (w : World)

/-- What rendering a condition comes to: the first branch whose test holds is rendered where its test
leaves the world, or else the last branch if it has no test, or else nothing; or a test fails. What
stands behind the branch that decides does not count. -/
inductive Decides (branches : List Branch) : Prop
  | taken {before after : List Branch} {test : Expr} {t : Tree} {v : Value} {w₁ w₂ : World}
    (split : branches = before ++ .branch (some test) t :: after) (passed : Passes m s before w w₁)
    (value : valueOf m s test w₁ = .ok v w₂) (holds : v.isTruthy = true)
    (shown : ∀ others, render m registered s
      (.conditional (before ++ .branch (some test) t :: others)) hs w =
        render m registered s t hs w₂)
  | otherwise {before : List Branch} {t : Tree} {w₁ : World}
    (split : branches = before ++ [.branch none t]) (passed : Passes m s before w w₁)
    (shown : render m registered s (.conditional branches) hs w = render m registered s t hs w₁)
  | nothing {w₁ : World} (passed : Passes m s branches w w₁)
    (shown : render m registered s (.conditional branches) hs w = .ok ([], hs) w₁)
  | fails {before after : List Branch} {test : Expr} {t : Tree} {e : Failure} {w₁ w₂ : World}
    (split : branches = before ++ .branch (some test) t :: after) (passed : Passes m s before w w₁)
    (value : valueOf m s test w₁ = .error e w₂)
    (shown : ∀ others, render m registered s
      (.conditional (before ++ .branch (some test) t :: others)) hs w = .error e w₂)

end

section

variable {m : Machine} {s : ScopeId} {registered : Registered} {hs : Array BoundHandler}
  {w w₁ w₂ : World}

/-- A failure ends a rendering. -/
theorem rendering_bind_of_error {α β : Type} {x : Rendering α} {f : α → Rendering β} {e : Failure}
    (h : x hs w = .error e w₁) : (x >>= f) hs w = .error e w₁ := by
  change EStateM.bind (x hs) (fun p ↦ f p.1 p.2) w = _
  unfold EStateM.bind
  rw [h]

theorem rendering_lift_of_error {α : Type} {x : Action α} {e : Failure} (h : x w = .error e w₁) :
    (liftM x : Rendering α) hs w = .error e w₁ := by
  change EStateM.bind x (fun a ↦ pure (a, hs)) w = _
  unfold EStateM.bind
  rw [h]

/-- A branch is taken if its condition holds, and passed over otherwise. -/
theorem renderBranches_of_value {test : Expr} {t : Tree} {rest : List Branch} {v : Value}
    (h : valueOf m s test w = .ok v w₁) :
    renderBranches m registered s (.branch (some test) t :: rest) hs w =
      if v.isTruthy then render m registered s t hs w₁
      else renderBranches m registered s rest hs w₁ := by
  rw [renderBranches, rendering_bind_of_ok (rendering_lift_of_ok h)]
  split <;> rfl

/-- Branches that are passed over show nothing. -/
theorem renderBranches_of_passes {before : List Branch} (h : Passes m s before w w₁)
    (rest : List Branch) : renderBranches m registered s (before ++ rest) hs w =
      renderBranches m registered s rest hs w₁ := by
  induction h with
  | nil => rfl
  | cons hvalue hfalse _ ih =>
    rw [List.cons_append, renderBranches_of_value hvalue, if_neg (Bool.eq_false_iff.1 hfalse), ih]

/-- One branch more is passed over. -/
theorem Passes.concat {before : List Branch} (h : Passes m s before w w₁) {test : Expr} {t : Tree}
    {v : Value} (hvalue : valueOf m s test w₁ = .ok v w₂) (hfalse : v.isTruthy = false) :
    Passes m s (before ++ [.branch (some test) t]) w w₂ := by
  induction h with
  | nil => exact .cons hvalue hfalse .nil
  | cons hfirst hfirstFalse _ ih => exact .cons hfirst hfirstFalse (ih hvalue)

/-- Tests are evaluated until one of them decides. -/
theorem decides_from {before : List Branch} (h : Passes m s before w w₁) (rest : List Branch)
    (hinner : ∀ b ∈ rest.dropLast, b.test?.isSome) :
    Decides m s registered hs w (before ++ rest) := by
  have hshown (others : List Branch) : render m registered s (.conditional (before ++ others)) hs w =
      renderBranches m registered s others hs w₁ := by
    rw [render, renderBranches_of_passes h]
  induction rest generalizing before w₁ with
  | nil =>
    rw [List.append_nil]
    have hnothing := hshown []
    rw [List.append_nil, renderBranches] at hnothing
    exact .nothing h hnothing
  | cons b rest ih =>
    obtain ⟨test, t⟩ := b
    cases test with
    | none =>
      -- only the last branch has no test
      obtain rfl : rest = [] := by
        cases rest with
        | nil => rfl
        | cons c rest => exact absurd (hinner _ List.mem_cons_self) Bool.false_ne_true
      refine .otherwise rfl h ((hshown _).trans ?_)
      rw [renderBranches]
    | some test =>
      cases hvalue : valueOf m s test w₁ with
      | error e w₂ =>
        refine .fails rfl h hvalue fun others ↦ (hshown _).trans ?_
        rw [renderBranches]
        exact rendering_bind_of_error (rendering_lift_of_error hvalue)
      | ok v w₂ =>
        cases htruthy : v.isTruthy with
        | true =>
          refine .taken rfl h hvalue htruthy fun others ↦ (hshown _).trans ?_
          rw [renderBranches_of_value hvalue, htruthy, if_pos rfl]
        | false =>
          have hpassed := h.concat (t := t) hvalue htruthy
          have hmore : ∀ b ∈ rest.dropLast, b.test?.isSome := by
            intro b hb
            refine hinner b ?_
            cases rest with
            | nil => exact hb
            | cons c rest => exact List.mem_cons_of_mem _ hb
          have hdecides := ih hpassed hmore fun others ↦ by
            rw [render, renderBranches_of_passes hpassed]
          rwa [List.append_assoc] at hdecides

/-- In a chain, the first branch whose condition holds is shown. -/
theorem IsChain.decides {branches : List Branch} (h : IsChain branches) :
    Decides m s registered hs w branches := decides_from .nil branches h.inner

end

/-! ### Conditions of trees -/

/-- Trees side by side have their conditions one after the other. -/
theorem conditionsOf_append (trees more : List Tree) :
    conditionsOf (trees ++ more) = conditionsOf trees ++ conditionsOf more := by
  induction trees with
  | nil => rfl
  | cons t rest ih => simp only [List.cons_append, conditionsOf, ih, List.append_assoc]

theorem conditionsOfBranches_append (branches more : List Branch) :
    conditionsOfBranches (branches ++ more) =
      conditionsOfBranches branches ++ conditionsOfBranches more := by
  induction branches with
  | nil => rfl
  | cons b rest ih =>
    obtain ⟨test, t⟩ := b
    simp only [List.cons_append, conditionsOfBranches, ih, List.append_assoc]

/-- Every condition anywhere in some trees is a chain. -/
def Chained (trees : List Tree) : Prop := ∀ branches ∈ conditionsOf trees, IsChain branches

theorem chained_nil : Chained [] := fun _ h ↦ absurd h List.not_mem_nil

/-- A list of trees is chained if each of them is. -/
theorem chained_cons {t : Tree} {rest : List Tree} :
    Chained (t :: rest) ↔ Chained [t] ∧ Chained rest := by
  simp only [Chained, conditionsOf, List.append_nil, List.mem_append]
  exact ⟨fun h ↦ ⟨fun b hb ↦ h b (.inl hb), fun b hb ↦ h b (.inr hb)⟩,
    fun h b hb ↦ hb.elim (h.1 b) (h.2 b)⟩

theorem Chained.subset {trees more : List Tree} (h : Chained trees) (hsub : more ⊆ trees) :
    Chained more := by
  induction more with
  | nil => exact chained_nil
  | cons t more ih =>
    obtain ⟨ht, hmore⟩ := List.cons_subset.1 hsub
    refine chained_cons.2 ⟨?_, ih hmore⟩
    obtain ⟨before, after, rfl⟩ := List.append_of_mem ht
    intro branches hmem
    refine h branches ?_
    rw [conditionsOf_append]
    refine List.mem_append_right _ ?_
    simp only [conditionsOf, List.append_nil] at hmem
    rw [conditionsOf]
    exact List.mem_append_left _ hmem

/-- Trimming keeps chains. -/
theorem Chained.trimmed {reversed : List Tree} (h : Chained reversed) :
    Chained (trimmed reversed) := by
  refine h.subset fun t ht ↦ ?_
  have hmem := (List.dropWhile_sublist _).subset ht
  exact (List.dropWhile_sublist _).subset (List.mem_reverse.1 hmem)

/-- A condition is a chain that holds chains. -/
theorem chained_conditional {branches : List Branch} : Chained [.conditional branches] ↔
    IsChain branches ∧ ∀ b ∈ conditionsOfBranches branches, IsChain b := by
  simp only [Chained, conditionsOf, Tree.conditions, List.append_nil, List.forall_mem_cons]

/-- A further branch keeps the chain it is added to. -/
theorem chained_addBranch {directive : String} {test : Option Expr} {t : Tree}
    {before after : List Tree} (h : addBranch directive (.branch test t) before = .ok after)
    (ht : Chained [t]) (hbefore : Chained before) : Chained after := by
  unfold addBranch at h
  split at h
  · rename_i branches rest hdrop
    split at h
    · rename_i hopen
      cases h
      have hchained : Chained (.conditional branches :: rest) :=
        hdrop ▸ hbefore.subset (List.dropWhile_sublist _).subset
      obtain ⟨hbranches, hrest⟩ := chained_cons.1 hchained
      obtain ⟨hchain, hinner⟩ := chained_conditional.1 hbranches
      refine chained_cons.2 ⟨chained_conditional.2 ⟨hchain.concat hopen _, fun b hb ↦ ?_⟩, hrest⟩
      rw [conditionsOfBranches_append] at hb
      exact (List.mem_append.1 hb).elim (hinner b) fun hb ↦ ht b (by
        simpa only [conditionsOfBranches, conditionsOf] using hb)
    · cases h
  · cases h

/-- Placing a tree keeps chains. -/
theorem chained_place {placement : Placement} {t : Tree} {before after : List Tree}
    (h : place placement t before = .ok after) (ht : Chained [t]) (hbefore : Chained before) :
    Chained after := by
  cases placement with
  | always =>
    cases h
    exact chained_cons.2 ⟨ht, hbefore⟩
  | whenTest test =>
    cases h
    refine chained_cons.2 ⟨chained_conditional.2 ⟨.single test t, fun b hb ↦ ht b ?_⟩, hbefore⟩
    simpa only [conditionsOfBranches, conditionsOf] using hb
  | elseWhen test => exact chained_addBranch h ht hbefore
  | otherwise => exact chained_addBranch h ht hbefore

/-- An element keeps the chains of its children. -/
theorem Parts.chained_tree {p : Parts} {children : List Tree} (h : Chained children) :
    Chained [p.tree children] := by
  have hbody : Chained [if p.tag == "template" then Tree.fragment children
      else .element p.tag p.attributes p.events p.visible children] := by
    intro branches hmem
    refine h branches ?_
    split at hmem
    all_goals simpa only [conditionsOf, Tree.conditions, List.append_nil] using hmem
  unfold Parts.tree
  dsimp only
  cases p.loop with
  | none => exact hbody
  | some round =>
    intro branches hmem
    refine hbody branches ?_
    simpa only [conditionsOf, Tree.conditions] using hmem

/-! ### Neighbours -/

/-- The directives that place an element among its neighbours. -/
def placingNames : List String := ["v-if", "v-else-if", "v-else"]

/-- The placing directive of an element. Of several the last one counts. -/
def placing? (attributes : List (String × String)) : Option String :=
  (attributes.map Prod.fst).reverse.find? placingNames.contains

/-- Whether a node is a further branch. -/
def isFurther : Markup.Node → Bool
  | .element _ attributes _ => ["v-else-if", "v-else"].any fun name ↦ placing? attributes == some name
  | .text _ => false
  | .comment => false

/-- Whether a further branch may follow a node. -/
def isTested : Markup.Node → Bool
  | .element _ attributes _ => ["v-if", "v-else-if"].any fun name ↦ placing? attributes == some name
  | .text _ => false
  | .comment => false

/-- Whether a node may stand between branches. -/
def isPassed : Markup.Node → Bool
  | .element _ _ _ => false
  | .text s => s.toList.all Text.isBlank
  | .comment => true

/-- The last of some neighbours, what may stand between branches aside, is a branch with a test. -/
def EndsTested (siblings : List Markup.Node) : Prop :=
  ∃ before n gap, siblings = before ++ n :: gap ∧ isTested n = true ∧ ∀ g ∈ gap, isPassed g = true

/-- Each further branch follows a branch with a test. -/
def Adjoin (siblings : List Markup.Node) : Prop :=
  ∀ before n after, siblings = before ++ n :: after → isFurther n = true → EndsTested before

mutual

/-- The lists of neighbours below a node, as far as they count: what stands in an element whose text
is given does not. -/
def families : Markup.Node → List (List Markup.Node)
  | .element _ attributes children =>
    if attributes.any fun a ↦ a.1 == "v-text" then [] else children :: familiesOf children
  | .text _ => []
  | .comment => []

def familiesOf : List Markup.Node → List (List Markup.Node)
  | [] => []
  | n :: rest => families n ++ familiesOf rest

end

/-- Blanks and comments do not come between. -/
theorem EndsTested.concat {siblings : List Markup.Node} (h : EndsTested siblings) {n : Markup.Node}
    (hn : isPassed n = true) : EndsTested (siblings ++ [n]) := by
  obtain ⟨before, tested, gap, rfl, htested, hgap⟩ := h
  refine ⟨before, tested, gap ++ [n], by simp, htested, fun g hg ↦ ?_⟩
  exact (List.mem_append.1 hg).elim (hgap g) fun hg ↦ List.mem_singleton.1 hg ▸ hn

theorem endsTested_concat_tested {n : Markup.Node} (hn : isTested n = true)
    (siblings : List Markup.Node) : EndsTested (siblings ++ [n]) :=
  ⟨siblings, n, [], rfl, hn, fun _ h ↦ absurd h List.not_mem_nil⟩

/-! ### Placing elements -/

/-- The directive that a placement comes from. -/
def Placement.name? : Placement → Option String
  | .always => none
  | .whenTest _ => some "v-if"
  | .elseWhen _ => some "v-else-if"
  | .otherwise => some "v-else"

section

variable {p q : Parts} {hs hs' : Array Handler} {name value : String}

theorem addModel_placement (h : addModel p value hs = .ok (q, hs')) : q.placement = p.placement := by
  unfold addModel at h
  obtain ⟨e, hs₁, -, h⟩ := reading_bind_eq_ok h
  obtain ⟨id, hs₂, -, h⟩ := reading_bind_eq_ok h
  obtain ⟨rfl, -⟩ := reading_pure_eq_ok h
  rfl

theorem addOther_placement (h : addOther p name value hs = .ok (q, hs')) :
    q.placement = p.placement := by
  unfold addOther at h
  cases hbound : behindEither? ":" "v-bind:" name with
  | some arg =>
    rw [hbound] at h
    obtain ⟨e, hs₁, -, h⟩ := reading_bind_eq_ok h
    obtain ⟨rfl, -⟩ := reading_pure_eq_ok h
    rfl
  | none =>
    rw [hbound] at h
    cases hevent : behindEither? "@" "v-on:" name with
    | some arg =>
      rw [hevent] at h
      obtain ⟨id, hs₁, -, h⟩ := reading_bind_eq_ok h
      obtain ⟨rfl, -⟩ := reading_pure_eq_ok h
      rfl
    | none =>
      rw [hevent] at h
      dsimp only at h
      split at h
      all_goals
        obtain ⟨rfl, -⟩ := reading_pure_eq_ok h
        rfl

/-- Only placing directives place. -/
theorem addDirective_placement (h : addDirective p name value hs = .ok (q, hs')) :
    q.placement.name? =
      if placingNames.contains name then some name else p.placement.name? := by
  have hother {r : Parts} (hr : r.placement = p.placement)
      (hname : placingNames.contains name = false) : r.placement.name? =
        if placingNames.contains name then some name else p.placement.name? := by
    rw [hname, hr]
    rfl
  unfold addDirective at h
  split at h
  case h_1 | h_2 =>
    obtain ⟨e, hs₁, -, h⟩ := reading_bind_eq_ok h
    obtain ⟨rfl, -⟩ := reading_pure_eq_ok h
    rfl
  case h_3 =>
    obtain ⟨rfl, -⟩ := reading_pure_eq_ok h
    rfl
  case h_4 | h_5 | h_6 | h_8 =>
    obtain ⟨e, hs₁, -, h⟩ := reading_bind_eq_ok h
    obtain ⟨rfl, -⟩ := reading_pure_eq_ok h
    exact hother rfl (by decide)
  case h_7 => exact hother (addModel_placement h) (by decide)
  case h_9 | h_10 | h_11 | h_12 =>
    obtain ⟨rfl, -⟩ := reading_pure_eq_ok h
    exact hother rfl (by decide)
  case h_13 hfirst hnext hlast _ _ _ _ _ _ _ _ _ =>
    have hname : placingNames.contains name = false := by
      simp only [placingNames, List.contains_cons, List.contains_nil, Bool.or_false,
        Bool.or_eq_false_iff, beq_eq_false_iff_ne]
      exact ⟨hfirst, hnext, hlast⟩
    split at h
    · obtain ⟨rfl, -⟩ := reading_pure_eq_ok h
      exact hother rfl hname
    · exact hother (addOther_placement h) hname

/-- The last of the placing directives places the element. -/
theorem addAttributes_placement {sources : List String} {attributes : List (String × String)} :
    ∀ {p : Parts} {hs : Array Handler}, addAttributes sources p attributes hs = .ok (q, hs') →
      q.placement.name? = (placing? attributes).or p.placement.name? := by
  induction attributes with
  | nil =>
    intro p hs h
    obtain ⟨rfl, -⟩ := reading_pure_eq_ok h
    rfl
  | cons a rest ih =>
    intro p hs h
    obtain ⟨p₁, hs₁, hone, hrest⟩ := reading_bind_eq_ok h
    have hlast : placing? (a :: rest) =
        (placing? rest).or (if placingNames.contains a.1 then some a.1 else none) := by
      unfold placing?
      rw [List.map_cons, List.reverse_cons, List.find?_append, List.find?_singleton]
    rw [ih hrest, addDirective_placement hone, hlast, Option.or_assoc]
    split <;> rfl

end

/-! ### Reading nodes -/

/-- Condensing keeps blanks blank. -/
theorem all_isBlank_condense (cs : List Char) (behindBlank : Bool) :
    (condense.from_ behindBlank cs).all Text.isBlank = cs.all Text.isBlank := by
  induction cs generalizing behindBlank with
  | nil => rfl
  | cons c cs ih =>
    have hspace : Text.isBlank ' ' = true := by decide
    rw [condense.from_]
    cases hc : Text.isBlank c with
    | true =>
      cases behindBlank with
      | true => simp [hc, ih]
      | false => simp [hc, hspace, ih]
    | false => simp [hc, ih]

/-- A text that shows nothing is white space, and none is a condition. -/
theorem text?_spec {sources : List String} {s : String} {found : Option Tree}
    (h : text? sources s = .ok found) :
    (found.all isBlankTree = true → isPassed (.text s) = true) ∧
      ∀ t ∈ found, Chained [t] ∧ ∀ branches, t ≠ .conditional branches := by
  unfold text? at h
  split at h
  · rename_i hblank
    cases h
    exact ⟨fun _ ↦ (Bool.and_eq_true_iff.1 hblank).1, (by rintro _ ⟨⟩)⟩
  dsimp only at h
  split at h
  · cases h
    refine ⟨fun hblank ↦ ?_, fun t ht ↦ ?_⟩
    · change (condense s.toList).toList.all Text.isBlank = true at hblank
      unfold condense at hblank
      rwa [String.toList_ofList, all_isBlank_condense] at hblank
    · obtain rfl := Option.some.inj ht
      exact ⟨(by rintro _ ⟨⟩), (by rintro _ ⟨⟩)⟩
  · generalize (segments s).mapM (textPart sources) = parts at h
    cases parts with
    | error fault => cases h
    | ok parts =>
      cases h
      refine ⟨fun hblank ↦ absurd hblank Bool.false_ne_true, fun t ht ↦ ?_⟩
      obtain rfl := Option.some.inj ht
      exact ⟨(by rintro _ ⟨⟩), (by rintro _ ⟨⟩)⟩

/-- Trees of some neighbours, in reverse: their conditions are chains, and a further branch may
follow them only if it may follow the neighbours. -/
structure Stands (siblings : List Markup.Node) (reversed : List Tree) : Prop where
  chained : Chained reversed
  tested : ∀ branches rest, reversed.dropWhile isBlankTree = .conditional branches :: rest →
    isOpenEnded branches = true → EndsTested siblings

theorem stands_nil : Stands [] [] := ⟨chained_nil, by rintro _ _ ⟨⟩⟩

section

variable {siblings : List Markup.Node} {before after : List Tree} {n : Markup.Node}

/-- A node that shows nothing. -/
theorem Stands.pass (h : Stands siblings before) (hn : isPassed n = true) :
    Stands (siblings ++ [n]) before :=
  ⟨h.chained, fun branches rest hdrop hopen ↦ (h.tested branches rest hdrop hopen).concat hn⟩

/-- A tree that is no condition. -/
theorem Stands.add (h : Stands siblings before) {t : Tree} (ht : Chained [t])
    (hblank : isBlankTree t = true → isPassed n = true)
    (hnone : ∀ branches, t ≠ .conditional branches) :
    Stands (siblings ++ [n]) (t :: before) where
  chained := chained_cons.2 ⟨ht, h.chained⟩
  tested branches rest hdrop hopen := by
    cases hshown : isBlankTree t with
    | true =>
      rw [List.dropWhile_cons_of_pos hshown] at hdrop
      exact (h.tested branches rest hdrop hopen).concat (hblank hshown)
    | false =>
      rw [List.dropWhile_cons_of_neg (Bool.eq_false_iff.1 hshown)] at hdrop
      exact absurd (List.cons.inj hdrop).1 (hnone branches)

/-- An element is neither blank nor a chain. -/
theorem Parts.tree_spec (p : Parts) (children : List Tree) :
    isBlankTree (p.tree children) = false ∧ ∀ branches, p.tree children ≠ .conditional branches := by
  unfold Parts.tree
  dsimp only
  cases p.loop with
  | some round => exact ⟨rfl, by rintro _ ⟨⟩⟩
  | none =>
    dsimp only
    split
    all_goals exact ⟨rfl, by rintro _ ⟨⟩⟩

/-- A further branch needs an open chain before it. -/
theorem addBranch_eq_ok {directive : String} {b : Branch}
    (h : addBranch directive b before = .ok after) :
    ∃ branches rest, before.dropWhile isBlankTree = .conditional branches :: rest ∧
      isOpenEnded branches = true ∧ after = .conditional (branches ++ [b]) :: rest := by
  unfold addBranch at h
  split at h
  · rename_i branches rest hdrop
    split at h
    · rename_i hopen
      cases h
      exact ⟨branches, rest, hdrop, hopen, rfl⟩
    · cases h
  · cases h

/-- A chain is open while its last branch has a condition. -/
theorem isOpenEnded_concat (branches : List Branch) (test : Option Expr) (t : Tree) :
    isOpenEnded (branches ++ [.branch test t]) = test.isSome := by
  unfold isOpenEnded
  rw [List.getLast?_concat]

/-- An element that is placed stands where it may. -/
theorem Stands.place (h : Stands siblings before) {p : Parts} {children : List Tree}
    (hchildren : Chained children) {name : String} {attributes : List (String × String)}
    {inner : List Markup.Node} (hplacing : p.placement.name? = placing? attributes)
    (hplace : Template.place p.placement (p.tree children) before = .ok after) :
    Stands (siblings ++ [.element name attributes inner]) after ∧
      (isFurther (.element name attributes inner) = true → EndsTested siblings) := by
  have ht : Chained [p.tree children] := p.chained_tree hchildren
  have hchained : Chained after := chained_place hplace ht h.chained
  have hfurther : isFurther (.element name attributes inner) = true ↔
      p.placement.name? = some "v-else-if" ∨ p.placement.name? = some "v-else" := by
    rw [hplacing]
    simp [isFurther]
  have htested : isTested (.element name attributes inner) = true ↔
      p.placement.name? = some "v-if" ∨ p.placement.name? = some "v-else-if" := by
    rw [hplacing]
    simp [isTested]
  cases hp : p.placement with
  | always =>
    rw [hp] at hplace hfurther
    cases hplace
    obtain ⟨hshown, hnone⟩ := p.tree_spec children
    refine ⟨h.add ht (fun hblank ↦ absurd hblank (Bool.eq_false_iff.1 hshown)) hnone, fun hn ↦ ?_⟩
    exact absurd (hfurther.1 hn) (by simp [Placement.name?])
  | whenTest test =>
    rw [hp] at hfurther htested
    refine ⟨⟨hchained, fun _ _ _ _ ↦ endsTested_concat_tested (htested.2 (.inl rfl)) siblings⟩, ?_⟩
    exact fun hn ↦ absurd (hfurther.1 hn) (by simp [Placement.name?])
  | elseWhen test =>
    rw [hp] at hplace htested
    obtain ⟨branches, rest, hdrop, hopen, -⟩ := addBranch_eq_ok hplace
    exact ⟨⟨hchained, fun _ _ _ _ ↦ endsTested_concat_tested (htested.2 (.inr rfl)) siblings⟩,
      fun _ ↦ h.tested branches rest hdrop hopen⟩
  | otherwise =>
    rw [hp] at hplace
    obtain ⟨branches, rest, hdrop, hopen, rfl⟩ := addBranch_eq_ok hplace
    refine ⟨⟨hchained, fun closed others heq hclosed ↦ ?_⟩, fun _ ↦ h.tested branches rest hdrop hopen⟩
    rw [List.dropWhile_cons_of_neg Bool.false_ne_true] at heq
    obtain ⟨rfl, -⟩ := Tree.conditional.inj (List.cons.inj heq).1, (List.cons.inj heq).2
    rw [isOpenEnded_concat] at hclosed
    cases hclosed

end

theorem chained_interpolated (parts : List TextPart) : Chained [.interpolated parts] := by
  rintro _ ⟨⟩

def AllAdjoin (families : List (List Markup.Node)) : Prop := ∀ siblings ∈ families, Adjoin siblings

theorem adjoin_nil : Adjoin [] := fun before _ _ h ↦
  absurd h (List.append_ne_nil_of_right_ne_nil before (List.cons_ne_nil _ _)).symm

/-- One sibling more. -/
theorem Adjoin.concat {siblings : List Markup.Node} (h : Adjoin siblings) {n : Markup.Node}
    (hn : isFurther n = true → EndsTested siblings) : Adjoin (siblings ++ [n]) := by
  intro before other after heq hother
  rcases List.eq_nil_or_concat after with rfl | ⟨after, last, rfl⟩
  · obtain ⟨rfl, rfl⟩ := List.append_singleton_inj.1 heq
    exact hn hother
  · rw [List.concat_eq_append, ← List.cons_append, ← List.append_assoc] at heq
    exact h before other after (List.append_singleton_inj.1 heq).1 hother

mutual

/-- A node is added where it may stand. -/
theorem addNode_stands {sources : List String} {siblings : List Markup.Node}
    {before after : List Tree} {hs hs' : Array Handler} (hbefore : Stands siblings before) :
    ∀ {n : Markup.Node}, addNode sources before n hs = .ok (after, hs') →
      Stands (siblings ++ [n]) after ∧ (isFurther n = true → EndsTested siblings) ∧
      AllAdjoin (families n)
  | .comment, h => by
    unfold addNode at h
    obtain ⟨rfl, -⟩ := reading_pure_eq_ok h
    exact ⟨hbefore.pass rfl, fun hn ↦ absurd hn Bool.false_ne_true,
      fun _ h ↦ absurd h (by simp [families])⟩
  | .text s, h => by
    unfold addNode at h
    obtain ⟨found, hs₁, hread, hdone⟩ := reading_bind_eq_ok h
    obtain ⟨htext, -⟩ := reading_lift_eq_ok hread
    obtain ⟨hblank, hshown⟩ := text?_spec htext
    refine ⟨?_, fun hn ↦ absurd hn Bool.false_ne_true, fun _ h ↦ absurd h (by simp [families])⟩
    cases found with
    | none =>
      obtain ⟨rfl, -⟩ := reading_pure_eq_ok hdone
      exact hbefore.pass (hblank rfl)
    | some t =>
      obtain ⟨rfl, -⟩ := reading_pure_eq_ok hdone
      obtain ⟨hchained, hnone⟩ := hshown t rfl
      exact hbefore.add hchained hblank hnone
  | .element name attributes children, h => by
    unfold addNode at h
    obtain ⟨p, hs₁, hattributes, hrest⟩ := reading_bind_eq_ok h
    have hplacing : p.placement.name? = placing? attributes :=
      (addAttributes_placement hattributes).trans (Option.or_none ..)
    have hgiven : p.text.isSome = attributes.any fun a ↦ a.1 == "v-text" := by
      rw [(addAttributes_reads hattributes).2.1, restoredAll, List.any_map]
      rfl
    unfold families
    rw [← hgiven]
    cases htext : p.text with
    | some e =>
      rw [htext] at hrest
      obtain ⟨hplace, -⟩ := reading_lift_eq_ok hrest
      obtain ⟨hafter, hfurther⟩ := hbefore.place (chained_interpolated _) hplacing hplace
      exact ⟨hafter, hfurther, fun _ h ↦ absurd h (by simp)⟩
    | none =>
      rw [htext] at hrest
      obtain ⟨inner, hs₂, hchildren, hdone⟩ := reading_bind_eq_ok hrest
      obtain ⟨hplace, -⟩ := reading_lift_eq_ok hdone
      obtain ⟨hinner, hadjoin, hbelow⟩ := addNodes_stands stands_nil adjoin_nil hchildren
      obtain ⟨hafter, hfurther⟩ := hbefore.place hinner.chained.trimmed hplacing hplace
      refine ⟨hafter, hfurther, ?_⟩
      rw [if_neg (by simp)]
      exact List.forall_mem_cons.2 ⟨hadjoin, hbelow⟩

/-- Siblings that are read stand as their trees do. -/
theorem addNodes_stands {sources : List String} {siblings : List Markup.Node}
    {before after : List Tree} {hs hs' : Array Handler} (hbefore : Stands siblings before)
    (hadjoin : Adjoin siblings) :
    ∀ {nodes : List Markup.Node}, addNodes sources before nodes hs = .ok (after, hs') →
      Stands (siblings ++ nodes) after ∧ Adjoin (siblings ++ nodes) ∧ AllAdjoin (familiesOf nodes)
  | [], h => by
    unfold addNodes at h
    obtain ⟨rfl, -⟩ := reading_pure_eq_ok h
    rw [List.append_nil]
    exact ⟨hbefore, hadjoin, fun _ h ↦ absurd h (by simp [familiesOf])⟩
  | n :: rest, h => by
    unfold addNodes at h
    obtain ⟨middle, hs₁, hone, hmore⟩ := reading_bind_eq_ok h
    obtain ⟨hmiddle, hfurther, hfirst⟩ := addNode_stands hbefore hone
    obtain ⟨hafter, hall, hrest⟩ := addNodes_stands hmiddle (hadjoin.concat hfurther) hmore
    rw [List.append_assoc, List.singleton_append] at hafter hall
    unfold familiesOf
    exact ⟨hafter, hall, fun siblings h ↦ (List.mem_append.1 h).elim (hfirst _) (hrest _)⟩

end

/-! ### Templates -/

/-- The content of the page that some markup is read as, with placeholders for interpolations. -/
def contentIn (markup : String) : List Markup.Node :=
  match interpolations (withoutComments markup.toList) with
  | .error _ => []
  | .ok (cs, _) => Markup.contentOf ((pieces cs).flatMap Piece.prepared)

/-- The lists of neighbours in some markup, as far as they count. -/
def familiesIn (markup : String) : List (List Markup.Node) :=
  contentIn markup :: familiesOf (contentIn markup)

/-- In a template every chain is one, and every further branch adjoins a tested one. -/
theorem ofMarkup_stands {markup : String} {t : Template} (h : ofMarkup markup = .ok t) :
    Chained t.roots ∧ AllAdjoin (familiesIn markup) := by
  unfold ofMarkup at h
  obtain ⟨⟨cs, sources⟩, hread, h⟩ := except_bind_eq_ok h
  obtain ⟨_, -, h⟩ := except_bind_eq_ok h
  obtain ⟨⟨roots, handlers⟩, hadd, h⟩ := except_bind_eq_ok h
  cases h
  obtain ⟨hstands, hadjoin, hbelow⟩ := addNodes_stands stands_nil adjoin_nil hadd
  unfold familiesIn contentIn
  rw [hread]
  exact ⟨hstands.chained.trimmed, List.forall_mem_cons.2 ⟨hadjoin, hbelow⟩⟩

/-- Every condition of a template is a chain, and rendering it comes to the branch that its tests
decide for. Markup with a further branch that does not follow one with a test is not accepted. -/
theorem conditions_are_chains (markup : String) :
    (∀ t, ofMarkup markup = .ok t → ∀ branches ∈ conditionsOf t.roots, IsChain branches ∧
      ∀ m s registered hs w, Decides m s registered hs w branches) ∧
    ((∃ siblings ∈ familiesIn markup, ¬Adjoin siblings) →
      ∃ fault, ofMarkup markup = .error fault) := by
  refine ⟨fun t h branches hmem ↦ ?_, fun hstray ↦ ?_⟩
  · have hchain := (ofMarkup_stands h).1 branches hmem
    exact ⟨hchain, fun m s registered hs w ↦ hchain.decides⟩
  · obtain ⟨siblings, hmem, hstray⟩ := hstray
    cases h : ofMarkup markup with
    | error fault => exact ⟨fault, rfl⟩
    | ok t => exact absurd ((ofMarkup_stands h).2 siblings hmem) hstray

def hidingMarkup : String := "<p v-else v-if=\"1\" v-text=\"2\"><b v-else></b></p>"

def isHidingContent : List Markup.Node → Bool
  | [.element "p" [("v-else", ""), ("v-if", "1"), ("v-text", "2")]
      [.element "b" [("v-else", "")] []]] => true
  | _ => false

/-- Of the directives that place an element only the last one counts, and what it holds does not if
its text is given: neither branch here follows another one. -/
theorem further_branches_hidden : (∃ t, ofMarkup hidingMarkup = .ok t) ∧
    contentIn hidingMarkup = [.element "p" [("v-else", ""), ("v-if", "1"), ("v-text", "2")]
      [.element "b" [("v-else", "")] []]] := by
  refine ⟨exists_ok_of_toBool (by decide +kernel), ?_⟩
  have h : isHidingContent (contentIn hidingMarkup) = true := by decide +kernel
  unfold isHidingContent at h
  split at h
  · assumption
  · cases h

end Nodecraft.Template
