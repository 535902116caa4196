import Nodecraft.Proofs.Template.Placeholders
import Nodecraft.Proofs.Template.Views

/-!
# Outlines

An outline tells the elements that there are, by their names, and which are in which. Markup that
has neither directives nor interpolations has one outline from its content to its views: each
element of the content becomes an element of the template (`addNodes_static`), and each of these an
element or component of the view (`renderAll_static`), in the same order and within the same one.
Only elements named `template` stand for what is in them.
-/

set_option autoImplicit false

namespace Nodecraft

/-- An element with the elements that are right in it. -/
inductive Outline
  | element (name : String) (inner : List Outline)

mutual

/-- An outline with other names. -/
def Outline.renamed (f : String → String) : Outline → Outline
  | .element name inner => .element (f name) (renamedAll f inner)

def renamedAll (f : String → String) : List Outline → List Outline
  | [] => []
  | o :: rest => o.renamed f :: renamedAll f rest

end

/-- Outlines side by side are renamed one by one. -/
theorem renamedAll_append (f : String → String) (outlines more : List Outline) :
    renamedAll f (outlines ++ more) = renamedAll f outlines ++ renamedAll f more := by
  induction outlines with
  | nil => rfl
  | cons o rest ih => simp only [List.cons_append, renamedAll, ih]

mutual

/-- The names of an element and all that are in it, in the order in which they begin. -/
def Outline.names : Outline → List String
  | .element name inner => name :: namesOf inner

def namesOf : List Outline → List String
  | [] => []
  | o :: rest => o.names ++ namesOf rest

end

theorem namesOf_append (outlines more : List Outline) :
    namesOf (outlines ++ more) = namesOf outlines ++ namesOf more := by
  induction outlines with
  | nil => rfl
  | cons o rest ih => simp only [List.cons_append, namesOf, ih, List.append_assoc]

theorem namesOf_element (name : String) (inner : List Outline) :
    namesOf [.element name inner] = name :: namesOf inner := by
  simp only [namesOf, Outline.names, List.append_nil]

namespace View

mutual

/-- The elements and components of a view. -/
def Node.outlines : Node → List Outline
  | .element tag _ _ children => [.element tag (outlineOf children)]
  | .text _ => []
  | .component name _ _ children => [.element name (outlineOf children)]

def outlineOf : List Node → List Outline
  | [] => []
  | n :: rest => n.outlines ++ outlineOf rest

end

theorem outlineOf_append (nodes more : List Node) :
    outlineOf (nodes ++ more) = outlineOf nodes ++ outlineOf more := by
  induction nodes with
  | nil => rfl
  | cons n rest ih => simp only [List.cons_append, outlineOf, ih, List.append_assoc]

end View

namespace Template

open Script Sandbox Sandbox.Action

/-! ### Content without directives -/

/-- Whether a name is that of a directive, known or not. -/
def isDirective (name : String) : Bool :=
  ["v-", ":", "@"].any fun start ↦ start.toList.isPrefixOf name.toList

mutual

/-- Whether no element has a directive. -/
def isStatic : Markup.Node → Bool
  | .element _ attributes children =>
    attributes.all (fun a ↦ !isDirective a.1) && areStatic children
  | .text _ => true
  | .comment => true

def areStatic : List Markup.Node → Bool
  | [] => true
  | n :: rest => isStatic n && areStatic rest

end

mutual

/-- The elements of some content, by their names as they are written. -/
def outline : Markup.Node → List Outline
  | .element name attributes children =>
    if spelled name attributes = "template" then outlineOf children
    else [.element (spelled name attributes) (outlineOf children)]
  | .text _ => []
  | .comment => []

def outlineOf : List Markup.Node → List Outline
  | [] => []
  | n :: rest => outline n ++ outlineOf rest

end

/-! ### Trees without anything to compute -/

def Attribute.isFixed : Attribute → Bool
  | .fixed _ _ => true
  | .bound _ _ => false
  | .spread _ => false

/-- The trees compute nothing, and these are their elements. -/
inductive Draws : List Tree → List Outline → Prop
  | nil : Draws [] []
  | text {s : String} {trees : List Tree} {outlines : List Outline} :
    Draws trees outlines → Draws (.text s :: trees) outlines
  | element {tag : String} {attributes : List Attribute} {children trees : List Tree}
      {inner outlines : List Outline} :
    (∀ a ∈ attributes, a.isFixed = true) → Draws children inner → Draws trees outlines →
      Draws (.element tag attributes [] none children :: trees) (.element tag inner :: outlines)
  | fragment {children trees : List Tree} {inner outlines : List Outline} :
    Draws children inner → Draws trees outlines →
      Draws (.fragment children :: trees) (inner ++ outlines)

namespace Draws

variable {trees more : List Tree} {outlines others : List Outline}

theorem append (h : Draws trees outlines) (hmore : Draws more others) :
    Draws (trees ++ more) (outlines ++ others) := by
  induction h with
  | nil => exact hmore
  | text _ ih => exact .text ih
  | element hfixed hchildren _ _ ih => exact .element hfixed hchildren ih
  | fragment hchildren _ _ ih =>
    rw [List.append_assoc]
    exact .fragment hchildren ih

/-- Blank texts draw nothing. -/
theorem dropWhile (h : Draws trees outlines) : Draws (trees.dropWhile isBlankTree) outlines := by
  induction h with
  | nil => exact .nil
  | @text s trees _ hrest ih =>
    rw [List.dropWhile_cons]
    split
    · exact ih
    · exact .text hrest
  | element hfixed hchildren hrest _ _ => exact .element hfixed hchildren hrest
  | fragment hchildren hrest _ _ => exact .fragment hchildren hrest

/-- White space at the end is none of the elements. -/
theorem of_append_blank {t : Tree} (ht : isBlankTree t = true) (h : Draws (trees ++ [t]) outlines) :
    Draws trees outlines := by
  generalize hall : trees ++ [t] = all at h
  induction h generalizing trees with
  | nil => exact absurd (List.append_eq_nil_iff.1 hall).2 (List.cons_ne_nil _ _)
  | text hrest ih =>
    cases trees with
    | nil =>
      obtain ⟨-, rfl⟩ := List.cons.inj hall
      exact hrest
    | cons t' trees =>
      obtain ⟨rfl, htail⟩ := List.cons.inj hall
      exact .text (ih htail)
  | element hfixed hchildren hrest _ ih =>
    cases trees with
    | nil =>
      obtain ⟨rfl, -⟩ := List.cons.inj hall
      cases ht
    | cons t' trees =>
      obtain ⟨rfl, htail⟩ := List.cons.inj hall
      exact .element hfixed hchildren (ih htail)
  | fragment hchildren hrest _ ih =>
    cases trees with
    | nil =>
      obtain ⟨rfl, -⟩ := List.cons.inj hall
      cases ht
    | cons t' trees =>
      obtain ⟨rfl, htail⟩ := List.cons.inj hall
      exact .fragment hchildren (ih htail)

theorem reverse_dropWhile {reversed : List Tree} (h : Draws reversed.reverse outlines) :
    Draws (reversed.dropWhile isBlankTree).reverse outlines := by
  induction reversed with
  | nil => exact h
  | cons t reversed ih =>
    rw [List.dropWhile_cons]
    split
    · rename_i ht
      rw [List.reverse_cons] at h
      exact ih (h.of_append_blank ht)
    · exact h

/-- Nor do they at either end. -/
theorem trimmed {reversed : List Tree} (h : Draws reversed.reverse outlines) :
    Draws (trimmed reversed) outlines := h.reverse_dropWhile.dropWhile

end Draws

/-! ### Reading content -/

/-- Without interpolations nothing is put back. -/
theorem restored_nil (s : String) : restored [] s = s := by
  have hquiet : Quiet [] s.toList := by
    intro digits _
    unfold source?
    split <;> rfl
  have hsame := restored_ofList [] s.toList
  rwa [(restoredChars_tail s.toList).2 hquiet, String.ofList_toList] at hsame

/-- An element of which no directive has been read. -/
structure Parts.IsStatic (p : Parts) : Prop where
  attributes : ∀ a ∈ p.attributes, a.isFixed = true
  events : p.events = []
  visible : p.visible = none
  placement : p.placement = .always
  loop : p.loop = none
  text : p.text = none

theorem Parts.isStatic_start (tag : String) : (Parts.start tag).IsStatic :=
  ⟨fun _ h ↦ absurd h List.not_mem_nil, rfl, rfl, rfl, rfl, rfl⟩

section

variable {p q : Parts} {hs hs' : Array Handler} {name value : String}

/-- A name that is no directive has no mark. -/
theorem behindEither?_eq_none {short long : String} (hname : isDirective name = false)
    (hshort : short.toList = ['@'] ∨ short.toList = [':'])
    (hlong : ∃ rest, long.toList = 'v' :: '-' :: rest) : behindEither? short long name = none := by
  have hnot : ∀ start ∈ ["v-", ":", "@"], ¬start.toList <+: name.toList := by
    intro start hstart hstarts
    have hall := List.any_eq_false.1 hname start hstart
    exact hall (List.isPrefixOf_iff_prefix.2 hstarts)
  have hnone {known : List Char} (hknown : ¬known <+: name.toList) :
      Text.dropKnown? known name.toList = none := by
    cases hdrop : Text.dropKnown? known name.toList with
    | none => rfl
    | some rest => exact absurd ⟨rest, (Text.eq_append_of_dropKnown? hdrop).symm⟩ hknown
  unfold behindEither?
  rw [hnone, hnone]
  · rfl
  · obtain ⟨rest, hrest⟩ := hlong
    rw [hrest]
    rintro ⟨more, hmore⟩
    exact hnot "v-" (by decide) ⟨rest ++ more, hmore⟩
  · rcases hshort with hshort | hshort
    · rw [hshort]
      exact hnot "@" (by decide)
    · rw [hshort]
      exact hnot ":" (by decide)

/-- An attribute that is no directive is fixed. -/
theorem addOther_static (hname : isDirective name = false)
    (h : addOther p name value hs = .ok (q, hs')) :
    q = p.withAttribute (.fixed name value) ∧ hs' = hs := by
  have hstarts : "v-".toList.isPrefixOf name.toList = false := by
    have hall := List.any_eq_false.1 hname "v-" (by decide)
    exact Bool.eq_false_iff.2 hall
  unfold addOther at h
  rw [behindEither?_eq_none hname (.inr rfl) ⟨_, rfl⟩,
    behindEither?_eq_none hname (.inl rfl) ⟨_, rfl⟩] at h
  dsimp only at h
  rw [hstarts] at h
  exact reading_pure_eq_ok h

/-- Attributes that are no directives only add a fixed attribute, if anything, or note the
spelling. -/
theorem addDirective_static (hp : p.IsStatic) (hname : isDirective name = false)
    (h : addDirective p name value hs = .ok (q, hs')) :
    q.IsStatic ∧ q.tag = respelled p.tag name value ∧ hs' = hs := by
  have hkeeps {name : String} (hne : name ≠ spellingAttribute) :
      p.tag = respelled p.tag name value := (if_neg hne).symm
  unfold addDirective at h
  split at h
  iterate 8 exact absurd hname (by decide +kernel)
  · obtain ⟨rfl, rfl⟩ := reading_pure_eq_ok h
    exact ⟨hp, hkeeps (by decide), rfl⟩
  iterate 2 exact absurd hname (by decide +kernel)
  · obtain ⟨rfl, rfl⟩ := reading_pure_eq_ok h
    exact ⟨hp, hkeeps (by decide), rfl⟩
  · split at h
    · rename_i hspelling
      obtain ⟨rfl, rfl⟩ := reading_pure_eq_ok h
      refine ⟨⟨hp.attributes, hp.events, hp.visible, hp.placement, hp.loop, hp.text⟩, ?_, rfl⟩
      exact (if_pos (beq_iff_eq.1 hspelling)).symm
    · rename_i hspelling
      obtain ⟨rfl, rfl⟩ := addOther_static hname h
      refine ⟨⟨?_, hp.events, hp.visible, hp.placement, hp.loop, hp.text⟩,
        hkeeps fun heq ↦ hspelling (beq_iff_eq.2 heq), rfl⟩
      intro a ha
      rcases List.mem_append.1 ha with ha | ha
      · exact hp.attributes a ha
      · obtain rfl := List.mem_singleton.1 ha
        rfl

/-- Without directives all attributes are fixed. -/
theorem addAttributes_static {attributes : List (String × String)} (hp : p.IsStatic)
    (hnames : ∀ a ∈ attributes, isDirective a.1 = false)
    (h : addAttributes [] p attributes hs = .ok (q, hs')) :
    q.IsStatic ∧ q.tag = spelled p.tag attributes ∧ hs' = hs := by
  induction attributes generalizing p hs with
  | nil =>
    obtain ⟨rfl, rfl⟩ := reading_pure_eq_ok h
    exact ⟨hp, rfl, rfl⟩
  | cons a rest ih =>
    obtain ⟨hfirst, hrest⟩ := List.forall_mem_cons.1 hnames
    unfold addAttributes at h
    rw [restored_nil] at h
    obtain ⟨p₁, hs₁, hadd, hmore⟩ := reading_bind_eq_ok h
    obtain ⟨hp₁, htag, rfl⟩ := addDirective_static hp hfirst hadd
    obtain ⟨hq, hspelled, rfl⟩ := ih hp₁ hrest hmore
    exact ⟨hq, by rw [hspelled, htag, spelled], rfl⟩

/-- A tree of its own, behind those before it. -/
theorem place_always (t : Tree) (before : List Tree) : place .always t before = .ok (t :: before) :=
  rfl

/-- An element without directives draws itself around its children. -/
theorem Parts.IsStatic.draws (hp : p.IsStatic) {children : List Tree} {inner : List Outline}
    (hchildren : Draws children inner) : Draws [p.tree children]
      (if p.tag = "template" then inner else [.element p.tag inner]) := by
  obtain ⟨tag, attributes, events, visible, placement, loop, text⟩ := p
  obtain ⟨hattributes, rfl, rfl, rfl, rfl, rfl⟩ := hp
  unfold Parts.tree
  dsimp only
  by_cases htag : tag = "template"
  · rw [if_pos (beq_iff_eq.2 htag), if_pos htag]
    have hfragment := Draws.fragment hchildren .nil
    rwa [List.append_nil] at hfragment
  · rw [if_neg (mt beq_iff_eq.1 htag), if_neg htag]
    exact .element hattributes hchildren .nil

/-- A text without interpolations is fixed. -/
theorem text?_static {s : String} {found : Option Tree} (h : text? [] s = .ok found) :
    found = none ∨ ∃ shown, found = some (.text shown) := by
  unfold text? at h
  split at h
  · cases h
    exact .inl rfl
  · dsimp only at h
    split at h
    · cases h
      exact .inr ⟨_, rfl⟩
    · rename_i hplaceholder
      -- nothing stands for a placeholder that is spelled in the text itself
      have hfails : ∀ parts : List Segment, ¬parts.all Segment.isText = true →
          ∀ shown, parts.mapM (textPart []) ≠ .ok shown := by
        intro parts
        induction parts with
        | nil => exact fun hparts ↦ absurd rfl hparts
        | cons part parts ih =>
          intro hparts shown hmap
          rw [List.mapM_cons] at hmap
          obtain ⟨first, hpart, hmap⟩ := except_bind_eq_ok hmap
          obtain ⟨rest, hrest, -⟩ := except_bind_eq_ok hmap
          cases part with
          | text cs =>
            refine ih (fun hall ↦ hparts ?_) rest hrest
            rw [List.all_cons, hall]
            rfl
          | placeholder digits =>
            have hnone : source? [] digits = none := by
              unfold source?
              split <;> rfl
            unfold textPart at hpart
            dsimp only at hpart
            rw [hnone] at hpart
            cases hpart
      cases hmap : (segments s).mapM (textPart []) with
      | error fault =>
        rw [hmap] at h
        cases h
      | ok shown => exact absurd hmap (hfails _ hplaceholder shown)

end

mutual

/-- Reading a node without directives adds its elements, and no handlers. -/
theorem addNode_static {before after : List Tree} {hs hs' : Array Handler} :
    ∀ {n : Markup.Node}, isStatic n = true → addNode [] before n hs = .ok (after, hs') →
      hs' = hs ∧ ∃ trees, after = trees.reverse ++ before ∧ Draws trees (outline n)
  | .comment, _, h => by
    unfold addNode at h
    obtain ⟨rfl, rfl⟩ := reading_pure_eq_ok h
    exact ⟨rfl, [], rfl, by unfold outline; exact .nil⟩
  | .text s, _, h => by
    unfold addNode at h
    obtain ⟨found, hs₁, hread, hdone⟩ := reading_bind_eq_ok h
    obtain ⟨htext, rfl⟩ := reading_lift_eq_ok hread
    unfold outline
    rcases text?_static htext with rfl | ⟨shown, rfl⟩
    · obtain ⟨rfl, rfl⟩ := reading_pure_eq_ok hdone
      exact ⟨rfl, [], rfl, .nil⟩
    · obtain ⟨rfl, rfl⟩ := reading_pure_eq_ok hdone
      exact ⟨rfl, [.text shown], rfl, .text .nil⟩
  | .element name attributes children, hstatic, h => by
    unfold isStatic at hstatic
    obtain ⟨hnames, hchildrenStatic⟩ := Bool.and_eq_true_iff.1 hstatic
    have hnames : ∀ a ∈ attributes, isDirective a.1 = false := fun a ha ↦ by
      simpa using List.all_eq_true.1 hnames a ha
    unfold addNode at h
    obtain ⟨p, hs₁, hattributes, hrest⟩ := reading_bind_eq_ok h
    obtain ⟨hp, htag, rfl⟩ := addAttributes_static (Parts.isStatic_start name) hnames hattributes
    rw [hp.text] at hrest
    obtain ⟨inner, hs₂, hchildren, hdone⟩ := reading_bind_eq_ok hrest
    obtain ⟨hplace, rfl⟩ := reading_lift_eq_ok hdone
    obtain ⟨rfl, trees, rfl, hdraws⟩ := addNodes_static hchildrenStatic hchildren
    rw [hp.placement, place_always] at hplace
    cases hplace
    unfold outline
    rw [show spelled name attributes = p.tag from htag.symm]
    rw [← List.reverse_reverse trees] at hdraws
    refine ⟨rfl, [_], rfl, hp.draws (Draws.trimmed ?_)⟩
    rwa [List.append_nil]

/-- Content without directives draws its outline. -/
theorem addNodes_static {before after : List Tree} {hs hs' : Array Handler} :
    ∀ {nodes : List Markup.Node}, areStatic nodes = true →
      addNodes [] before nodes hs = .ok (after, hs') →
      hs' = hs ∧ ∃ trees, after = trees.reverse ++ before ∧ Draws trees (outlineOf nodes)
  | [], _, h => by
    unfold addNodes at h
    obtain ⟨rfl, rfl⟩ := reading_pure_eq_ok h
    exact ⟨rfl, [], rfl, by unfold outlineOf; exact .nil⟩
  | n :: rest, hstatic, h => by
    unfold areStatic at hstatic
    obtain ⟨hfirst, hstaticRest⟩ := Bool.and_eq_true_iff.1 hstatic
    unfold addNodes at h
    obtain ⟨middle, hs₁, hone, hrest⟩ := reading_bind_eq_ok h
    obtain ⟨rfl, trees, rfl, hdraws⟩ := addNode_static hfirst hone
    obtain ⟨rfl, more, rfl, hmore⟩ := addNodes_static hstaticRest hrest
    unfold outlineOf
    exact ⟨rfl, trees ++ more, by simp, hdraws.append hmore⟩

end

/-! ### Rendering -/

/-- What an element is shown as: a component, if one is registered for its tag. -/
def shownAs (registered : Registered) (tag : String) : String :=
  (componentOf? registered tag).getD tag

/-- An element is shown under its name or its component's. -/
theorem outlineOf_elementNode (registered : Registered) (tag : String) (acc : Evaluated) (h : Heap)
    (events : List (String × Nat)) (children : List View.Node) :
    View.outlineOf [elementNode registered tag acc h events children] =
      [.element (shownAs registered tag) (View.outlineOf children)] := by
  unfold elementNode shownAs
  cases componentOf? registered tag with
  | some name => simp only [View.outlineOf, View.Node.outlines, List.append_nil, Option.getD_some]
  | none => simp only [View.outlineOf, View.Node.outlines, List.append_nil, Option.getD_none]

section

variable {w : World}

theorem nestedText?_string (h : Heap) (separator : String) (leaf : Value → String) (room : Nat)
    (value : String) :
    nestedText? h separator leaf room (.string value) = some (leaf (.string value)) := by
  cases room with
  | zero => simp only [nestedText?]
  | succ room => simp only [nestedText?]

theorem addValue_string (acc : Evaluated) (name value : String) :
    ∃ acc', addValue acc name (.string value) w = .ok acc' w := by
  have hclass : classText? w.heap (.string value) = some (classLeaf w.heap (.string value)) := by
    unfold classText? arrayText?
    exact nestedText?_string ..
  have hstyle : styleText? w.heap (.string value) = some (styleLeaf w.heap (.string value)) := by
    unfold styleText? arrayText?
    exact nestedText?_string ..
  unfold addValue
  change ∃ acc', (Action.heap >>= _) w = .ok acc' w
  rw [Action.bind_apply]
  change ∃ acc', (if name == "class" then _ else _ : Action Evaluated) w = .ok acc' w
  split
  · rw [hclass]
    exact ⟨_, rfl⟩
  · split
    · rw [hstyle]
      exact ⟨_, rfl⟩
    · exact ⟨_, rfl⟩

variable {m : Machine} {s : ScopeId}

/-- Fixed attributes are always evaluated. -/
theorem evaluateAttributes_fixed {attributes : List Attribute}
    (hfixed : ∀ a ∈ attributes, a.isFixed = true) (acc : Evaluated) :
    ∃ acc', evaluateAttributes m s acc attributes w = .ok acc' w := by
  induction attributes generalizing acc with
  | nil => exact ⟨acc, rfl⟩
  | cons a rest ih =>
    obtain ⟨ha, hrest⟩ := List.forall_mem_cons.1 hfixed
    cases a with
    | bound name e => cases ha
    | spread e => cases ha
    | fixed name value =>
      obtain ⟨acc₁, hadd⟩ := addValue_string (w := w) acc name value
      obtain ⟨acc', hmore⟩ := ih hrest acc₁
      refine ⟨acc', ?_⟩
      unfold evaluateAttributes
      change EStateM.bind (addValue acc name (.string value)) _ w = _
      unfold EStateM.bind
      rw [hadd]
      exact hmore

theorem rendering_bind_of_ok {α β : Type} {x : Rendering α} {f : α → Rendering β} {a : α}
    {hs hs₁ : Array BoundHandler} {w₁ : World} (h : x hs w = .ok (a, hs₁) w₁) :
    (x >>= f) hs w = f a hs₁ w₁ := by
  change EStateM.bind (x hs) (fun p ↦ f p.1 p.2) w = _
  unfold EStateM.bind
  rw [h]

theorem rendering_lift_of_ok {α : Type} {x : Action α} {a : α} {hs : Array BoundHandler}
    {w₁ : World} (h : x w = .ok a w₁) : (liftM x : Rendering α) hs w = .ok (a, hs) w₁ := by
  change EStateM.bind x (fun a ↦ pure (a, hs)) w = _
  unfold EStateM.bind
  rw [h]
  rfl

/-- Trees that compute nothing are shown whatever the state, and leave everything as it is. -/
theorem renderAll_static (registered : Registered) {trees : List Tree} {outlines : List Outline}
    (h : Draws trees outlines) (hs : Array BoundHandler) :
    ∃ nodes, renderAll m registered s trees hs w = .ok (nodes, hs) w ∧
      View.outlineOf nodes = renamedAll (shownAs registered) outlines := by
  induction h with
  | nil => exact ⟨[], by unfold renderAll; rfl, rfl⟩
  | @text shown _ _ _ ih =>
    obtain ⟨nodes, hrest, houtline⟩ := ih
    refine ⟨.text shown :: nodes, ?_, houtline⟩
    unfold renderAll render
    exact (rendering_bind_of_ok rfl).trans (rendering_bind_of_ok hrest)
  | @element tag attributes inside _ _ _ hfixed _ _ ihchildren ih =>
    obtain ⟨children, hchildren, hinner⟩ := ihchildren
    obtain ⟨nodes, hrest, houtline⟩ := ih
    obtain ⟨acc, hacc⟩ := evaluateAttributes_fixed (w := w) (m := m) (s := s) hfixed ⟨[], [], []⟩
    refine ⟨elementNode registered tag acc w.heap [] children :: nodes, ?_, ?_⟩
    · have hone : render m registered s (.element tag attributes [] none inside) hs w =
          .ok ([elementNode registered tag acc w.heap [] children], hs) w := by
        unfold render
        refine (rendering_bind_of_ok (rendering_lift_of_ok hacc)).trans ?_
        refine (rendering_bind_of_ok (a := acc) rfl).trans ?_
        refine (rendering_bind_of_ok (a := []) rfl).trans ?_
        refine (rendering_bind_of_ok hchildren).trans ?_
        refine (rendering_bind_of_ok (a := w.heap) rfl).trans ?_
        unfold elementNode
        cases componentOf? registered tag <;> rfl
      unfold renderAll
      exact (rendering_bind_of_ok hone).trans (rendering_bind_of_ok hrest)
    · have hfirst := outlineOf_elementNode registered tag acc w.heap [] children
      rw [← List.singleton_append, View.outlineOf_append, hfirst, houtline, hinner]
      rfl
  | @fragment _ _ _ _ _ _ ihchildren ih =>
    obtain ⟨children, hchildren, hinner⟩ := ihchildren
    obtain ⟨nodes, hrest, houtline⟩ := ih
    refine ⟨children ++ nodes, ?_, ?_⟩
    · unfold renderAll render
      exact (rendering_bind_of_ok hchildren).trans (rendering_bind_of_ok hrest)
    · rw [View.outlineOf_append, renamedAll_append, hinner, houtline]

/-- A template without directives renders its outline, whatever the state. -/
theorem run_static {t : Template} {outlines : List Outline} (h : Draws t.roots outlines)
    (registered : Registered) (state : Value) :
    ∃ out w', run t registered state w = .ok out w' ∧
      View.outlineOf out.nodes = renamedAll (shownAs registered) outlines := by
  obtain ⟨scope, w₁, hscope⟩ : ∃ scope w₁, stateScope state w = .ok scope w₁ := ⟨_, _, rfl⟩
  obtain ⟨nodes, hnodes, houtline⟩ :=
    renderAll_static (w := w₁) (m := machine) (s := scope) registered h #[]
  refine ⟨⟨nodes, #[]⟩, w₁, ?_, houtline⟩
  unfold run runOn
  change EStateM.bind (stateScope state) _ w = _
  unfold EStateM.bind
  rw [hscope]
  change EStateM.bind (renderAll machine registered scope t.roots #[]) _ w₁ = _
  unfold EStateM.bind
  rw [hnodes]
  rfl

end

/-! ### Markup -/

/-- A text without comments is left as it is. -/
theorem withoutComments_eq {cs : List Char} (h : ¬"<!--".toList <:+: cs) :
    withoutComments cs = cs := by
  have hdrop (fuel : Nat) : ∀ cs : List Char, ¬"<!--".toList <:+: cs → dropComments fuel cs = cs := by
    induction fuel with
    | zero => exact fun _ _ ↦ rfl
    | succ fuel ih =>
      intro cs hcs
      cases cs with
      | nil => rfl
      | cons c cs =>
        have hnone : Text.dropKnown? "<!--".toList (c :: cs) = none := by
          cases hdrop : Text.dropKnown? "<!--".toList (c :: cs) with
          | none => rfl
          | some rest =>
            exact absurd ⟨[], rest, (Text.eq_append_of_dropKnown? hdrop).symm⟩ hcs
        unfold dropComments
        rw [hnone, ih cs fun hinner ↦ hcs (hinner.trans (List.suffix_cons c cs).isInfix)]
        rfl
  exact hdrop _ cs h

/-- A text without braces has no interpolations. -/
theorem interpolations_eq {cs : List Char} (h : ¬['\x7b', '\x7b'] <:+: cs) :
    interpolations cs = .ok (cs, []) := by
  have hnone : Text.cut? ['\x7b', '\x7b'] cs = none := by
    cases hcut : Text.cut? ['\x7b', '\x7b'] cs with
    | none => rfl
    | some halves => exact absurd ⟨_, _, (Text.eq_append_of_cut? hcut).symm⟩ h
  unfold interpolations
  cases cs.length with
  | zero => rfl
  | succ fuel =>
    unfold takeInterpolations
    rw [hnone]

/-- The page that some markup is read as. -/
def pageOf (markup : String) : List Markup.Node :=
  Markup.contentOf ((pieces markup.toList).flatMap Piece.prepared)

section

variable {markup : String} (hcomments : ¬"<!--".toList <:+: markup.toList)
  (hbraces : ¬['\x7b', '\x7b'] <:+: markup.toList)

include hcomments hbraces

/-- A template is made of checked markup and of the nodes of its page. -/
theorem ofMarkup_eq_ok {t : Template} (h : ofMarkup markup = .ok t) :
    checkTags (pieces markup.toList) = .ok () ∧ ∃ roots,
      addNodes [] [] (pageOf markup) #[] = .ok (roots, t.handlers) ∧ t.roots = trimmed roots := by
  unfold ofMarkup at h
  rw [withoutComments_eq hcomments, interpolations_eq hbraces] at h
  obtain ⟨halves, hinterpolations, h⟩ := except_bind_eq_ok h
  cases hinterpolations
  obtain ⟨⟨⟩, hcheck, h⟩ := except_bind_eq_ok h
  obtain ⟨⟨roots, handlers⟩, hadd, h⟩ := except_bind_eq_ok h
  obtain rfl := Except.ok.inj h
  unfold pageOf
  generalize (pieces markup.toList).flatMap Piece.prepared = text at hadd ⊢
  generalize Markup.contentOf text = content at hadd ⊢
  exact ⟨hcheck, roots, hadd, rfl⟩

/-- What is shown for accepted markup without directives, comments and interpolations: each element
of the page it is read as, in the same place. -/
theorem run_outline {t : Template} (h : ofMarkup markup = .ok t)
    (hstatic : areStatic (pageOf markup) = true) (registered : Registered) (state : Value)
    (w : World) : ∃ out w', run t registered state w = .ok out w' ∧
      View.outlineOf out.nodes = renamedAll (shownAs registered) (outlineOf (pageOf markup)) := by
  obtain ⟨-, roots, hadd, hroots⟩ := ofMarkup_eq_ok hcomments hbraces h
  obtain ⟨-, trees, htrees, hdraws⟩ := addNodes_static hstatic hadd
  refine run_static ?_ registered state
  rw [hroots]
  refine Draws.trimmed ?_
  rwa [htrees, List.append_nil, List.reverse_reverse]

end

end Template

end Nodecraft
