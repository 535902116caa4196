import Mathlib.Data.List.Forall2
import Nodecraft.Proofs.Text.Search
import Nodecraft.Template.Compile

/-!
# Elements of templates

Each element of a template is made from one start tag of the markup, in the order in which the tags
are written, and each of its events goes by the number of the handler that was compiled from one of
the tag's own event directives (`ofMarkup_stems`). Handlers are numbered as they are read
(`Numbers`), those of a tag before those of the tags in it (`Stems`), so no two events have one number
(`Stems.pairwise_lt`).
-/

set_option autoImplicit false

namespace Nodecraft.Template

open Script

/-! ### Elements and start tags -/

/-- An element without what is in it. -/
structure Element where
  tag : String
  attributes : List Attribute
  events : List (String × Nat)
  visible : Option Expr

mutual

/-- The elements of a tree, each before those in it. -/
def Tree.elements : Tree → List Element
  | .text _ => []
  | .interpolated _ => []
  | .element tag attributes events visible children =>
    ⟨tag, attributes, events, visible⟩ :: elementsOf children
  | .fragment children => elementsOf children
  | .conditional branches => elementsOfBranches branches
  | .loop _ _ body => body.elements

def elementsOf : List Tree → List Element
  | [] => []
  | t :: rest => t.elements ++ elementsOf rest

def elementsOfBranches : List Branch → List Element
  | [] => []
  | .branch _ t :: rest => t.elements ++ elementsOfBranches rest

end

/-- A start tag with the attributes that are written in it. -/
structure StartTag where
  name : String
  attributes : List (String × String)

/-- An attribute that gives an element a handler. -/
structure EventDirective where
  event : String
  source : String
  /-- How messages name the directive. -/
  directive : String

/-- A tag after an attribute, which may note its spelling. -/
def respelled (tag name value : String) : String := if name = spellingAttribute then value else tag

def spelled : String → List (String × String) → String
  | tag, [] => tag
  | tag, (name, value) :: rest => spelled (respelled tag name value) rest

/-- What an attribute says of an event: that its value handles it, or that it stores what the event
brings. -/
def eventDirective? (tag name value : String) : Option EventDirective :=
  if name = "v-model" then
    some ⟨if isComponentTag tag then "update:modelValue" else "input", modelAssignment value, name⟩
  else (behindEither? "@" "v-on:" name).map fun arg ↦ ⟨plainName arg, value, name⟩

def eventDirectives : String → List (String × String) → List EventDirective
  | _, [] => []
  | tag, (name, value) :: rest =>
    (eventDirective? tag name value).toList ++ eventDirectives (respelled tag name value) rest

namespace StartTag

/-- The tag of the element, in the spelling of the markup. -/
def tag (s : StartTag) : String := spelled s.name s.attributes

def directives (s : StartTag) : List EventDirective := eventDirectives s.name s.attributes

/-- Whether there is an element for the tag. What a template holds stands on its own. -/
def isElement (s : StartTag) : Bool := s.tag != "template"

/-- Whether an attribute's value stands for what is in the element. -/
def hasText (s : StartTag) : Bool := s.attributes.any fun a ↦ a.1 == "v-text"

end StartTag

/-- Attributes with the interpolations that placeholders in them stand for. -/
def restoredAll (sources : List String) (attributes : List (String × String)) :
    List (String × String) :=
  attributes.map fun a ↦ (a.1, restored sources a.2)

mutual

/-- The start tags in a node that count, each before those in it. -/
def startTags (sources : List String) : Markup.Node → List StartTag
  | .comment => []
  | .text _ => []
  | .element name attributes children =>
    let s : StartTag := ⟨name, restoredAll sources attributes⟩
    s :: if s.hasText then [] else startTagsOf sources children

def startTagsOf (sources : List String) : List Markup.Node → List StartTag
  | [] => []
  | n :: rest => startTags sources n ++ startTagsOf sources rest

end

/-! ### Numbers of handlers -/

/-- Reading event directives, with the handlers before and after: each handler gets the next number,
and the event goes by it. -/
inductive Numbers :
    List EventDirective → Array Handler → List (String × Nat) → Array Handler → Prop
  | nil {hs : Array Handler} : Numbers [] hs [] hs
  | cons {d : EventDirective} {rest : List EventDirective} {hs hs' : Array Handler} {h : Handler}
      {events : List (String × Nat)} :
      handler d.source d.directive = .ok h → Numbers rest (hs.push h) events hs' →
      Numbers (d :: rest) hs ((d.event, hs.size) :: events) hs'

/-- Reading start tags: an element has the events of its tag, and what the tags of templates hold
stands without an element around it. -/
inductive Stems : List StartTag → Array Handler → List Element → Array Handler → Prop
  | nil {hs : Array Handler} : Stems [] hs [] hs
  | element {s : StartTag} {tags : List StartTag} {hs hs₁ hs' : Array Handler} {e : Element}
      {elements : List Element} :
      s.tag ≠ "template" → e.tag = s.tag → Numbers s.directives hs e.events hs₁ →
      Stems tags hs₁ elements hs' → Stems (s :: tags) hs (e :: elements) hs'
  | bare {s : StartTag} {tags : List StartTag} {hs hs₁ hs' : Array Handler}
      {events : List (String × Nat)} {elements : List Element} :
      s.tag = "template" → Numbers s.directives hs events hs₁ → Stems tags hs₁ elements hs' →
      Stems (s :: tags) hs elements hs'

/-- An event goes by the number of the handler that its directive compiles to. -/
def Compiled (handlers : Array Handler) (d : EventDirective) (event : String × Nat) : Prop :=
  event.1 = d.event ∧ ∃ h, handler d.source d.directive = .ok h ∧ handlers[event.2]? = some h

namespace Numbers

variable {directives : List EventDirective} {hs hs' : Array Handler} {events : List (String × Nat)}

theorem append (h : Numbers directives hs events hs') {more : List EventDirective}
    {hs₂ : Array Handler} {events₂ : List (String × Nat)} (hmore : Numbers more hs' events₂ hs₂) :
    Numbers (directives ++ more) hs (events ++ events₂) hs₂ := by
  induction h with
  | nil => exact hmore
  | cons hh _ ih => exact .cons hh (ih hmore)

/-- Handlers keep their numbers. -/
theorem getElem? (h : Numbers directives hs events hs') {k : Nat} {handler : Handler}
    (hk : hs[k]? = some handler) : hs'[k]? = some handler := by
  induction h with
  | nil => exact hk
  | cons _ _ ih =>
    obtain ⟨hlt, -⟩ := Array.getElem?_eq_some_iff.1 hk
    exact ih (by rwa [Array.getElem?_push_lt hlt, ← Array.getElem?_eq_getElem hlt])

/-- Each directive is compiled under its event's number. -/
theorem compiled (h : Numbers directives hs events hs') :
    List.Forall₂ (Compiled hs') directives events := by
  induction h with
  | nil => exact .nil
  | cons hh hrest ih => exact .cons ⟨rfl, _, hh, hrest.getElem? Array.getElem?_push_size⟩ ih

/-- Handlers are only added. -/
theorem size_le (h : Numbers directives hs events hs') : hs.size ≤ hs'.size := by
  induction h with
  | nil => exact Nat.le_refl _
  | cons _ _ ih =>
    rw [Array.size_push] at ih
    exact Nat.le_of_succ_le ih

/-- The numbers are new. -/
theorem bounds (h : Numbers directives hs events hs') :
    ∀ event ∈ events, hs.size ≤ event.2 ∧ event.2 < hs'.size := by
  induction h with
  | nil => exact fun _ he ↦ absurd he List.not_mem_nil
  | cons _ hrest ih =>
    intro event he
    have hle := hrest.size_le
    rw [Array.size_push] at ih hle
    rcases List.mem_cons.1 he with rfl | he
    · exact ⟨Nat.le_refl _, hle⟩
    · exact ⟨Nat.le_of_succ_le (ih event he).1, (ih event he).2⟩

/-- The numbers given to an element's handlers rise. -/
theorem pairwise_lt (h : Numbers directives hs events hs') :
    events.Pairwise fun a b ↦ a.2 < b.2 := by
  induction h with
  | nil => exact .nil
  | cons _ hrest ih =>
    refine .cons (fun event he ↦ ?_) ih
    have hge := (hrest.bounds event he).1
    rw [Array.size_push] at hge
    exact hge

end Numbers

namespace Stems

variable {tags : List StartTag} {hs hs' : Array Handler} {elements : List Element}

theorem append (h : Stems tags hs elements hs') {more : List StartTag} {hs₂ : Array Handler}
    {elements₂ : List Element} (hmore : Stems more hs' elements₂ hs₂) :
    Stems (tags ++ more) hs (elements ++ elements₂) hs₂ := by
  induction h with
  | nil => exact hmore
  | element htag he hn _ ih => exact .element htag he hn (ih hmore)
  | bare htag hn _ ih => exact .bare htag hn (ih hmore)

theorem getElem? (h : Stems tags hs elements hs') {k : Nat} {handler : Handler}
    (hk : hs[k]? = some handler) : hs'[k]? = some handler := by
  induction h with
  | nil => exact hk
  | element _ _ hn _ ih => exact ih (hn.getElem? hk)
  | bare _ hn _ ih => exact ih (hn.getElem? hk)

/-- Start tags and elements correspond, and so do their event directives and events. -/
theorem forall₂ (h : Stems tags hs elements hs') :
    List.Forall₂ (fun s e ↦ e.tag = s.tag ∧ List.Forall₂ (Compiled hs') s.directives e.events)
      (tags.filter StartTag.isElement) elements := by
  induction h with
  | nil => exact .nil
  | @element s _ _ _ _ _ _ htemplate htag hn hrest ih =>
    have hs : s.isElement = true := bne_iff_ne.2 htemplate
    rw [List.filter_cons_of_pos hs]
    refine .cons ⟨htag, hn.compiled.imp fun d event hcompiled ↦ ?_⟩ ih
    obtain ⟨hname, handler, hhandler, hk⟩ := hcompiled
    exact ⟨hname, handler, hhandler, hrest.getElem? hk⟩
  | @bare s _ _ _ _ _ _ htemplate _ _ ih =>
    have hs : ¬s.isElement = true := by
      rw [StartTag.isElement, htemplate]
      decide
    rw [List.filter_cons_of_neg hs]
    exact ih

/-- The numbers of the elements' events are new. -/
theorem size_le_of_mem (h : Stems tags hs elements hs') :
    ∀ event ∈ elements.flatMap Element.events, hs.size ≤ event.2 := by
  induction h with
  | nil => exact fun _ he ↦ absurd he List.not_mem_nil
  | element _ _ hn _ ih =>
    intro event he
    rcases List.mem_append.1 (List.flatMap_cons ▸ he) with he | he
    · exact (hn.bounds event he).1
    · exact Nat.le_trans hn.size_le (ih event he)
  | bare _ hn _ ih => exact fun event he ↦ Nat.le_trans hn.size_le (ih event he)

/-- No two events of a template have one number. -/
theorem pairwise_lt (h : Stems tags hs elements hs') :
    (elements.flatMap Element.events).Pairwise fun a b ↦ a.2 < b.2 := by
  induction h with
  | nil => exact .nil
  | element _ _ hn hrest ih =>
    rw [List.flatMap_cons, List.pairwise_append]
    exact ⟨hn.pairwise_lt, ih, fun a ha b hb ↦
      Nat.lt_of_lt_of_le (hn.bounds a ha).2 (hrest.size_le_of_mem b hb)⟩
  | bare _ _ _ ih => exact ih

end Stems

/-! ### Readings -/

theorem except_bind_eq_ok {ε α β : Type} {x : Except ε α} {f : α → Except ε β} {b : β}
    (h : x >>= f = .ok b) : ∃ a, x = .ok a ∧ f a = .ok b := by
  cases x with
  | error e => cases h
  | ok a => exact ⟨a, rfl, h⟩

theorem exists_ok_of_toBool {ε α : Type} {x : Except ε α} (h : x.toBool = true) :
    ∃ a, x = .ok a := by
  cases x with
  | error e => cases h
  | ok a => exact ⟨a, rfl⟩

/-- What is read in two parts. -/
theorem reading_bind_eq_ok {α β : Type} {x : Reading α} {f : α → Reading β} {hs hs' : Array Handler}
    {b : β} (h : (x >>= f) hs = .ok (b, hs')) :
    ∃ a hs₁, x hs = .ok (a, hs₁) ∧ f a hs₁ = .ok (b, hs') := by
  obtain ⟨r, hx, hf⟩ := except_bind_eq_ok (f := fun r : α × Array Handler ↦ f r.1 r.2) h
  exact ⟨r.1, r.2, hx, hf⟩

theorem reading_lift_eq_ok {α : Type} {x : Except Fault α} {hs hs' : Array Handler} {a : α}
    (h : (liftM x : Reading α) hs = .ok (a, hs')) : x = .ok a ∧ hs' = hs := by
  cases x with
  | error fault => cases h
  | ok b =>
    cases h
    exact ⟨rfl, rfl⟩

theorem reading_pure_eq_ok {α : Type} {a b : α} {hs hs' : Array Handler}
    (h : (pure a : Reading α) hs = .ok (b, hs')) : b = a ∧ hs' = hs := by
  cases h
  exact ⟨rfl, rfl⟩

/-! ### Attributes -/

/-- A name of an event is not one of a bound attribute. -/
theorem behindEither?_event_of_bound {name : String} {arg : List Char}
    (h : behindEither? ":" "v-bind:" name = some arg) : behindEither? "@" "v-on:" name = none := by
  rcases Option.or_eq_some_iff.1 h with hshort | ⟨-, hlong⟩
  · unfold behindEither?
    rw [Text.eq_append_of_dropKnown? hshort]
    rfl
  · unfold behindEither?
    rw [Text.eq_append_of_dropKnown? hlong]
    rfl

/-- What reading an attribute does to an element and to the handlers. -/
structure Reads (name value : String) (p : Parts) (hs : Array Handler) (q : Parts)
    (hs' : Array Handler) : Prop where
  tag : q.tag = respelled p.tag name value
  text : q.text.isSome = (p.text.isSome || name == "v-text")
  events : ∃ events, q.events = p.events ++ events ∧
    Numbers (eventDirective? p.tag name value).toList hs events hs'

namespace Reads

variable {name value : String} {p q : Parts} {hs hs' : Array Handler}

/-- Attributes that are no event directives leave events and handlers as they are. -/
theorem quiet (htag : q.tag = respelled p.tag name value)
    (htext : q.text.isSome = (p.text.isSome || name == "v-text")) (hevents : q.events = p.events)
    (hnone : eventDirective? p.tag name value = none) : Reads name value p hs q hs where
  tag := htag
  text := htext
  events := ⟨[], by rw [hevents, List.append_nil], by rw [hnone]; exact .nil⟩

theorem handler {d : EventDirective} {h : Handler} (htag : q.tag = respelled p.tag name value)
    (htext : q.text.isSome = (p.text.isSome || name == "v-text"))
    (hevents : q.events = p.events ++ [(d.event, hs.size)])
    (hsome : eventDirective? p.tag name value = some d)
    (hh : Template.handler d.source d.directive = .ok h) : Reads name value p hs q (hs.push h) where
  tag := htag
  text := htext
  events := ⟨_, hevents, by rw [hsome]; exact .cons hh .nil⟩

end Reads

/-- A compiled handler gets the next number. -/
theorem addHandler_eq_ok {source directive : String} {hs hs' : Array Handler} {id : Nat}
    (h : addHandler source directive hs = .ok (id, hs')) :
    ∃ compiled, handler source directive = .ok compiled ∧ id = hs.size ∧ hs' = hs.push compiled := by
  obtain ⟨compiled, hs₁, hlift, hrest⟩ := reading_bind_eq_ok h
  obtain ⟨hcompiled, rfl⟩ := reading_lift_eq_ok hlift
  cases hrest
  exact ⟨compiled, hcompiled, rfl, rfl⟩

section

variable {name value : String} {p q : Parts} {hs hs' : Array Handler}

/-- A model adds its property and its handler. -/
theorem addModel_reads (h : addModel p value hs = .ok (q, hs')) :
    Reads "v-model" value p hs q hs' := by
  obtain ⟨e, hs₁, hread, hrest⟩ := reading_bind_eq_ok h
  obtain ⟨-, rfl⟩ := reading_lift_eq_ok hread
  obtain ⟨id, hs₂, hadd, hdone⟩ := reading_bind_eq_ok hrest
  obtain ⟨compiled, hcompiled, rfl, rfl⟩ := addHandler_eq_ok hadd
  obtain ⟨rfl, rfl⟩ := reading_pure_eq_ok hdone
  have hsome : eventDirective? p.tag "v-model" value =
    some ⟨if isComponentTag p.tag then "update:modelValue" else "input", modelAssignment value,
      "v-model"⟩ := rfl
  exact .handler rfl (Bool.or_false _).symm rfl hsome hcompiled

/-- Other directives add attributes and handlers. -/
theorem addOther_reads (hmodel : name ≠ "v-model") (htext : name ≠ "v-text")
    (hspelling : name ≠ spellingAttribute) (h : addOther p name value hs = .ok (q, hs')) :
    Reads name value p hs q hs' := by
  have htag : p.tag = respelled p.tag name value := (if_neg hspelling).symm
  have htext : p.text.isSome = (p.text.isSome || name == "v-text") := by
    rw [beq_false_of_ne htext, Bool.or_false]
  have hdirective : eventDirective? p.tag name value =
    (behindEither? "@" "v-on:" name).map fun arg ↦ ⟨plainName arg, value, name⟩ := if_neg hmodel
  unfold addOther at h
  cases hbound : behindEither? ":" "v-bind:" name with
  | some arg =>
    rw [hbound] at h
    obtain ⟨e, hs₁, hread, hdone⟩ := reading_bind_eq_ok h
    obtain ⟨-, rfl⟩ := reading_lift_eq_ok hread
    obtain ⟨rfl, rfl⟩ := reading_pure_eq_ok hdone
    exact .quiet htag htext rfl (by rw [hdirective, behindEither?_event_of_bound hbound]; rfl)
  | none =>
    rw [hbound] at h
    cases hevent : behindEither? "@" "v-on:" name with
    | some arg =>
      rw [hevent] at h
      obtain ⟨id, hs₁, hadd, hdone⟩ := reading_bind_eq_ok h
      obtain ⟨compiled, hcompiled, rfl, rfl⟩ := addHandler_eq_ok hadd
      obtain ⟨rfl, rfl⟩ := reading_pure_eq_ok hdone
      have hsome : eventDirective? p.tag name value = some ⟨plainName arg, value, name⟩ := by
        rw [hdirective, hevent]
        rfl
      exact .handler htag htext rfl hsome hcompiled
    | none =>
      rw [hevent] at h
      have hnone : eventDirective? p.tag name value = none := by rw [hdirective, hevent]; rfl
      dsimp only at h
      split at h
      · obtain ⟨rfl, rfl⟩ := reading_pure_eq_ok h
        exact .quiet htag htext rfl hnone
      · obtain ⟨rfl, rfl⟩ := reading_pure_eq_ok h
        exact .quiet htag htext rfl hnone

/-- Every directive is read as its start tag says. -/
theorem addDirective_reads (h : addDirective p name value hs = .ok (q, hs')) :
    Reads name value p hs q hs' := by
  unfold addDirective at h
  split at h
  case h_1 | h_2 | h_4 | h_5 | h_8 =>
    obtain ⟨e, hs₁, hread, hdone⟩ := reading_bind_eq_ok h
    obtain ⟨-, rfl⟩ := reading_lift_eq_ok hread
    obtain ⟨rfl, rfl⟩ := reading_pure_eq_ok hdone
    exact .quiet rfl (Bool.or_false _).symm rfl rfl
  case h_6 =>
    obtain ⟨e, hs₁, hread, hdone⟩ := reading_bind_eq_ok h
    obtain ⟨-, rfl⟩ := reading_lift_eq_ok hread
    obtain ⟨rfl, rfl⟩ := reading_pure_eq_ok hdone
    exact .quiet rfl (Bool.or_true _).symm rfl rfl
  case h_7 => exact addModel_reads h
  case h_3 | h_9 | h_10 | h_11 | h_12 =>
    obtain ⟨rfl, rfl⟩ := reading_pure_eq_ok h
    exact .quiet rfl (Bool.or_false _).symm rfl rfl
  case h_13 _ _ _ _ _ htext hmodel _ _ _ _ _ =>
    split at h
    · rename_i hspelling
      obtain rfl := eq_of_beq hspelling
      obtain ⟨rfl, rfl⟩ := reading_pure_eq_ok h
      exact .quiet rfl (Bool.or_false _).symm rfl rfl
    · rename_i hspelling
      exact addOther_reads hmodel htext (fun heq ↦ hspelling (beq_iff_eq.2 heq)) h

/-- Reading attributes spells the tag, and numbers a handler for each event directive. -/
theorem addAttributes_reads {sources : List String} {attributes : List (String × String)} :
    ∀ {p : Parts} {hs : Array Handler}, addAttributes sources p attributes hs = .ok (q, hs') →
      q.tag = spelled p.tag (restoredAll sources attributes) ∧
      q.text.isSome =
        (p.text.isSome || (restoredAll sources attributes).any fun a ↦ a.1 == "v-text") ∧
      ∃ events, q.events = p.events ++ events ∧
        Numbers (eventDirectives p.tag (restoredAll sources attributes)) hs events hs' := by
  induction attributes with
  | nil =>
    intro p hs h
    obtain ⟨rfl, rfl⟩ := reading_pure_eq_ok h
    exact ⟨rfl, (Bool.or_false _).symm, [], (List.append_nil _).symm, .nil⟩
  | cons a rest ih =>
    intro p hs h
    obtain ⟨p₁, hs₁, hone, hrest⟩ := reading_bind_eq_ok h
    obtain ⟨htag₁, htext₁, events₁, hevents₁, hnumbers₁⟩ := addDirective_reads hone
    obtain ⟨htag, htext, events, hevents, hnumbers⟩ := ih hrest
    rw [htag₁] at htag hnumbers
    refine ⟨htag, ?_, events₁ ++ events, ?_, hnumbers₁.append hnumbers⟩
    · rw [htext, htext₁, Bool.or_assoc]
      rfl
    · rw [hevents, hevents₁, List.append_assoc]

end

/-! ### Trees -/

/-- Trees side by side have their elements one after the other. -/
theorem elementsOf_append (trees more : List Tree) :
    elementsOf (trees ++ more) = elementsOf trees ++ elementsOf more := by
  induction trees with
  | nil => rfl
  | cons t rest ih =>
    simp only [List.cons_append, elementsOf, ih, List.append_assoc]

theorem elementsOfBranches_append (branches more : List Branch) :
    elementsOfBranches (branches ++ more) = elementsOfBranches branches ++ elementsOfBranches more := by
  induction branches with
  | nil => rfl
  | cons b rest ih =>
    cases b with
    | branch test t =>
      simp only [List.cons_append, elementsOfBranches, ih, List.append_assoc]

/-- The elements of trees that stand in reverse, in order. -/
theorem elementsOf_reverse_cons (t : Tree) (before : List Tree) :
    elementsOf (t :: before).reverse = elementsOf before.reverse ++ t.elements := by
  rw [List.reverse_cons, elementsOf_append]
  simp only [elementsOf, List.append_nil]

theorem elements_of_isBlankTree {t : Tree} (h : isBlankTree t = true) : t.elements = [] := by
  cases t with
  | text s => simp only [Tree.elements]
  | _ => cases h

theorem elementsOf_dropWhile (trees : List Tree) :
    elementsOf (trees.dropWhile isBlankTree) = elementsOf trees := by
  induction trees with
  | nil => rfl
  | cons t rest ih =>
    rw [List.dropWhile_cons]
    split
    · rename_i hblank
      rw [ih, elementsOf, elements_of_isBlankTree hblank, List.nil_append]
    · rfl

theorem elementsOf_reverse_dropWhile (trees : List Tree) :
    elementsOf (trees.dropWhile isBlankTree).reverse = elementsOf trees.reverse := by
  induction trees with
  | nil => rfl
  | cons t rest ih =>
    rw [List.dropWhile_cons]
    split
    · rename_i hblank
      rw [ih, elementsOf_reverse_cons, elements_of_isBlankTree hblank, List.append_nil]
    · rfl

/-- Trimming takes away blank texts only. -/
theorem elementsOf_trimmed (reversed : List Tree) :
    elementsOf (trimmed reversed) = elementsOf reversed.reverse := by
  unfold trimmed
  rw [elementsOf_dropWhile, elementsOf_reverse_dropWhile]

/-- A further branch has its elements behind the others. -/
theorem elementsOf_addBranch {directive : String} {test : Option Expr} {t : Tree}
    {before after : List Tree} (h : addBranch directive (.branch test t) before = .ok after) :
    elementsOf after.reverse = elementsOf before.reverse ++ t.elements := by
  unfold addBranch at h
  split at h
  · rename_i branches rest hbefore
    split at h
    · cases h
      rw [← elementsOf_reverse_dropWhile before, hbefore, elementsOf_reverse_cons,
        elementsOf_reverse_cons, List.append_assoc]
      simp only [Tree.elements, elementsOfBranches_append, elementsOfBranches, List.append_nil]
    · cases h
  · cases h

/-- Placing a tree puts its elements behind the others. -/
theorem elementsOf_place {placement : Placement} {t : Tree} {before after : List Tree}
    (h : place placement t before = .ok after) :
    elementsOf after.reverse = elementsOf before.reverse ++ t.elements := by
  cases placement with
  | always =>
    cases h
    exact elementsOf_reverse_cons t before
  | whenTest test =>
    cases h
    rw [elementsOf_reverse_cons]
    simp only [Tree.elements, elementsOfBranches, List.append_nil]
  | elseWhen test => exact elementsOf_addBranch h
  | otherwise => exact elementsOf_addBranch h

/-- An element stands before the elements in it, unless its tag is that of a template. -/
theorem Parts.elements_tree (p : Parts) (children : List Tree) :
    (p.tree children).elements =
      if p.tag = "template" then elementsOf children
      else ⟨p.tag, p.attributes, p.events, p.visible⟩ :: elementsOf children := by
  have hbody : (p.tree children).elements = (if p.tag == "template" then Tree.fragment children
      else .element p.tag p.attributes p.events p.visible children).elements := by
    unfold Parts.tree
    cases p.loop with
    | none => rfl
    | some round => simp only [Tree.elements]
  rw [hbody]
  by_cases htag : p.tag = "template"
  · rw [if_pos (beq_iff_eq.2 htag), if_pos htag]
    simp only [Tree.elements]
  · rw [if_neg (fun heq ↦ htag (eq_of_beq heq)), if_neg htag]
    simp only [Tree.elements]

/-- A start tag and what is in it stem from it. -/
theorem Parts.stems {p : Parts} {s : StartTag} {tags : List StartTag} {hs hs₁ hs' : Array Handler}
    {children : List Tree} (htag : p.tag = s.tag) (hn : Numbers s.directives hs p.events hs₁)
    (hchildren : Stems tags hs₁ (elementsOf children) hs') :
    Stems (s :: tags) hs (p.tree children).elements hs' := by
  rw [p.elements_tree]
  by_cases htemplate : p.tag = "template"
  · rw [if_pos htemplate]
    exact .bare (htag ▸ htemplate) hn hchildren
  · rw [if_neg htemplate]
    exact .element (htag ▸ htemplate) htag hn hchildren

/-- Texts have no elements. -/
theorem elements_of_text? {sources : List String} {s : String} {t : Tree}
    (h : text? sources s = .ok (some t)) : t.elements = [] := by
  unfold text? at h
  split at h
  · cases h
  · dsimp only at h
    split at h
    · cases h
      simp only [Tree.elements]
    · generalize (segments s).mapM (textPart sources) = r at h
      cases r with
      | error fault => cases h
      | ok parts =>
        cases h
        simp only [Tree.elements]

mutual

/-- Reading a node adds the elements that stem from the start tags in it. -/
theorem addNode_stems {sources : List String} {before after : List Tree} {hs hs' : Array Handler} :
    ∀ {n : Markup.Node}, addNode sources before n hs = .ok (after, hs') →
      ∃ elements, elementsOf after.reverse = elementsOf before.reverse ++ elements ∧
        Stems (startTags sources n) hs elements hs'
  | .comment, h => by
    unfold addNode at h
    obtain ⟨rfl, rfl⟩ := reading_pure_eq_ok h
    exact ⟨[], (List.append_nil _).symm, by unfold startTags; exact .nil⟩
  | .text s, h => by
    unfold addNode at h
    obtain ⟨t?, hs₁, hread, hdone⟩ := reading_bind_eq_ok h
    obtain ⟨htext, rfl⟩ := reading_lift_eq_ok hread
    refine ⟨[], ?_, ?_⟩
    · cases t? with
      | none =>
        obtain ⟨rfl, -⟩ := reading_pure_eq_ok hdone
        exact (List.append_nil _).symm
      | some t =>
        obtain ⟨rfl, -⟩ := reading_pure_eq_ok hdone
        rw [elementsOf_reverse_cons, elements_of_text? htext]
    · unfold startTags
      cases t? with
      | none =>
        obtain ⟨-, rfl⟩ := reading_pure_eq_ok hdone
        exact .nil
      | some t =>
        obtain ⟨-, rfl⟩ := reading_pure_eq_ok hdone
        exact .nil
  | .element name attributes children, h => by
    unfold addNode at h
    obtain ⟨p, hs₁, hattributes, hrest⟩ := reading_bind_eq_ok h
    obtain ⟨htag, htext, events, hevents, hnumbers⟩ := addAttributes_reads hattributes
    obtain rfl : p.events = events := hevents
    unfold startTags
    dsimp only
    cases hp : p.text with
    | some e =>
      rw [hp] at hrest htext
      obtain ⟨hplace, rfl⟩ := reading_lift_eq_ok hrest
      have hhas : StartTag.hasText ⟨name, restoredAll sources attributes⟩ = true := htext.symm
      rw [if_pos hhas]
      exact ⟨_, elementsOf_place hplace, Parts.stems htag hnumbers
        (by simp only [elementsOf, Tree.elements, List.append_nil]; exact .nil)⟩
    | none =>
      rw [hp] at hrest htext
      have hhas : ¬StartTag.hasText ⟨name, restoredAll sources attributes⟩ = true :=
        fun hhas ↦ Bool.noConfusion (htext.trans hhas)
      obtain ⟨inner, hs₂, hchildren, hdone⟩ := reading_bind_eq_ok hrest
      obtain ⟨hplace, rfl⟩ := reading_lift_eq_ok hdone
      obtain ⟨elements, helements, hstems⟩ := addNodes_stems hchildren
      rw [if_neg hhas]
      refine ⟨_, elementsOf_place hplace, Parts.stems htag hnumbers ?_⟩
      rw [elementsOf_trimmed, helements]
      exact hstems

/-- The elements of the trees stem from the start tags of the nodes, in their order. -/
theorem addNodes_stems {sources : List String} {before after : List Tree} {hs hs' : Array Handler} :
    ∀ {nodes : List Markup.Node}, addNodes sources before nodes hs = .ok (after, hs') →
      ∃ elements, elementsOf after.reverse = elementsOf before.reverse ++ elements ∧
        Stems (startTagsOf sources nodes) hs elements hs'
  | [], h => by
    unfold addNodes at h
    obtain ⟨rfl, rfl⟩ := reading_pure_eq_ok h
    exact ⟨[], (List.append_nil _).symm, by unfold startTagsOf; exact .nil⟩
  | n :: rest, h => by
    unfold addNodes at h
    obtain ⟨middle, hs₁, hone, hrest⟩ := reading_bind_eq_ok h
    obtain ⟨elements₁, helements₁, hstems₁⟩ := addNode_stems hone
    obtain ⟨elements, helements, hstems⟩ := addNodes_stems hrest
    unfold startTagsOf
    exact ⟨elements₁ ++ elements, by rw [helements, helements₁, List.append_assoc],
      hstems₁.append hstems⟩

end

/-! ### Markup -/

/-- The start tags of some markup that is well formed, those in what stands for an element left out. -/
def startTagsIn (markup : String) : List StartTag :=
  match interpolations (withoutComments markup.toList) with
  | .error _ => []
  | .ok (cs, sources) =>
    startTagsOf sources (Markup.contentOf ((pieces cs).flatMap Piece.prepared))

/-- The elements of a template stem from the start tags of its markup. -/
theorem ofMarkup_stems {markup : String} {t : Template} (h : ofMarkup markup = .ok t) :
    Stems (startTagsIn markup) #[] (elementsOf t.roots) t.handlers := by
  unfold ofMarkup at h
  obtain ⟨⟨cs, sources⟩, hread, h⟩ := except_bind_eq_ok h
  obtain ⟨_, -, h⟩ := except_bind_eq_ok h
  obtain ⟨⟨roots, handlers⟩, hadd, h⟩ := except_bind_eq_ok h
  cases h
  obtain ⟨elements, helements, hstems⟩ := addNodes_stems hadd
  unfold startTagsIn
  rw [hread]
  dsimp only
  rw [elementsOf_trimmed, helements]
  exact hstems

end Nodecraft.Template
