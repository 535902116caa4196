import Mathlib.Data.List.Induction
import Nodecraft.Proofs.Template.Views
import Nodecraft.Proofs.View.Scanning

/-!
# Names of attributes and properties

A rendering comes to elements one after another (`Visited`), and each of them becomes a node. The
names in the node's tag are names that the markup has for the element, in the case of a component
with capitals in the place of dashes, and keys of objects that the element spreads (`Spreads`).
Values are escaped when a view is written as HTML, and the names of the markup are spelled like names,
but keys of objects are any texts.

So a name that is not spelled like one is a key of an object that is spread, and such a key becomes a
name of a component, and of an element if the value that stands last under it holds
(`unspelled_names_are_spread`). If there is no such key, the HTML of the view has the tags of the view.
-/

set_option autoImplicit false

namespace Nodecraft.Template

open Script Sandbox Sandbox.Action
open View (isSpelled isTagName listHeads)

/-! ### Names that the markup has -/

/-- Whether the name that an attribute is given by is spelled like one. -/
def Attribute.isSpelled : Attribute → Bool
  | .fixed name _ => View.isSpelled name
  | .bound name _ => View.isSpelled name
  | .spread _ => true

def Element.isSpelled (e : Element) : Bool := e.attributes.all Attribute.isSpelled

def StartTag.isSpelled (s : StartTag) : Bool := s.attributes.all fun a ↦ View.isSpelled a.1

/-- A name without its directive's mark is spelled if it was before. -/
theorem isSpelled_plainName {name : String} (hname : isSpelled name) {short long : String}
    {arg : List Char} (harg : behindEither? short long name = some arg) :
    isSpelled (plainName arg) := by
  have hbehind : ∃ known, name.toList = known ++ arg := by
    rcases Option.or_eq_some_iff.1 harg with h | ⟨-, h⟩
    · exact ⟨_, Text.eq_append_of_dropKnown? h⟩
    · exact ⟨_, Text.eq_append_of_dropKnown? h⟩
  obtain ⟨known, hknown⟩ := hbehind
  unfold View.isSpelled at hname
  rw [hknown, List.all_append, Bool.and_eq_true] at hname
  unfold View.isSpelled plainName
  rw [String.toList_ofList, List.all_eq_true]
  exact fun c hc ↦ List.all_eq_true.1 hname.2 c (List.takeWhile_subset _ hc)

/-- What reading an attribute adds to an element's. -/
def Adds (name : String) (p q : Parts) : Prop :=
  ∃ added, q.attributes = p.attributes ++ added ∧
    (View.isSpelled name → ∀ a ∈ added, a.isSpelled)

/-- A directive that adds no attribute. -/
theorem Adds.nothing {name : String} {p q : Parts} (h : q.attributes = p.attributes) :
    Adds name p q :=
  ⟨[], by rw [h, List.append_nil], fun _ _ ha ↦ absurd ha List.not_mem_nil⟩

/-- A directive that adds one attribute. -/
theorem Adds.one {name : String} {p q : Parts} {a : Attribute}
    (h : q.attributes = p.attributes ++ [a]) (ha : View.isSpelled name → a.isSpelled) :
    Adds name p q :=
  ⟨[a], h, fun hname _ hmem ↦ List.mem_singleton.1 hmem ▸ ha hname⟩

section

variable {name value : String} {p q : Parts} {hs hs' : Array Handler}

theorem addModel_adds (h : addModel p value hs = .ok (q, hs')) : Adds name p q := by
  obtain ⟨e, hs₁, hread, hrest⟩ := reading_bind_eq_ok h
  obtain ⟨id, hs₂, hadd, hdone⟩ := reading_bind_eq_ok hrest
  obtain ⟨rfl, -⟩ := reading_pure_eq_ok hdone
  have hname (isComponent : Bool) :
      View.isSpelled (if isComponent then "modelValue" else "value") := by
    cases isComponent <;> decide
  exact .one rfl fun _ ↦ hname _

theorem addOther_adds (h : addOther p name value hs = .ok (q, hs')) : Adds name p q := by
  unfold addOther at h
  cases hbound : behindEither? ":" "v-bind:" name with
  | some arg =>
    rw [hbound] at h
    obtain ⟨e, hs₁, hread, hdone⟩ := reading_bind_eq_ok h
    obtain ⟨rfl, -⟩ := reading_pure_eq_ok hdone
    exact .one rfl fun hname ↦ isSpelled_plainName hname hbound
  | none =>
    rw [hbound] at h
    cases hevent : behindEither? "@" "v-on:" name with
    | some arg =>
      rw [hevent] at h
      obtain ⟨id, hs₁, hadd, hdone⟩ := reading_bind_eq_ok h
      obtain ⟨rfl, -⟩ := reading_pure_eq_ok hdone
      exact .nothing rfl
    | none =>
      rw [hevent] at h
      dsimp only at h
      split at h
      · obtain ⟨rfl, -⟩ := reading_pure_eq_ok h
        exact .nothing rfl
      · obtain ⟨rfl, -⟩ := reading_pure_eq_ok h
        exact .one rfl fun hname ↦ hname

/-- No directive adds a name that is not spelled, unless its own is not. -/
theorem addDirective_adds (h : addDirective p name value hs = .ok (q, hs')) : Adds name p q := by
  unfold addDirective at h
  split at h
  case h_1 | h_2 | h_4 | h_5 | h_6 =>
    obtain ⟨e, hs₁, hread, hdone⟩ := reading_bind_eq_ok h
    obtain ⟨rfl, -⟩ := reading_pure_eq_ok hdone
    exact .nothing rfl
  case h_7 => exact addModel_adds h
  case h_8 =>
    obtain ⟨e, hs₁, hread, hdone⟩ := reading_bind_eq_ok h
    obtain ⟨rfl, -⟩ := reading_pure_eq_ok hdone
    exact .one rfl fun _ ↦ rfl
  case h_3 | h_9 | h_10 | h_11 | h_12 =>
    obtain ⟨rfl, -⟩ := reading_pure_eq_ok h
    exact .nothing rfl
  case h_13 =>
    split at h
    · obtain ⟨rfl, -⟩ := reading_pure_eq_ok h
      exact .nothing rfl
    · exact addOther_adds h

/-- Reading the attributes of a spelled tag gives spelled attributes. -/
theorem addAttributes_spelled {sources : List String} {attributes : List (String × String)}
    (hspelled : ∀ a ∈ restoredAll sources attributes, View.isSpelled a.1) :
    ∀ {p : Parts} {hs : Array Handler}, addAttributes sources p attributes hs = .ok (q, hs') →
      (∀ a ∈ p.attributes, a.isSpelled) → ∀ a ∈ q.attributes, a.isSpelled := by
  induction attributes with
  | nil =>
    intro p hs h hp
    obtain ⟨rfl, -⟩ := reading_pure_eq_ok h
    exact hp
  | cons a rest ih =>
    intro p hs h hp
    obtain ⟨p₁, hs₁, hone, hrest⟩ := reading_bind_eq_ok h
    obtain ⟨added, hadded, hall⟩ := addDirective_adds hone
    obtain ⟨hfirst, hlater⟩ := List.forall_mem_cons.1 hspelled
    refine ih hlater hrest fun b hb ↦ ?_
    rw [hadded] at hb
    exact (List.mem_append.1 hb).elim (hp b) (hall hfirst b)

end

/-- An element has spelled names if its parts have and its children have. -/
theorem Parts.spelled_of_mem {p : Parts} {children : List Tree}
    (hp : ∀ a ∈ p.attributes, a.isSpelled) (hchildren : ∀ e ∈ elementsOf children, e.isSpelled) :
    ∀ e ∈ (p.tree children).elements, e.isSpelled := by
  rw [p.elements_tree]
  split
  · exact hchildren
  · exact List.forall_mem_cons.2 ⟨List.all_eq_true.2 hp, hchildren⟩

mutual

/-- Reading a node with spelled tags adds spelled elements. -/
theorem addNode_spelled {sources : List String} {before after : List Tree}
    {hs hs' : Array Handler} (hbefore : ∀ e ∈ elementsOf before.reverse, e.isSpelled) :
    ∀ {n : Markup.Node}, (∀ s ∈ startTags sources n, s.isSpelled) →
      addNode sources before n hs = .ok (after, hs') →
      ∀ e ∈ elementsOf after.reverse, e.isSpelled
  | .comment, _, h => by
    unfold addNode at h
    obtain ⟨rfl, -⟩ := reading_pure_eq_ok h
    exact hbefore
  | .text s, _, h => by
    unfold addNode at h
    obtain ⟨t?, hs₁, hread, hdone⟩ := reading_bind_eq_ok h
    obtain ⟨htext, -⟩ := reading_lift_eq_ok hread
    cases t? with
    | none =>
      obtain ⟨rfl, -⟩ := reading_pure_eq_ok hdone
      exact hbefore
    | some t =>
      obtain ⟨rfl, -⟩ := reading_pure_eq_ok hdone
      rw [elementsOf_reverse_cons, elements_of_text? htext, List.append_nil]
      exact hbefore
  | .element name attributes children, hspelled, h => by
    unfold addNode at h
    obtain ⟨p, hs₁, hattributes, hrest⟩ := reading_bind_eq_ok h
    obtain ⟨-, htext, -⟩ := addAttributes_reads hattributes
    unfold startTags at hspelled
    dsimp only at hspelled
    obtain ⟨hs, hinner⟩ := List.forall_mem_cons.1 hspelled
    have hp := addAttributes_spelled (List.all_eq_true.1 hs) hattributes
      fun a ha ↦ absurd ha List.not_mem_nil
    cases htest : p.text with
    | some e =>
      rw [htest] at hrest
      obtain ⟨hplace, -⟩ := reading_lift_eq_ok hrest
      rw [elementsOf_place hplace]
      refine List.forall_mem_append.2 ⟨hbefore, Parts.spelled_of_mem hp ?_⟩
      simp only [elementsOf, Tree.elements, List.append_nil]
      exact fun _ he ↦ absurd he List.not_mem_nil
    | none =>
      rw [htest] at hrest htext
      obtain ⟨inner, hs₂, hchildren, hdone⟩ := reading_bind_eq_ok hrest
      obtain ⟨hplace, -⟩ := reading_lift_eq_ok hdone
      have hhas : ¬StartTag.hasText ⟨name, restoredAll sources attributes⟩ = true :=
        fun hhas ↦ Bool.noConfusion (htext.trans hhas)
      rw [if_neg hhas] at hinner
      rw [elementsOf_place hplace]
      refine List.forall_mem_append.2 ⟨hbefore, Parts.spelled_of_mem hp ?_⟩
      rw [elementsOf_trimmed]
      exact addNodes_spelled (fun _ he ↦ absurd he List.not_mem_nil) hinner hchildren

/-- Markup with spelled names gives elements with spelled names. -/
theorem addNodes_spelled {sources : List String} {before after : List Tree}
    {hs hs' : Array Handler} (hbefore : ∀ e ∈ elementsOf before.reverse, e.isSpelled) :
    ∀ {nodes : List Markup.Node}, (∀ s ∈ startTagsOf sources nodes, s.isSpelled) →
      addNodes sources before nodes hs = .ok (after, hs') →
      ∀ e ∈ elementsOf after.reverse, e.isSpelled
  | [], _, h => by
    unfold addNodes at h
    obtain ⟨rfl, -⟩ := reading_pure_eq_ok h
    exact hbefore
  | n :: rest, hspelled, h => by
    unfold addNodes at h
    unfold startTagsOf at hspelled
    obtain ⟨hfirst, hrest⟩ := List.forall_mem_append.1 hspelled
    obtain ⟨middle, hs₁, hone, hlater⟩ := reading_bind_eq_ok h
    exact addNodes_spelled (addNode_spelled hbefore hfirst hone) hrest hlater

end

/-- The elements of a template are spelled if the start tags of its markup are. -/
theorem elements_spelled {markup : String} {t : Template} (h : ofMarkup markup = .ok t)
    (hspelled : ∀ s ∈ startTagsIn markup, s.isSpelled) :
    ∀ e ∈ elementsOf t.roots, e.isSpelled := by
  unfold ofMarkup at h
  obtain ⟨⟨cs, sources⟩, hread, h⟩ := except_bind_eq_ok h
  obtain ⟨_, -, h⟩ := except_bind_eq_ok h
  obtain ⟨⟨roots, handlers⟩, hadd, h⟩ := except_bind_eq_ok h
  cases h
  unfold startTagsIn at hspelled
  rw [hread] at hspelled
  dsimp only at hspelled ⊢
  rw [elementsOf_trimmed]
  exact addNodes_spelled (fun _ he ↦ absurd he List.not_mem_nil) hspelled hadd

/-- The tag of an element is that of one of the start tags. -/
theorem exists_startTag {markup : String} {t : Template} (h : ofMarkup markup = .ok t)
    {e : Element} (he : e ∈ elementsOf t.roots) : ∃ s ∈ startTagsIn markup, e.tag = s.tag := by
  obtain ⟨i, hi⟩ := List.mem_iff_getElem?.1 he
  have hstems := (ofMarkup_stems h).forall₂
  obtain ⟨hlt, hget⟩ := List.getElem?_eq_some_iff.1 hi
  have hlt' := hstems.length_eq ▸ hlt
  refine ⟨_, List.mem_of_mem_filter (List.getElem_mem hlt'), ?_⟩
  rw [← hget]
  exact ((List.forall₂_iff_get.1 hstems).2 i hlt' hlt).1

/-! ### Names that elements are evaluated to -/

/-- Whether evaluating attributes in order comes to an object to be spread that has a key. -/
inductive Spreads (m : Machine) (s : ScopeId) :
    Evaluated → List Attribute → World → String → Prop
  | here {acc : Evaluated} {e : Expr} {rest : List Attribute} {source : Value} {w w' : World}
      {key : String} :
    valueOf m s e w = .ok source w' → key ∈ w'.heap.enumerableKeys source →
    Spreads m s acc (.spread e :: rest) w key
  | later {acc acc' : Evaluated} {a : Attribute} {rest : List Attribute} {w w' : World}
      {key : String} :
    addAttribute m s acc a w = .ok acc' w' → Spreads m s acc' rest w' key →
    Spreads m s acc (a :: rest) w key

/-- The names that values stand under. -/
def Evaluated.keys (acc : Evaluated) : List String := acc.values.map Prod.fst

/-- Whether an attribute with a value is written at all. -/
def holds : Value → Bool
  | .undefined => false
  | .null => false
  | .bool b => b
  | _ => true

section

variable {m : Machine} {s : ScopeId} {acc acc' : Evaluated} {w w' : World} {key : String}

theorem ne_of_not_isSpelled {name other : String} (hother : isSpelled other)
    (hname : ¬isSpelled name) : name ≠ other :=
  fun heq ↦ hname (heq ▸ hother)

/-- A value adds its name. -/
theorem mem_keys_addValue {name : String} {v : Value} (h : addValue acc name v w = .ok acc' w')
    (hkey : ¬isSpelled key) : key ∈ acc'.keys ↔ key ∈ acc.keys ∨ key = name := by
  have hclass : key ≠ "class" := ne_of_not_isSpelled (by decide) hkey
  have hstyle : key ≠ "style" := ne_of_not_isSpelled (by decide) hkey
  obtain ⟨heap, w₁, -, h⟩ := bind_eq_ok h
  split at h
  case isTrue hname =>
    have hne : key ≠ name := fun heq ↦ hclass (heq.trans (eq_of_beq hname))
    cases htext : classText? heap v with
    | none =>
      rw [htext] at h
      cases h
    | some text =>
      rw [htext] at h
      cases h
      exact ⟨.inl, fun hor ↦ hor.resolve_right hne⟩
  case isFalse =>
    split at h
    case isTrue hname =>
      have hne : key ≠ name := fun heq ↦ hstyle (heq.trans (eq_of_beq hname))
      cases htext : styleText? heap v with
      | none =>
        rw [htext] at h
        cases h
      | some text =>
        rw [htext] at h
        cases h
        exact ⟨.inl, fun hor ↦ hor.resolve_right hne⟩
    case isFalse =>
      cases h
      simp [Evaluated.keys]

/-- A spread object adds its keys. -/
theorem mem_keys_addEntries {source : Value} {keys : List String}
    (h : addEntries m source acc keys w = .ok acc' w') (hkey : ¬isSpelled key) :
    key ∈ acc'.keys ↔ key ∈ acc.keys ∨ key ∈ keys := by
  induction keys generalizing acc w with
  | nil =>
    cases h
    simp
  | cons first rest ih =>
    obtain ⟨v, w₁, -, h⟩ := bind_eq_ok h
    obtain ⟨acc₁, w₂, hadd, h⟩ := bind_eq_ok h
    rw [ih h, mem_keys_addValue hadd hkey, List.mem_cons, or_assoc]

/-- The names that are not spelled like names are keys of objects that are spread. -/
theorem mem_keys_evaluateAttributes {attributes : List Attribute}
    (hspelled : ∀ a ∈ attributes, a.isSpelled)
    (h : evaluateAttributes m s acc attributes w = .ok acc' w') (hkey : ¬isSpelled key) :
    key ∈ acc'.keys ↔ key ∈ acc.keys ∨ Spreads m s acc attributes w key := by
  induction attributes generalizing acc w with
  | nil =>
    cases h
    exact ⟨.inl, fun hor ↦ hor.resolve_right (nomatch ·)⟩
  | cons a rest ih =>
    obtain ⟨acc₁, w₁, hadd, h⟩ := bind_eq_ok h
    obtain ⟨ha, hrest⟩ := List.forall_mem_cons.1 hspelled
    rw [ih hrest h]
    have hlater : Spreads m s acc₁ rest w₁ key → Spreads m s acc (a :: rest) w key := .later hadd
    have hcases : Spreads m s acc (a :: rest) w key →
        key ∈ acc₁.keys ∨ Spreads m s acc₁ rest w₁ key := by
      intro hspreads
      cases hspreads with
      | later hadd' hspreads =>
        cases hadd.symm.trans hadd'
        exact .inr hspreads
      | here hvalue hmem =>
        obtain ⟨source, w₂, hvalue', hadd⟩ := bind_eq_ok hadd
        cases hvalue.symm.trans hvalue'
        obtain ⟨heap, w₃, hheap, hadd⟩ := bind_eq_ok hadd
        cases hheap
        exact .inl ((mem_keys_addEntries hadd hkey).2 (.inr hmem))
    have hfirst : key ∈ acc₁.keys → key ∈ acc.keys ∨ Spreads m s acc (a :: rest) w key := by
      intro hmem
      cases a with
      | fixed name value =>
        have hne : key ≠ name := ne_of_not_isSpelled ha hkey
        exact .inl (((mem_keys_addValue hadd hkey).1 hmem).resolve_right hne)
      | bound name e =>
        obtain ⟨v, w₂, -, hadd⟩ := bind_eq_ok hadd
        have hne : key ≠ name := ne_of_not_isSpelled ha hkey
        exact .inl (((mem_keys_addValue hadd hkey).1 hmem).resolve_right hne)
      | spread e =>
        obtain ⟨source, w₂, hvalue, hadd⟩ := bind_eq_ok hadd
        obtain ⟨heap, w₃, hheap, hadd⟩ := bind_eq_ok hadd
        cases hheap
        exact ((mem_keys_addEntries hadd hkey).1 hmem).imp_right (.here hvalue)
    have hkept : key ∈ acc.keys → key ∈ acc₁.keys := by
      intro hmem
      cases a with
      | fixed name value => exact (mem_keys_addValue hadd hkey).2 (.inl hmem)
      | bound name e =>
        obtain ⟨v, w₂, -, hadd⟩ := bind_eq_ok hadd
        exact (mem_keys_addValue hadd hkey).2 (.inl hmem)
      | spread e =>
        obtain ⟨source, w₂, -, hadd⟩ := bind_eq_ok hadd
        obtain ⟨heap, w₃, -, hadd⟩ := bind_eq_ok hadd
        exact (mem_keys_addEntries hadd hkey).2 (.inl hmem)
    exact ⟨fun hor ↦ hor.elim hfirst fun h ↦ .inr (hlater h),
      fun hor ↦ hor.elim (fun h ↦ .inl (hkept h)) hcases⟩

/-- Visibility adds a style only. -/
theorem values_addVisibility {visible : Option Expr}
    (h : addVisibility m s acc visible w = .ok acc' w') : acc'.values = acc.values := by
  cases visible with
  | none =>
    cases h
    rfl
  | some e =>
    obtain ⟨v, w₁, -, h⟩ := bind_eq_ok h
    split at h
    · cases h
      rfl
    · cases h
      rfl

end

/-! ### Names in tags -/

/-- A name stands among the entries if it can be looked up. -/
theorem mem_map_fst_iff_lookup {α : Type} {entries : List (String × α)} {name : String} :
    name ∈ entries.map Prod.fst ↔ entries.lookup name ≠ none := by
  rw [ne_eq, List.lookup_eq_none_iff]
  simp

/-- Setting an entry adds its name and no other. -/
theorem mem_names_setSorted {α : Type} {entries : List (String × α)} {name other : String} {a : α} :
    name ∈ (setSorted entries other a).map Prod.fst ↔
      name = other ∨ name ∈ entries.map Prod.fst := by
  unfold setSorted
  rw [mem_map_fst_iff_lookup, Json.lookup_sortFields, ← mem_map_fst_iff_lookup]
  simp

theorem mem_names_setUnlessEmpty {α : Type} {wrap : String → α} {entries : List (String × α)}
    {name other text : String} (hname : name ≠ other) :
    name ∈ (setUnlessEmpty wrap other text entries).map Prod.fst ↔
      name ∈ entries.map Prod.fst := by
  unfold setUnlessEmpty
  split
  · rfl
  · rw [mem_names_setSorted]
    simp [hname]

/-- An attribute is set if its value holds. -/
theorem mem_names_setAttribute (h : Heap) (entries : List (String × String))
    (name other : String) (v : Value) :
    name ∈ (setAttribute h entries other v).map Prod.fst ↔
      if name = other then holds v = true else name ∈ entries.map Prod.fst := by
  have hleft : name ∈ (entries.filter fun e ↦ e.1 != other).map Prod.fst ↔
      if name = other then false = true else name ∈ entries.map Prod.fst := by
    split
    case isTrue heq => simp [heq]
    case isFalse hne => simp [hne]
  have hset (text : String) : name ∈ (setSorted entries other text).map Prod.fst ↔
      if name = other then true = true else name ∈ entries.map Prod.fst := by
    rw [mem_names_setSorted]
    split
    case isTrue heq => simp [heq]
    case isFalse hne => simp [hne]
  cases v with
  | undefined => exact hleft
  | null => exact hleft
  | bool b =>
    cases b with
    | false => exact hleft
    | true => exact hset ""
  | _ => exact hset _

/-- An attribute is written if the value that stands last under its name holds. -/
theorem mem_names_foldl_setAttribute (h : Heap) (name : String) (values : List (String × Value)) :
    ∀ entries : List (String × String), name ∉ entries.map Prod.fst →
      (name ∈ (values.foldl (fun acc e ↦ setAttribute h acc e.1 e.2) entries).map Prod.fst ↔
        ∃ v, values.reverse.lookup name = some v ∧ holds v) := by
  induction values using List.reverseRecOn with
  | nil =>
    intro entries hnot
    simp [hnot]
  | append_singleton values last ih =>
    intro entries hnot
    obtain ⟨other, v⟩ := last
    rw [List.foldl_append, List.foldl_cons, List.foldl_nil, mem_names_setAttribute, ih entries hnot,
      List.reverse_append, List.reverse_singleton, List.singleton_append, List.lookup_cons]
    by_cases hname : name = other
    · simp [hname]
    · simp [hname, beq_false_of_ne hname]

theorem mem_names_foldl_setSorted {α : Type} (name : String) (values : List (String × α)) :
    ∀ entries : List (String × α), name ∉ entries.map Prod.fst →
      (name ∈ (values.foldl (fun acc e ↦ setSorted acc e.1 e.2) entries).map Prod.fst ↔
        name ∈ values.map Prod.fst) := by
  induction values using List.reverseRecOn with
  | nil =>
    intro entries hnot
    simp [hnot]
  | append_singleton values last ih =>
    intro entries hnot
    rw [List.foldl_append, List.foldl_cons, List.foldl_nil, mem_names_setSorted, ih entries hnot]
    simp [or_comm]

/-- Whether a key stands for a name in a tag: for every value in that of a component, if its value
holds in that of an element. -/
def Evaluated.Shows (registered : Registered) (tag : String) (acc : Evaluated)
    (key name : String) : Prop :=
  if (componentOf? registered tag).isSome then name = camelCase key
  else name = key ∧ ∃ v, acc.values.reverse.lookup key = some v ∧ holds v

theorem isAttributeChar_toUpper {c : Char} (hc : Tag.isAttributeChar c) :
    Tag.isAttributeChar c.toUpper := by
  have hsmall : ∀ k < 26, Tag.isAttributeChar (Char.ofNat (97 + k)).toUpper := by decide
  by_cases hlower : 'a'.val ≤ c.val ∧ c.val ≤ 'z'.val
  · obtain ⟨hge, hle⟩ : 97 ≤ c.toNat ∧ c.toNat ≤ 122 := hlower
    have hupper := hsmall (c.toNat - 97) (by omega)
    rwa [Nat.add_sub_cancel' hge, Char.ofNat_toNat] at hupper
  · have hsame : c.toUpper = c := dif_neg hlower
    rwa [hsame]

/-- A spelled key is spelled in any case. -/
theorem isSpelled_camelCase {key : String} (hkey : isSpelled key) : isSpelled (camelCase key) := by
  have hfrom (cs : List Char) : ∀ raised, cs.all Tag.isAttributeChar →
      (camelCase.from_ raised cs).all Tag.isAttributeChar := by
    induction cs with
    | nil => exact fun _ _ ↦ rfl
    | cons c cs ih =>
      intro raised hall
      obtain ⟨hc, hcs⟩ := Bool.and_eq_true_iff.1 hall
      unfold camelCase.from_
      split
      · exact ih true hcs
      · refine Bool.and_eq_true_iff.2 ⟨?_, ih false hcs⟩
        cases raised with
        | true => exact isAttributeChar_toUpper hc
        | false => exact hc
  unfold View.isSpelled camelCase at *
  rw [String.toList_ofList]
  exact hfrom key.toList false hkey

/-- What stands in an element's tag. -/
theorem heads_elementNode (registered : Registered) (tag : String) (acc : Evaluated) (h : Heap)
    (events : List (String × Nat)) (children : List View.Node) :
    ∃ head, (elementNode registered tag acc h events children).heads =
        head :: listHeads children ∧ head.tag = (componentOf? registered tag).getD tag ∧
      ∀ {name : String}, ¬isSpelled name →
        (name ∈ head.names ↔ ∃ key ∈ acc.keys, acc.Shows registered tag key name) := by
  unfold elementNode Evaluated.Shows
  cases componentOf? registered tag with
  | some component =>
    refine ⟨⟨component, (acc.props h).map Prod.fst⟩, by simp only [View.Node.heads], rfl,
      fun {name} hname ↦ ?_⟩
    have hclass : name ≠ "class" := ne_of_not_isSpelled (by decide) hname
    have hstyle : name ≠ "style" := ne_of_not_isSpelled (by decide) hname
    have hfold : acc.props h =
        (acc.values.map fun e ↦ (camelCase e.1, h.document e.2)).foldl
          (fun acc e ↦ setSorted acc e.1 e.2)
          (setUnlessEmpty Json.string "style" (joined "; " acc.styles)
            (setUnlessEmpty Json.string "class" (joined " " acc.classes) [])) := by
      rw [List.foldl_map]
      rfl
    dsimp only
    rw [hfold, mem_names_foldl_setSorted]
    · simp [Evaluated.keys, eq_comm]
    · rw [mem_names_setUnlessEmpty hstyle, mem_names_setUnlessEmpty hclass]
      exact List.not_mem_nil
  | none =>
    refine ⟨⟨tag, (acc.attributes h).map Prod.fst⟩, by simp only [View.Node.heads], rfl,
      fun {name} hname ↦ ?_⟩
    have hclass : name ≠ "class" := ne_of_not_isSpelled (by decide) hname
    have hstyle : name ≠ "style" := ne_of_not_isSpelled (by decide) hname
    have hfold := mem_names_foldl_setAttribute h name acc.values
      (setUnlessEmpty id "style" (joined "; " acc.styles)
        (setUnlessEmpty id "class" (joined " " acc.classes) []))
    rw [mem_names_setUnlessEmpty hstyle, mem_names_setUnlessEmpty hclass] at hfold
    refine (hfold List.not_mem_nil).trans ⟨?_, ?_⟩
    · rintro ⟨v, hlookup, hv⟩
      have hmem : name ∈ acc.values.reverse.map Prod.fst :=
        mem_map_fst_iff_lookup.2 (by rw [hlookup]; exact Option.some_ne_none v)
      rw [List.map_reverse, List.mem_reverse] at hmem
      exact ⟨name, hmem, rfl, v, hlookup, hv⟩
    · rintro ⟨key, -, rfl, hv⟩
      exact hv

/-- A name that is not spelled like one does not stand for a key that is. -/
theorem Evaluated.Shows.not_isSpelled {registered : Registered} {tag : String} {acc : Evaluated}
    {key name : String} (h : acc.Shows registered tag key name) (hname : ¬isSpelled name) :
    ¬isSpelled key := by
  unfold Evaluated.Shows at h
  split at h
  · exact fun hkey ↦ hname (h ▸ isSpelled_camelCase hkey)
  · exact h.1 ▸ hname

/-! ### Elements that a rendering comes to -/

/-- An element that is shown in a scope, from a world on. -/
structure Visit where
  element : Element
  scope : ScopeId
  world : World

section

variable (m : Machine)

mutual

/-- The elements that showing a tree comes to, from one world to another. -/
inductive Visited : ScopeId → Tree → World → List Visit → World → Prop
  | text {s : ScopeId} {text : String} {w : World} : Visited s (.text text) w [] w
  | interpolated {s : ScopeId} {parts : List TextPart} {text : String} {w w' : World} :
    interpolate m s parts w = .ok text w' → Visited s (.interpolated parts) w [] w'
  | fragment {s : ScopeId} {children : List Tree} {visits : List Visit} {w w' : World} :
    VisitedAll s children w visits w' → Visited s (.fragment children) w visits w'
  | conditional {s : ScopeId} {branches : List Branch} {visits : List Visit} {w w' : World} :
    VisitedBranch s branches w visits w' → Visited s (.conditional branches) w visits w'
  | loop {s : ScopeId} {aliases : List Pattern} {source : Expr} {body : Tree} {v : Value}
      {rows : List (List Value)} {visits : List Visit} {w w₁ w₂ w' : World} :
    valueOf m s source w = .ok v w₁ → loopRows m v w₁ = .ok rows w₂ →
    VisitedRows s aliases body rows w₂ visits w' → Visited s (.loop aliases source body) w visits w'
  | element {s : ScopeId} {tag : String} {attributes : List Attribute}
      {events : List (String × Nat)} {visible : Option Expr} {children : List Tree}
      {acc acc' : Evaluated} {visits : List Visit} {w w₁ w₂ w' : World} :
    evaluateAttributes m s ⟨[], [], []⟩ attributes w = .ok acc w₁ →
    addVisibility m s acc visible w₁ = .ok acc' w₂ → VisitedAll s children w₂ visits w' →
    Visited s (.element tag attributes events visible children) w
      (⟨⟨tag, attributes, events, visible⟩, s, w⟩ :: visits) w'

inductive VisitedAll : ScopeId → List Tree → World → List Visit → World → Prop
  | nil {s : ScopeId} {w : World} : VisitedAll s [] w [] w
  | cons {s : ScopeId} {t : Tree} {rest : List Tree} {visits more : List Visit}
      {w w₁ w' : World} :
    Visited s t w visits w₁ → VisitedAll s rest w₁ more w' →
    VisitedAll s (t :: rest) w (visits ++ more) w'

inductive VisitedBranch : ScopeId → List Branch → World → List Visit → World → Prop
  | none {s : ScopeId} {w : World} : VisitedBranch s [] w [] w
  | otherwise {s : ScopeId} {t : Tree} {rest : List Branch} {visits : List Visit}
      {w w' : World} :
    Visited s t w visits w' → VisitedBranch s (.branch none t :: rest) w visits w'
  | taken {s : ScopeId} {test : Expr} {t : Tree} {rest : List Branch} {v : Value}
      {visits : List Visit} {w w₁ w' : World} :
    valueOf m s test w = .ok v w₁ → v.isTruthy = true → Visited s t w₁ visits w' →
    VisitedBranch s (.branch (some test) t :: rest) w visits w'
  | passed {s : ScopeId} {test : Expr} {t : Tree} {rest : List Branch} {v : Value}
      {visits : List Visit} {w w₁ w' : World} :
    valueOf m s test w = .ok v w₁ → v.isTruthy = false → VisitedBranch s rest w₁ visits w' →
    VisitedBranch s (.branch (some test) t :: rest) w visits w'

inductive VisitedRows :
    ScopeId → List Pattern → Tree → List (List Value) → World → List Visit → World → Prop
  | nil {s : ScopeId} {aliases : List Pattern} {body : Tree} {w : World} :
    VisitedRows s aliases body [] w [] w
  | cons {s inner : ScopeId} {aliases : List Pattern} {body : Tree} {values : List Value}
      {rest : List (List Value)} {visits more : List Visit} {w w₁ w₂ w₃ w' : World} :
    childScope s w = .ok inner w₁ → bindAliases m inner aliases values w₁ = .ok () w₂ →
    Visited inner body w₂ visits w₃ → VisitedRows s aliases body rest w₃ more w' →
    VisitedRows s aliases body (values :: rest) w (visits ++ more) w'

end

/-- What an element has in its tag: the name that it is shown by, and of names that are not spelled
like names those that keys of objects stand for which it spreads. -/
structure Visit.Has (registered : Registered) (visit : Visit) (head : View.Head) : Prop where
  tag : head.tag = (componentOf? registered visit.element.tag).getD visit.element.tag
  names {name : String} : ¬isSpelled name → (name ∈ head.names ↔
    ∃ acc w key, evaluateAttributes m visit.scope ⟨[], [], []⟩ visit.element.attributes visit.world =
        .ok acc w ∧
      Spreads m visit.scope ⟨[], [], []⟩ visit.element.attributes visit.world key ∧
      acc.Shows registered visit.element.tag key name)

end

section

variable {m : Machine} {registered : Registered}
  {P : Element → ScopeId → List (String × Nat) → Prop}

/-- What a visit of an element shows is what it was evaluated to. -/
theorem visit_has (registered : Registered) {s : ScopeId} {e : Element} (he : e.isSpelled)
    {acc acc' : Evaluated} {w w₁ w₂ : World}
    (hattributes : evaluateAttributes m s ⟨[], [], []⟩ e.attributes w = .ok acc w₁)
    (hvisible : addVisibility m s acc e.visible w₁ = .ok acc' w₂) (h : Heap)
    (events : List (String × Nat)) (children : List View.Node) :
    ∃ head, (elementNode registered e.tag acc' h events children).heads =
        head :: listHeads children ∧
      Visit.Has m registered ⟨e, s, w⟩ head := by
  obtain ⟨head, hheads, htag, hnames⟩ := heads_elementNode registered e.tag acc' h events children
  have hvalues := values_addVisibility hvisible
  have hkeys {key : String} (hkey : ¬isSpelled key) : key ∈ acc'.keys ↔
      Spreads m s ⟨[], [], []⟩ e.attributes w key := by
    have hmem := mem_keys_evaluateAttributes (List.all_eq_true.1 he) hattributes hkey
    rw [Evaluated.keys, hvalues]
    exact hmem.trans ⟨fun hor ↦ hor.resolve_left List.not_mem_nil, .inr⟩
  have hshows (key name : String) :
      acc'.Shows registered e.tag key name ↔ acc.Shows registered e.tag key name := by
    rw [Evaluated.Shows, hvalues, Evaluated.Shows]
  refine ⟨head, hheads, htag, fun {name} hname ↦ (hnames hname).trans ⟨?_, ?_⟩⟩
  · rintro ⟨key, hmem, hshown⟩
    exact ⟨acc, w₁, key, hattributes, (hkeys (hshown.not_isSpelled hname)).1 hmem,
      (hshows key name).1 hshown⟩
  · rintro ⟨acc₁, w', key, hattributes', hspreads, hshown⟩
    cases hattributes.symm.trans hattributes'
    exact ⟨key, (hkeys (hshown.not_isSpelled hname)).2 hspreads, (hshows key name).2 hshown⟩

mutual

/-- Showing a tree comes to elements of the tree. -/
theorem Visited.mem {s : ScopeId} {t : Tree} {w w' : World} {visits : List Visit} :
    Visited m s t w visits w' → ∀ visit ∈ visits, visit.element ∈ t.elements
  | .text => fun _ hmem ↦ absurd hmem List.not_mem_nil
  | .interpolated _ => fun _ hmem ↦ absurd hmem List.not_mem_nil
  | .fragment hall => by
    simp only [Tree.elements]
    exact hall.mem
  | .conditional hbranch => by
    simp only [Tree.elements]
    exact hbranch.mem
  | .loop _ _ hall => by
    simp only [Tree.elements]
    exact hall.mem
  | .element _ _ hall => by
    simp only [Tree.elements]
    exact List.forall_mem_cons.2
      ⟨List.mem_cons_self, fun visit hmem ↦ List.mem_cons_of_mem _ (hall.mem visit hmem)⟩

/-- Only elements of the trees are visited. -/
theorem VisitedAll.mem {s : ScopeId} {trees : List Tree} {w w' : World} {visits : List Visit} :
    VisitedAll m s trees w visits w' → ∀ visit ∈ visits, visit.element ∈ elementsOf trees
  | .nil => fun _ hmem ↦ absurd hmem List.not_mem_nil
  | .cons hfirst hrest => fun visit hmem ↦ by
    simp only [elementsOf, List.mem_append]
    exact (List.mem_append.1 hmem).imp (hfirst.mem visit) (hrest.mem visit)

theorem VisitedBranch.mem {s : ScopeId} {branches : List Branch} {w w' : World}
    {visits : List Visit} : VisitedBranch m s branches w visits w' →
      ∀ visit ∈ visits, visit.element ∈ elementsOfBranches branches
  | .none => fun _ hmem ↦ absurd hmem List.not_mem_nil
  | .otherwise hall => fun visit hmem ↦ by
    simp only [elementsOfBranches, List.mem_append]
    exact .inl (hall.mem visit hmem)
  | .taken _ _ hall => fun visit hmem ↦ by
    simp only [elementsOfBranches, List.mem_append]
    exact .inl (hall.mem visit hmem)
  | .passed _ _ hrest => fun visit hmem ↦ by
    simp only [elementsOfBranches, List.mem_append]
    exact .inr (hrest.mem visit hmem)

theorem VisitedRows.mem {s : ScopeId} {aliases : List Pattern} {body : Tree}
    {rows : List (List Value)} {w w' : World} {visits : List Visit} :
    VisitedRows m s aliases body rows w visits w' →
      ∀ visit ∈ visits, visit.element ∈ body.elements
  | .nil => fun _ hmem ↦ absurd hmem List.not_mem_nil
  | .cons _ _ hfirst hrest => fun visit hmem ↦
    (List.mem_append.1 hmem).elim (hfirst.mem visit) (hrest.mem visit)

end

mutual

/-- What shows a tree has a node for each element that showing it comes to. -/
theorem Shows.visited {s : ScopeId} {t : Tree} {w w' : World} {nodes : List View.Node} :
    Shows m registered P s t w nodes w' → (∀ e ∈ t.elements, e.isSpelled) →
      ∃ visits, Visited m s t w visits w' ∧
        List.Forall₂ (Visit.Has m registered) visits (listHeads nodes)
  | .text, _ => ⟨[], .text, .nil⟩
  | .interpolated htext, _ => ⟨[], .interpolated htext, .nil⟩
  | .fragment hall, hspelled => by
    obtain ⟨visits, hvisited, hhas⟩ := hall.visited (by simpa only [Tree.elements] using hspelled)
    exact ⟨visits, .fragment hvisited, hhas⟩
  | .conditional hbranch, hspelled => by
    obtain ⟨visits, hvisited, hhas⟩ :=
      hbranch.visited (by simpa only [Tree.elements] using hspelled)
    exact ⟨visits, .conditional hvisited, hhas⟩
  | .loop hvalue hrows hall, hspelled => by
    obtain ⟨visits, hvisited, hhas⟩ := hall.visited (by simpa only [Tree.elements] using hspelled)
    exact ⟨visits, .loop hvalue hrows hvisited, hhas⟩
  | .element hattributes hvisible _ hall, hspelled => by
    simp only [Tree.elements, List.forall_mem_cons] at hspelled
    obtain ⟨visits, hvisited, hhas⟩ := hall.visited hspelled.2
    obtain ⟨head, hheads, hhead⟩ := visit_has registered hspelled.1 hattributes hvisible w'.heap _ _
    refine ⟨_, .element hattributes hvisible hvisited, ?_⟩
    rw [listHeads, listHeads, List.append_nil, hheads]
    exact .cons hhead hhas

/-- What is shown was visited. -/
theorem ShowsAll.visited {s : ScopeId} {trees : List Tree} {w w' : World}
    {nodes : List View.Node} :
    ShowsAll m registered P s trees w nodes w' → (∀ e ∈ elementsOf trees, e.isSpelled) →
      ∃ visits, VisitedAll m s trees w visits w' ∧
        List.Forall₂ (Visit.Has m registered) visits (listHeads nodes)
  | .nil, _ => ⟨[], .nil, .nil⟩
  | .cons hfirst hrest, hspelled => by
    simp only [elementsOf, List.forall_mem_append] at hspelled
    obtain ⟨visits, hvisited, hhas⟩ := hfirst.visited hspelled.1
    obtain ⟨more, hmore, hhasMore⟩ := hrest.visited hspelled.2
    refine ⟨visits ++ more, .cons hvisited hmore, ?_⟩
    rw [View.listHeads_append]
    exact List.rel_append hhas hhasMore

theorem ShowsBranch.visited {s : ScopeId} {branches : List Branch} {w w' : World}
    {nodes : List View.Node} :
    ShowsBranch m registered P s branches w nodes w' →
      (∀ e ∈ elementsOfBranches branches, e.isSpelled) →
      ∃ visits, VisitedBranch m s branches w visits w' ∧
        List.Forall₂ (Visit.Has m registered) visits (listHeads nodes)
  | .none, _ => ⟨[], .none, .nil⟩
  | .otherwise hall, hspelled => by
    simp only [elementsOfBranches, List.forall_mem_append] at hspelled
    obtain ⟨visits, hvisited, hhas⟩ := hall.visited hspelled.1
    exact ⟨visits, .otherwise hvisited, hhas⟩
  | .taken hvalue htruthy hall, hspelled => by
    simp only [elementsOfBranches, List.forall_mem_append] at hspelled
    obtain ⟨visits, hvisited, hhas⟩ := hall.visited hspelled.1
    exact ⟨visits, .taken hvalue htruthy hvisited, hhas⟩
  | .passed hvalue htruthy hrest, hspelled => by
    simp only [elementsOfBranches, List.forall_mem_append] at hspelled
    obtain ⟨visits, hvisited, hhas⟩ := hrest.visited hspelled.2
    exact ⟨visits, .passed hvalue htruthy hvisited, hhas⟩

theorem ShowsRows.visited {s : ScopeId} {aliases : List Pattern} {body : Tree}
    {rows : List (List Value)} {w w' : World} {nodes : List View.Node} :
    ShowsRows m registered P s aliases body rows w nodes w' → (∀ e ∈ body.elements, e.isSpelled) →
      ∃ visits, VisitedRows m s aliases body rows w visits w' ∧
        List.Forall₂ (Visit.Has m registered) visits (listHeads nodes)
  | .nil, _ => ⟨[], .nil, .nil⟩
  | .cons hscope hbind hfirst hrest, hspelled => by
    obtain ⟨visits, hvisited, hhas⟩ := hfirst.visited hspelled
    obtain ⟨more, hmore, hhasMore⟩ := hrest.visited hspelled
    refine ⟨visits ++ more, .cons hscope hbind hvisited hmore, ?_⟩
    rw [View.listHeads_append]
    exact List.rel_append hhas hhasMore

end

end

/-! ### Names in views -/

theorem toNat_lt_of_isAlpha {c : Char} (hc : c.isAlpha) : c.toNat < 128 := by
  rcases Bool.or_eq_true_iff.1 hc with hupper | hlower
  · exact Nat.lt_of_le_of_lt (of_decide_eq_true hupper).2 (by decide)
  · obtain ⟨-, hle⟩ := Bool.and_eq_true_iff.1 hlower
    exact Nat.lt_of_le_of_lt (of_decide_eq_true hle) (by decide)

theorem isAlpha_toUpper {c : Char} (hc : c.isAlpha) : c.toUpper.isAlpha := by
  have hsmall : ∀ n < 128, (Char.ofNat n).isAlpha → (Char.ofNat n).toUpper.isAlpha := by
    decide +kernel
  have h := hsmall c.toNat (toNat_lt_of_isAlpha hc)
  rw [Char.ofNat_toNat] at h
  exact h hc

/-- The name of a component is that of a tag. -/
theorem isTagName_pascalCase {tag : String} (htag : isTagName tag) : isTagName (pascalCase tag) := by
  obtain ⟨hfirst, hspelled⟩ := Bool.and_eq_true_iff.1 htag
  have hcamel := isSpelled_camelCase hspelled
  unfold pascalCase
  cases hcs : tag.toList with
  | nil =>
    rw [hcs] at hfirst
    cases hfirst
  | cons c cs =>
    rw [hcs] at hfirst
    have halpha : c.isAlpha = true := hfirst
    have hdash : (c == '-') = false := beq_false_of_ne fun heq ↦ by
      rw [heq] at halpha
      exact absurd halpha (by decide)
    have hcamelList : (camelCase tag).toList = c :: camelCase.from_ false cs := by
      simp [camelCase, hcs, camelCase.from_, hdash]
    have hupper : Text.upperLetter c = [c.toUpper] := if_pos (toNat_lt_of_isAlpha halpha)
    unfold View.isSpelled at hcamel
    rw [hcamelList, List.all_cons, Bool.and_eq_true] at hcamel
    simp only [hcamelList, hupper]
    unfold isTagName View.isSpelled
    rw [String.toList_ofList]
    refine Bool.and_eq_true_iff.2 ⟨isAlpha_toUpper halpha, Bool.and_eq_true_iff.2 ⟨?_, hcamel.2⟩⟩
    exact isAttributeChar_toUpper hcamel.1

/-- An element is shown by a name that may stand in a tag. -/
theorem isTagName_shown {registered : Registered} {tag : String} (htag : isTagName tag) :
    isTagName ((componentOf? registered tag).getD tag) := by
  unfold componentOf?
  dsimp only
  split
  · rename_i name hfind
    have hname := List.find?_some hfind
    simp only [Bool.or_eq_true, beq_iff_eq] at hname
    rcases hname with rfl | rfl
    · exact htag
    · exact isTagName_pascalCase htag
  · split
    · exact htag
    · exact htag

/-- Whether the keys of objects that an element spreads stand for names only that are spelled like
names. -/
def Visit.IsSpelled (m : Machine) (registered : Registered) (visit : Visit) : Prop :=
  ∀ acc w key name,
    evaluateAttributes m visit.scope ⟨[], [], []⟩ visit.element.attributes visit.world =
      .ok acc w →
    Spreads m visit.scope ⟨[], [], []⟩ visit.element.attributes visit.world key →
    acc.Shows registered visit.element.tag key name → isSpelled name

/-- The names of what is shown are spelled exactly if those of the visit are. -/
theorem Visit.Has.forall_isSpelled_iff {m : Machine} {registered : Registered} {visit : Visit}
    {head : View.Head} (h : visit.Has m registered head) :
    (∀ name ∈ head.names, isSpelled name) ↔ visit.IsSpelled m registered := by
  constructor
  · intro hall acc w key name hacc hspreads hshows
    by_contra hname
    exact hname (hall name ((h.names hname).2 ⟨acc, w, key, hacc, hspreads, hshows⟩))
  · intro hvisit name hmem
    by_contra hname
    obtain ⟨acc, w, key, hacc, hspreads, hshows⟩ := (h.names hname).1 hmem
    exact hname (hvisit acc w key name hacc hspreads hshows)

/-- What is related one by one holds of all on one side if it does on the other. -/
theorem forall₂_forall_iff {α β : Type} {R : α → β → Prop} {p : α → Prop} {q : β → Prop}
    {l : List α} {l' : List β} (h : List.Forall₂ R l l') (hR : ∀ {a b}, R a b → (p a ↔ q b)) :
    (∀ a ∈ l, p a) ↔ ∀ b ∈ l', q b := by
  induction h with
  | nil => simp
  | cons hab _ ih => rw [List.forall_mem_cons, List.forall_mem_cons, hR hab, ih]

/-- **Names in views.** Of some markup whose names are spelled without white space and without any of
`< > " ' = /`, a rendering comes to elements, each of which has a node. A name in the view that is not
spelled so is a key of an object that its element spreads, with capitals in the place of dashes if the
element is a component; and all names are spelled so exactly if those are that such keys stand for. The
HTML of the view has then the tags of the view, if no name is empty. -/
theorem unspelled_names_are_spread {markup : String} {t : Template} (ht : ofMarkup markup = .ok t)
    (hspelled : ∀ s ∈ startTagsIn markup, s.isSpelled) {registered : Registered} {state : Value}
    {w w' : World} {output : Output} (hrun : t.run registered state w = .ok output w') :
    ∃ s w₁ visits, stateScope state w = .ok s w₁ ∧
      VisitedAll machine s t.roots w₁ visits w' ∧
      List.Forall₂ (Visit.Has machine registered) visits (listHeads output.nodes) ∧
      ((∀ head ∈ listHeads output.nodes, ∀ name ∈ head.names, isSpelled name) ↔
        ∀ visit ∈ visits, visit.IsSpelled machine registered) ∧
      ((∀ s ∈ startTagsIn markup, isTagName s.tag) →
        (∀ head ∈ listHeads output.nodes, ∀ name ∈ head.names, name ≠ "" ∧ isSpelled name) →
        View.tagsIn (View.listHtml output.nodes) = View.tags (View.listTokens output.nodes)) := by
  obtain ⟨s, w₁, hscope, hshows⟩ := (isView_of_runOn hrun).shows
  obtain ⟨visits, hvisited, hhas⟩ := hshows.visited (elements_spelled ht hspelled)
  refine ⟨s, w₁, visits, hscope, hvisited, hhas,
    (forall₂_forall_iff hhas fun h ↦ h.forall_isSpelled_iff.symm).symm, fun htags hnames ↦ ?_⟩
  refine View.tagsIn_listHtml fun head hhead ↦ ?_
  have htag : ∀ visit ∈ visits, isTagName visit.element.tag := by
    intro visit hvisit
    obtain ⟨start, hstart, heq⟩ := exists_startTag ht (hvisited.mem visit hvisit)
    exact heq ▸ htags start hstart
  have hall : ∀ head ∈ listHeads output.nodes, isTagName head.tag :=
    (forall₂_forall_iff hhas fun h ↦ by rw [h.tag]).1 fun visit hvisit ↦
      isTagName_shown (htag visit hvisit)
  refine Bool.and_eq_true_iff.2 ⟨hall head hhead, List.all_eq_true.2 fun name hmem ↦ ?_⟩
  have hname := hnames head hhead name hmem
  simpa using hname

/-- An element that spreads an object of the state. -/
def spreadMarkup : String := "<p v-bind=\"attrs\"></p>"

def spreadTemplate : Template := (ofMarkup spreadMarkup).toOption.getD default

theorem ofMarkup_spreadMarkup : ofMarkup spreadMarkup = .ok spreadTemplate := by
  have hok : (ofMarkup spreadMarkup).isOk = true := by decide +kernel
  unfold spreadTemplate
  cases ht : ofMarkup spreadMarkup with
  | error fault =>
    rw [ht] at hok
    cases hok
  | ok t => rfl

/-- A state with an object that has one key. -/
def spreadState (key : String) : Value × World :=
  let (attrs, h) := Heap.empty.newObject ⟨.plain, [(key, .string "1")], false⟩
  let (state, h) := h.newObject ⟨.state, [("attrs", .object attrs)], false⟩
  (.object state, ⟨h, Run.start .standard .undefined⟩)

def spreadNodes (key : String) : List View.Node :=
  match spreadTemplate.run [] (spreadState key).1 (spreadState key).2 with
  | .ok output _ => output.nodes
  | .error _ _ => []

theorem spreadState_renders (key : String) (hnodes : (spreadNodes key).length = 1) :
    ∃ output w', spreadTemplate.run [] (spreadState key).1 (spreadState key).2 = .ok output w' ∧
      output.nodes = spreadNodes key := by
  unfold spreadNodes at *
  cases hrun : spreadTemplate.run [] (spreadState key).1 (spreadState key).2 with
  | error e w' =>
    rw [hrun] at hnodes
    cases hnodes
  | ok output w' => exact ⟨output, w', rfl, rfl⟩

/-- A key that may stand in a tag leaves the tags of the view as they are. -/
theorem unspelled_names_are_spread_title :
    ofMarkup spreadMarkup = .ok spreadTemplate ∧ (∀ s ∈ startTagsIn spreadMarkup, s.isSpelled) ∧
    ∃ output w', spreadTemplate.run [] (spreadState "title").1 (spreadState "title").2 =
        .ok output w' ∧
      View.tagsIn (View.listHtml output.nodes) = View.tags (View.listTokens output.nodes) ∧
      View.tags (View.listTokens output.nodes) =
        [.opening "p" [("title", "")], .closing "p"] := by
  have hspelled : ∀ s ∈ startTagsIn spreadMarkup, s.isSpelled :=
    List.all_eq_true.1 (by decide +kernel)
  have htags : ∀ s ∈ startTagsIn spreadMarkup, isTagName s.tag := by
    have hall : (startTagsIn spreadMarkup).all (fun s ↦ isTagName s.tag) := by decide +kernel
    exact List.all_eq_true.1 hall
  obtain ⟨output, w', hrun, hnodes⟩ := spreadState_renders "title" (by decide +kernel)
  obtain ⟨s, w₁, visits, -, -, -, -, hscanned⟩ :=
    unspelled_names_are_spread ofMarkup_spreadMarkup hspelled hrun
  refine ⟨ofMarkup_spreadMarkup, hspelled, output, w', hrun, hscanned htags ?_, ?_⟩
  · have hall : (listHeads (spreadNodes "title")).all fun head ↦
        head.names.all fun name ↦ name != "" && isSpelled name := by decide +kernel
    intro head hhead name hname
    rw [hnodes] at hhead
    simpa using List.all_eq_true.1 (List.all_eq_true.1 hall head hhead) name hname
  · rw [hnodes]
    decide +kernel

/-- A key with brackets ends the tag that it stands in and begins another one. -/
theorem spreadKey_opens_tag :
    ofMarkup spreadMarkup = .ok spreadTemplate ∧ (∀ s ∈ startTagsIn spreadMarkup, s.isSpelled) ∧
    ∃ output w', spreadTemplate.run [] (spreadState "x><b y").1 (spreadState "x><b y").2 =
        .ok output w' ∧
      View.listHtml output.nodes = "<p x><b y=\"1\"></p>" ∧
      ¬(∀ head ∈ listHeads output.nodes, ∀ name ∈ head.names, isSpelled name) ∧
      View.tagsIn (View.listHtml output.nodes) =
        [.opening "p" [("x", "")], .opening "b" [("y", "")], .closing "p"] ∧
      View.tags (View.listTokens output.nodes) =
        [.opening "p" [("x><b y", "")], .closing "p"] := by
  have hspelled : ∀ s ∈ startTagsIn spreadMarkup, s.isSpelled :=
    List.all_eq_true.1 (by decide +kernel)
  obtain ⟨output, w', hrun, hnodes⟩ := spreadState_renders "x><b y" (by decide +kernel)
  refine ⟨ofMarkup_spreadMarkup, hspelled, output, w', hrun, ?_⟩
  rw [hnodes]
  refine ⟨by decide +kernel, fun hall ↦ ?_, by decide +kernel, by decide +kernel⟩
  have hnot : ((listHeads (spreadNodes "x><b y")).all fun head ↦
      head.names.all fun name ↦ isSpelled name) = false := by decide +kernel
  refine Bool.eq_false_iff.1 hnot (List.all_eq_true.2 fun head hhead ↦ ?_)
  exact List.all_eq_true.2 fun name hname ↦ hall head hhead name hname

end Nodecraft.Template
