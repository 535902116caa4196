import Nodecraft.Proofs.Markup.Lines
import Nodecraft.Proofs.Markup.Runs
import Nodecraft.Proofs.Template.Writing

/-!
# Showing what is written

The tags of some markup are read one after another, with the texts between them. Before and after each,
the document that is being built is that of the elements written so far (`Tracks`), so that at the end
the page has the elements that are written (`depicts_pageOf`), and with it what is shown
(`run_written`), if all stands where it may. Elsewhere the page is another one, however well the tags
nest (`division_ends_paragraph`).
-/

set_option autoImplicit false

namespace Nodecraft.Template

open Markup (Nest voidNames emptyNames ClosesNoImage labelsOf innermostOf)
open Markup.Build (Follows foreignAttribute)
open Markup.Lexer (lowered tagEnd)
open Markup.Lexer.normalized (lines)

/-! ### Names -/

/-- The key of a tag is its name in small letters. -/
theorem Tag.key_eq {t : Tag} (ht : t.IsWellFormed) : t.key = lowered t.name := by
  have hname := (Tag.isTagName ht).plain
  unfold key Text.asciiLower shownName lowered
  rw [← String.toList_inj, String.toList_map, String.toList_ofList, String.toList_ofList]
  refine List.map_congr_left fun c hc ↦ ?_
  unfold Markup.Lexer.visible
  rw [if_neg (by simpa using (hname c hc).2)]

/-- Without capitals the key is the name itself. -/
theorem lowered_eq {t : Tag} (ht : t.IsWellFormed) (hupper : t.name.any Char.isUpper = false) :
    lowered t.name = t.shownName := by
  rw [← Tag.key_eq ht]
  unfold Tag.key Text.asciiLower
  rw [← String.toList_inj, String.toList_map]
  unfold Tag.shownName
  rw [String.toList_ofList]
  refine (List.map_congr_left fun c hc ↦ ?_).trans (List.map_id _)
  have hc := List.any_eq_false.1 hupper c hc
  unfold Char.toLower
  unfold Char.isUpper at hc
  split
  · exact absurd (by simpa using ‹_›) hc
  · rfl

/-! ### Tags as they are read -/

/-- The attributes of a tag, and their names, as HTML reads them. -/
theorem Tag.IsStatic.exists_attributes {t : Tag} (h : t.IsStatic) (ht : t.IsWellFormed) :
    ∃ bare read, Markup.Lexer.Attributes bare t.attributes read ∧
      ∀ name ∈ read.map Prod.fst, name ∈ t.attributeNames := by
  obtain ⟨hspaces, -⟩ := List.forall_mem_append.1 h.spaces
  obtain ⟨bare, read, hattributes, -⟩ := ht.attributes.exists_read hspaces
  have hread : Markup.Lexer.attributes? (t.attributes.length + 1) []
      (t.attributes ++ tagEnd [] false []) = some (read.foldl Markup.Lexer.addAttribute [], false, []) :=
    hattributes.attributes?_eq (fun _ h ↦ absurd h List.not_mem_nil)
      (fun _ h ↦ absurd h Bool.false_ne_true) [] (Nat.lt_succ_self _)
  refine ⟨bare, read, hattributes, fun name hname ↦ ?_⟩
  unfold attributeNames
  rw [show t.attributes ++ ['>'] = t.attributes ++ tagEnd [] false [] from rfl, hread]
  exact Markup.Lexer.key_mem_foldl (.inr hname)

/-- Gaps of tags are gaps of HTML. -/
theorem Tag.IsStatic.isGap {t : Tag} (h : t.IsStatic) (ht : t.IsWellFormed) :
    Markup.Lexer.IsGap t.gap :=
  fun c hc ↦ h.spaces c (List.mem_append_right _ hc) (ht.gap c hc)

/-- Without a note an element goes by its own name. -/
theorem spelled_of_none {attributes : List (String × String)} (tag : String)
    (h : ∀ a ∈ attributes, a.1 ≠ spellingAttribute) : spelled tag attributes = tag := by
  induction attributes generalizing tag with
  | nil => rfl
  | cons a rest ih =>
    obtain ⟨ha, hrest⟩ := List.forall_mem_cons.1 h
    rw [spelled, respelled, if_neg ha, ih _ hrest]

section

variable {t : Tag} (ht : t.IsWellFormed) (hstatic : t.IsStatic)

include ht hstatic

/-- A closing tag, as it is read. -/
theorem exists_closing (hclosing : t.closing = true) (rest : List Char) :
    ∃ attributes gap selfClosing read, lines (t.text ++ rest) =
        '<' :: '/' :: (t.name ++ (attributes ++ tagEnd gap selfClosing (lines rest))) ∧
      Markup.Lexer.IsTag t.name attributes gap selfClosing read := by
  obtain ⟨bare, read, hattributes, -⟩ := hstatic.exists_attributes ht
  have hname := Tag.isTagName ht
  obtain ⟨read', hlines, -⟩ := hattributes.lines
  obtain ⟨attributes, gap, selfClosing, read'', hsame, htag, -, -⟩ :=
    hlines.exists_isTag (hstatic.isGap ht).lines hname t.selfClosing
  refine ⟨attributes, gap, selfClosing, read'', ?_, htag⟩
  rw [Tag.text_append, hclosing]
  change lines ('<' :: '/' :: (t.name ++ (t.attributes ++ tagEnd t.gap t.selfClosing rest))) = _
  rw [Markup.Lexer.lines_cons (by decide), Markup.Lexer.lines_cons (by decide),
    Markup.Lexer.lines_tag hname hattributes, hsame]

omit hstatic in
/-- What is noted stays as it is when lines are read. -/
theorem lines_noted {bare : Bool} {read : List (String × String)}
    (hattributes : Markup.Lexer.Attributes bare t.attributes read) (hclosing : t.closing = false)
    (hupper : t.name.any Char.isUpper = true) (rest : List Char) :
    lines (t.marked.text ++ rest) = '<' :: (t.name ++ (' ' :: (spellingAttribute.toList ++
      '=' :: '"' :: (t.name ++ '"' :: lines t.attributes)) ++
        tagEnd [] t.selfClosing (lines rest))) := by
  have hwritten := Tag.attributes_noted ht hattributes
  have hreturn : ∀ c ∈ t.name, c ≠ '\r' := fun c hc ↦ Tag.name_ne ht hc (by decide +kernel)
  have hnoted : lines ([' '] ++ (spellingAttribute.toList ++
      ('=' :: '"' :: (t.name ++ '"' :: t.attributes)))) = [' '] ++ (spellingAttribute.toList ++
        ('=' :: '"' :: (t.name ++ '"' :: lines t.attributes))) := by
    rw [Markup.Lexer.lines_name isName_spelling, Markup.Lexer.lines_cons (c := '=') (by decide),
      Markup.Lexer.lines_cons (c := '"') (by decide),
      Markup.Lexer.lines_char (c := '"') (by decide) (by decide),
      Markup.Lexer.lines_eq_self hreturn]
    rfl
  rw [Tag.marked_of_noted hclosing hupper, Tag.text_append, hclosing]
  change lines ('<' :: (t.name ++ (' ' :: (spellingAttribute.toList ++
    '=' :: '"' :: (t.name ++ '"' :: t.attributes)) ++ tagEnd [] t.selfClosing rest))) = _
  rw [Markup.Lexer.lines_cons (by decide), Markup.Lexer.lines_tag (Tag.isTagName ht) hwritten]
  change '<' :: (t.name ++ (lines ([' '] ++ (spellingAttribute.toList ++
    ('=' :: '"' :: (t.name ++ '"' :: t.attributes)))) ++ tagEnd [] _ (lines rest))) = _
  rw [hnoted]
  rfl

/-- An opening tag, as it is read once its name has been noted. -/
theorem exists_opening (hclosing : t.closing = false) :
    ∃ attributes gap selfClosing read, (∀ rest, lines (t.marked.text ++ rest) =
        '<' :: (t.name ++ (attributes ++ tagEnd gap selfClosing (lines rest)))) ∧
      Markup.Lexer.IsTag t.name attributes gap selfClosing read ∧
      (selfClosing = true → t.selfClosing = true) ∧
      (∀ a ∈ read.foldl Markup.Lexer.addAttribute [], isDirective a.1 = false) ∧
      ∀ name, name = t.key ∨ t.name.any Char.isUpper = true →
        spelled name (read.foldl Markup.Lexer.addAttribute []) = t.shownName := by
  obtain ⟨bare, read, hattributes, hnames⟩ := hstatic.exists_attributes ht
  have hname := Tag.isTagName ht
  obtain ⟨read', hlines, hkeys'⟩ := hattributes.lines
  -- the names are those that are written, whatever becomes of the values
  have hplain {read'' : List (String × String)} (hkeys : read''.map Prod.fst = read'.map Prod.fst) :
      ∀ a ∈ read'', isDirective a.1 = false ∧ a.1 ≠ spellingAttribute := by
    intro a ha
    have hmem : a.1 ∈ read''.map Prod.fst := List.mem_map_of_mem ha
    rw [hkeys, hkeys'] at hmem
    exact hstatic.names hclosing _ (hnames _ hmem)
  cases hupper : t.name.any Char.isUpper with
  | false =>
    have hmarked : t.marked = t := by
      unfold Tag.marked
      rw [hclosing, hupper]
      rfl
    obtain ⟨attributes, gap, selfClosing, read'', hsame, htag, hkeys, hself⟩ :=
      hlines.exists_isTag (hstatic.isGap ht).lines hname t.selfClosing
    have hnone : ∀ a ∈ read''.foldl Markup.Lexer.addAttribute [],
        isDirective a.1 = false ∧ a.1 ≠ spellingAttribute := fun a ha ↦
      hplain hkeys a ((Markup.Lexer.mem_foldl_addAttribute ha).resolve_left List.not_mem_nil)
    refine ⟨attributes, gap, selfClosing, read'', fun rest ↦ ?_, htag, hself,
      fun a ha ↦ (hnone a ha).1, fun name hname ↦ ?_⟩
    · rw [hmarked, Tag.text_append, hclosing]
      change lines ('<' :: (t.name ++ (t.attributes ++ tagEnd t.gap t.selfClosing rest))) = _
      rw [Markup.Lexer.lines_cons (by decide), Markup.Lexer.lines_tag hname hattributes, hsame]
    · rw [spelled_of_none _ fun a ha ↦ (hnone a ha).2,
        hname.resolve_right Bool.false_ne_true, Tag.key_eq ht, lowered_eq ht hupper]
  | true =>
    have hgap : Markup.Lexer.IsGap [] := fun _ h ↦ absurd h List.not_mem_nil
    obtain ⟨attributes, gap, selfClosing, read'', hsame, htag, hkeys, hself⟩ :=
      hlines.exists_isTag hgap hname t.selfClosing
    obtain ⟨bare', htagAttributes, hslash⟩ := htag.attributes
    have hnoted := Tag.attributes_noted ht htagAttributes
    have hfold := foldl_addAttribute_cons spellingAttribute (String.ofList t.name) read''
    refine ⟨_, gap, selfClosing, _, fun rest ↦ ?_, ⟨hname, ⟨bare', hnoted, hslash⟩, htag.gap⟩, hself,
      ?_, fun name _ ↦ ?_⟩
    · rw [lines_noted ht hattributes hclosing hupper]
      simp only [List.append_assoc, List.cons_append, hsame]
    · rw [hfold]
      refine List.forall_mem_cons.2 ⟨(by decide : isDirective spellingAttribute = false), fun a ha ↦ ?_⟩
      have hmem := (List.mem_filter.1 ha).1
      exact (hplain hkeys a
        ((Markup.Lexer.mem_foldl_addAttribute hmem).resolve_left List.not_mem_nil)).1
    · rw [hfold, spelled, respelled, if_pos rfl]
      refine spelled_of_none _ fun a ha ↦ ?_
      simpa using (List.mem_filter.1 ha).2

omit ht hstatic in
/-- What a tag is read as is told by the tag alone. -/
theorem Tag.read_eq {attributes gap : List Char} {selfClosing : Bool} {read : List (String × String)}
    (hlines : ∀ rest, lines (t.marked.text ++ rest) =
      '<' :: (t.name ++ (attributes ++ tagEnd gap selfClosing (lines rest))))
    (htag : Markup.Lexer.IsTag t.name attributes gap selfClosing read) :
    t.read = ⟨lowered t.name, read.foldl Markup.Lexer.addAttribute [], selfClosing⟩ := by
  have halone := hlines []
  rw [List.append_nil] at halone
  unfold Tag.read
  rw [halone, List.tail_cons, htag.tag?_eq]
  rfl

end

/-! ### Elements that are shown as they are written -/

/-- Content without directives, with these elements. -/
structure Depicts (nodes : List Markup.Node) (outlines : List Outline) : Prop where
  static : areStatic nodes = true
  elements : outlineOf nodes = outlines

theorem depicts_nil : Depicts [] [] := ⟨rfl, rfl⟩

/-- An element that is shown by a name of its own. -/
structure IsShown (e : Markup.Element) (shown : String) : Prop where
  static : ∀ a ∈ e.attributes, isDirective a.1 = false
  spelled : spelled e.name e.attributes = shown
  ne : shown ≠ "template"

/-- The names that foreign attributes are given. -/
def foreignAttributes : List String :=
  Markup.Build.svgAttributeNames ++ "definitionURL" :: Markup.Build.linkedAttributes.map Prod.snd

/-- Foreign attributes may have other names, all of them known. -/
theorem foreignAttribute_cases (space : Markup.Space) (name : String) :
    foreignAttribute space name = name ∨ foreignAttribute space name ∈ foreignAttributes := by
  have hrespelled (names : List String) (hnames : names ⊆ foreignAttributes) :
      Markup.Build.respelled names name = name ∨
        Markup.Build.respelled names name ∈ foreignAttributes := by
    unfold Markup.Build.respelled
    cases hfound : names.find? fun n : String ↦ n.map Char.toLower == name with
    | none => exact .inl rfl
    | some n => exact .inr (hnames (List.mem_of_find?_eq_some hfound))
  have hlinked (own : String) : (Markup.Build.linkedAttributes.lookup own).getD own = own ∨
      (Markup.Build.linkedAttributes.lookup own).getD own ∈ foreignAttributes := by
    cases hfound : Markup.Build.linkedAttributes.lookup own with
    | none => exact .inl rfl
    | some linked =>
      obtain ⟨before, after, hsplit, -⟩ := List.lookup_eq_some_iff.1 hfound
      refine .inr (List.mem_append_right _ (List.mem_cons_of_mem _ ?_))
      rw [hsplit, List.map_append]
      exact List.mem_append_right _ List.mem_cons_self
  have hown : ∀ own, own = name ∨ own ∈ foreignAttributes →
      (Markup.Build.linkedAttributes.lookup own).getD own = name ∨
        (Markup.Build.linkedAttributes.lookup own).getD own ∈ foreignAttributes := by
    rintro own (rfl | hmem)
    · exact hlinked own
    · refine (hlinked own).elim (fun heq ↦ .inr ?_) .inr
      rwa [heq]
  cases space with
  | html => exact hown _ (.inl rfl)
  | svg => exact hown _ (hrespelled _ (List.subset_append_left _ _))
  | mathml => exact hown _ (hrespelled _ (by decide))

/-- None of them is a directive. -/
theorem isDirective_foreignAttribute {name : String} (h : isDirective name = false)
    (space : Markup.Space) : isDirective (foreignAttribute space name) = false := by
  have hlisted : ∀ n ∈ foreignAttributes, isDirective n = false := by decide +kernel
  rcases foreignAttribute_cases space name with heq | hmem
  · rwa [heq]
  · exact hlisted _ hmem

/-- Nor is any the note of a name. -/
theorem foreignAttribute_eq_spelling (space : Markup.Space) (name : String) :
    foreignAttribute space name = spellingAttribute ↔ name = spellingAttribute := by
  have hlisted : spellingAttribute ∉ foreignAttributes := by decide +kernel
  constructor
  · intro heq
    rcases foreignAttribute_cases space name with hsame | hmem
    · exact hsame.symm.trans heq
    · exact absurd (heq ▸ hmem) hlisted
  · rintro rfl
    cases space
    all_goals decide +kernel

/-- So the note of a name is found in foreign elements too. -/
theorem spelled_map {f : String → String} (hf : ∀ name, f name = spellingAttribute ↔ name = spellingAttribute)
    (attributes : List (String × String)) (tag : String) :
    spelled tag (attributes.map fun a ↦ (f a.1, a.2)) = spelled tag attributes := by
  induction attributes generalizing tag with
  | nil => rfl
  | cons a rest ih =>
    rw [List.map_cons, spelled, spelled, ih]
    unfold respelled
    simp only [hf]

/-- Whatever its vocabulary, the element of a tag is shown as the tag asks for. -/
theorem IsShown.elementOf {tag : Markup.Tag} {space : Markup.Space} {shown : String}
    (hplain : ∀ a ∈ tag.attributes, isDirective a.1 = false)
    (hspelled : Template.spelled (tag.elementOf space).inPlace.name tag.attributes = shown)
    (hne : shown ≠ "template") : IsShown (tag.elementOf space).inPlace shown := by
  by_cases hspace : space = .html
  · subst hspace
    have hattributes : (tag.elementOf .html).inPlace.attributes = tag.attributes :=
      Markup.Element.attributes_inPlace _
    refine ⟨?_, ?_, hne⟩
    · rwa [hattributes]
    · rwa [hattributes]
  · have hattributes : (tag.elementOf space).inPlace.attributes =
        tag.attributes.map fun a ↦ (foreignAttribute space a.1, a.2) := by
      rw [Markup.Element.attributes_inPlace]
      unfold Markup.Tag.elementOf Markup.Tag.respelled
      rw [if_neg hspace]
      split <;> rfl
    refine ⟨?_, ?_, hne⟩
    · rw [hattributes]
      intro a ha
      obtain ⟨b, hb, rfl⟩ := List.mem_map.1 ha
      exact isDirective_foreignAttribute (hplain b hb) space
    · rw [hattributes, spelled_map (foreignAttribute_eq_spelling space), hspelled]

section

variable {nodes children : List Markup.Node} {outlines inner : List Outline} {e : Markup.Element}
  {shown : String}

/-- Static nodes side by side. -/
theorem areStatic_append (nodes more : List Markup.Node) :
    areStatic (nodes ++ more) = (areStatic nodes && areStatic more) := by
  induction nodes with
  | nil => rfl
  | cons n rest ih => simp only [List.cons_append, areStatic, ih, Bool.and_assoc]

/-- Outlines side by side. -/
theorem outlineOf_append (nodes more : List Markup.Node) :
    outlineOf (nodes ++ more) = outlineOf nodes ++ outlineOf more := by
  induction nodes with
  | nil => rfl
  | cons n rest ih => simp only [List.cons_append, outlineOf, ih, List.append_assoc]

/-- A finished element more. -/
theorem Depicts.append (h : Depicts nodes outlines) (hshown : IsShown e shown)
    (hinner : Depicts children inner) :
    Depicts (nodes ++ [.element e.name e.attributes children]) (outlines ++ [.element shown inner]) := by
  have hall : e.attributes.all (fun a ↦ !isDirective a.1) = true :=
    List.all_eq_true.2 fun a ha ↦ by rw [hshown.static a ha]; rfl
  refine ⟨?_, ?_⟩
  · rw [areStatic_append, h.static]
    simp only [areStatic, isStatic, hall, hinner.static, Bool.and_true]
  · rw [outlineOf_append, h.elements]
    simp only [outlineOf, outline, hshown.spelled, if_neg hshown.ne, hinner.elements, List.append_nil]

end

/-! ### Nests as they are written -/

/-- What has been written is in a nest. -/
inductive Matches : Writing → Nest → Prop
  | page {nodes : List Markup.Node} {outlines : List Outline} : Depicts nodes outlines →
    Matches ⟨outlines, []⟩ ⟨nodes, []⟩
  | within {nodes before : List Markup.Node} {inner outlines : List Outline} {e : Markup.Element}
      {shown : String} {around : List (String × List Outline)}
      {nest : List (Markup.Element × List Markup.Node)} : Depicts nodes inner → IsShown e shown →
    Matches ⟨outlines, around⟩ ⟨before, nest⟩ →
    Matches ⟨inner, (shown, outlines) :: around⟩ ⟨nodes, (e, before) :: nest⟩

/-- One more element in the innermost open one. -/
theorem Matches.append {w : Writing} {n : Nest} (h : Matches w n) {e : Markup.Element} {shown : String}
    (hshown : IsShown e shown) {children : List Markup.Node} {inner : List Outline}
    (hinner : Depicts children inner) :
    Matches ⟨w.inner ++ [.element shown inner], w.around⟩
      (n.withNode (.element e.name e.attributes children)) := by
  cases h with
  | page hnodes => exact .page (hnodes.append hshown hinner)
  | within hnodes hname hrest => exact .within (hnodes.append hshown hinner) hname hrest

/-! ### Reading what is written -/

section

variable {s : Markup.Build.State} {kind : Markup.TextMode} {w : Writing} {n : Nest} {t : Tag}

/-- An opening tag opens an element, or puts one in place that holds nothing. -/
theorem reads_opener (h : Follows s .markup n) (hmatches : Matches w n)
    (ht : t.IsWellFormed) (hstatic : t.IsStatic) (hclosing : t.closing = false)
    (hstand : t.read.StandsIn n.elements)
    (hname : (n.written t.read).inPlace.name = t.key ∨ t.name.any Char.isUpper = true)
    (rest : List Char) : ∃ s₁ kind n₁,
      Markup.Build.Reads .markup (lines (t.marked.text ++ rest)) s kind (lines rest) s₁ ∧
      Follows s₁ kind n₁ ∧
      ((n.Puts t.read ∧ kind = .markup ∧ n₁.elements = n.elements ∧
          Matches ⟨w.inner ++ [.element t.shownName []], w.around⟩ n₁) ∨
        (¬n.Puts t.read ∧ n₁.elements = n.written t.read :: n.elements ∧
          Matches ⟨[], (t.shownName, w.inner) :: w.around⟩ n₁)) := by
  obtain ⟨attributes, gap, selfClosing, read, htext, htag, -, hplain, hspelled⟩ :=
    exists_opening ht hstatic hclosing
  have hread := Tag.read_eq htext htag
  have hkey : t.read.name = t.key := by
    rw [hread, Tag.key_eq ht]
  have hshown : IsShown (n.written t.read).inPlace t.shownName := by
    refine .elementOf (by rw [hread]; exact hplain) ?_ fun heq ↦ hstand.notPage ?_
    · rw [hread] at hname ⊢
      exact hspelled _ hname
    · have hlower : t.key = Text.asciiLower "template" := congrArg Text.asciiLower heq
      rw [hkey, hlower]
      decide +kernel
  have hnotText := hstand.notInText
  rw [hread] at hstand
  obtain ⟨s₁, kind, hreads, hfollows⟩ := h.reads_opening (lines rest) htag hstand
  rw [← htext, ← hread] at *
  by_cases hputs : n.Puts t.read
  · rw [Markup.Build.Nest.opening_of_puts hputs] at hfollows
    exact ⟨s₁, kind, _, hreads, hfollows, .inl ⟨hputs,
      hfollows.markup_of_head fun outer houter ↦ (hnotText outer houter).1, rfl,
      hmatches.append hshown depicts_nil⟩⟩
  · rw [Markup.Build.Nest.opening_of_not_puts hputs] at hfollows
    rw [Markup.Element.inPlace, if_neg (not_or.1 hputs).2] at hshown
    exact ⟨s₁, kind, _, hreads, hfollows, .inr ⟨hputs, rfl, .within depicts_nil hshown hmatches⟩⟩

/-- A closing tag closes the innermost element. -/
theorem reads_closer {inner before : List Outline} {around : List (String × List Outline)}
    {shown : String} {e : Markup.Element} {elements : List Markup.Element} (h : Follows s kind n)
    (hmatches : Matches ⟨inner, (shown, before) :: around⟩ n) (hn : n.elements = e :: elements)
    (hkey : e.closedBy = t.key)
    (ht : t.IsWellFormed) (hstatic : t.IsStatic) (hclosing : t.closing = true) (rest : List Char) :
    ∃ s₁ n₁, Markup.Build.Reads kind (lines (t.text ++ rest)) s .markup (lines rest) s₁ ∧
      Follows s₁ .markup n₁ ∧ n₁.elements = elements ∧
      Matches ⟨before ++ [.element shown inner], around⟩ n₁ := by
  obtain ⟨attributes, gap, selfClosing, read, htext, htag⟩ := exists_closing ht hstatic hclosing rest
  cases hmatches with
  | within hnodes hshown hrest =>
    obtain ⟨rfl, rfl⟩ := List.cons.inj hn
    obtain ⟨s₁, hreads, hfollows⟩ :=
      h.reads_closing (lines rest) htag ((Tag.key_eq ht).symm.trans hkey.symm)
    rw [← htext] at hreads
    exact ⟨s₁, _, hreads, hfollows, rfl, hrest.append hshown hnodes⟩

/-- The closing tag of an element that holds nothing does nothing. -/
theorem reads_stray (h : Follows s .markup n) (ht : t.IsWellFormed) (hstatic : t.IsStatic)
    (hclosing : t.closing = true) (hempty : t.key ∈ emptyNames) (hbr : t.key ≠ "br")
    (hgroup : n.names.head? = some "colgroup" → t.key = "col")
    (himage : ClosesNoImage n.elements t.key) (rest : List Char) :
    ∃ s₁, Markup.Build.Reads .markup (lines (t.text ++ rest)) s .markup (lines rest) s₁ ∧
      Follows s₁ .markup n := by
  obtain ⟨attributes, gap, selfClosing, read, htext, htag⟩ := exists_closing ht hstatic hclosing rest
  rw [Tag.key_eq ht] at hempty hbr hgroup himage
  obtain ⟨s₁, hreads, hfollows⟩ := h.reads_stray (lines rest) htag hempty hbr hgroup himage
  rw [← htext] at hreads
  exact ⟨s₁, hreads, hfollows⟩

end

/-! ### Documents that keep up -/

/-- What is built of a text keeps up with what has been written in it. Of some elements that hold nothing
this is not known where tags are checked. Between their tags, the document is already behind them. -/
inductive Tracks (s : Markup.Build.State) : Markup.TextMode → Writing → List Markup.Element → Prop
  | nest {kind : Markup.TextMode} {w : Writing} {around : List Markup.Element} {n : Nest} :
    Follows s kind n → Matches w n → n.elements = around → Tracks s kind w around
  | inEmpty {shown : String} {before : List Outline} {outer : List (String × List Outline)}
      {e : Markup.Element} {around : List Markup.Element} {n : Nest} : e.label ∈ emptyNames →
    e.label ∉ View.voidElements → Markup.MayStand (labelsOf around) e.label →
    ClosesNoImage around e.label → Follows s .markup n →
    Matches ⟨before ++ [.element shown []], outer⟩ n → n.elements = around →
    Tracks s .markup ⟨[], (shown, before) :: outer⟩ (e :: around)

section

variable {s : Markup.Build.State} {kind : Markup.TextMode} {w : Writing} {around : List Markup.Element}
  {t : Tag}

/-- What does not change a nest does not matter. -/
theorem Tracks.exists_nest (h : Tracks s kind w around) : ∃ n, Follows s kind n ∧
    (∀ outer ∈ n.names.head?, Markup.HoldsParts outer ∨ outer ∈ Markup.textNames →
      outer ∈ (labelsOf around).head?) ∧
    ∀ s₁, Follows s₁ kind n → Tracks s₁ kind w around := by
  cases h with
  | @nest _ _ _ n hfollows hmatches hn =>
    subst hn
    exact ⟨n, hfollows, fun outer houter _ ↦ houter, fun s₁ h₁ ↦ .nest h₁ hmatches rfl⟩
  | @inEmpty shown before outer e around n hempty hunknown hstand himage hfollows hmatches hn =>
    subst hn
    refine ⟨n, hfollows, fun outer houter hheld ↦ ?_,
      fun s₁ h₁ ↦ .inEmpty hempty hunknown hstand himage h₁ hmatches rfl⟩
    have hnone : ∀ name ∈ emptyNames, name ∉ View.voidElements →
        name ∉ Markup.Build.tablePartNames ++ ["script", "style"] := by decide
    rcases hheld with hholds | htext
    · exact absurd (hstand.of_holdsParts houter hholds) (hnone _ hempty hunknown)
    · exact absurd htext (hstand.notInText outer houter)

/-- Where an element may stand, the document is where it is written. -/
theorem Tracks.exists_matches (h : Tracks s kind w around) {tag : Markup.Tag}
    (hstand : tag.StandsIn around) :
    kind = .markup ∧ ∃ n, n.elements = around ∧ Follows s .markup n ∧ Matches w n := by
  have hheld := hstand.notInText
  cases h with
  | @nest _ _ _ n hfollows hmatches hn =>
    subst hn
    obtain rfl := hfollows.markup_of_head fun outer houter ↦ (hheld outer houter).1
    exact ⟨rfl, n, rfl, hfollows, hmatches⟩
  | inEmpty hempty => exact absurd hempty (hheld _ rfl).2

theorem isVoid_iff : t.isVoid = true ↔ t.key ∈ View.voidElements := List.contains_iff_mem

theorem mem_voidNames (h : t.isVoid = true) : t.key ∈ voidNames := by
  have hsubset : View.voidElements ⊆ voidNames := by decide
  exact hsubset (isVoid_iff.1 h)

/-- What a tag writes of an element that holds nothing, if that is not known: an HTML element. -/
theorem unknown_of_standsIn {n : Nest} {tag : Markup.Tag} (hstand : tag.StandsIn n.elements)
    (hself : tag.selfClosing = false) (hputs : n.Puts tag) (hunknown : tag.name ∉ View.voidElements) :
    (n.written tag).label = tag.name ∧ tag.name ∈ emptyNames ∧
      Markup.MayStand (labelsOf n.elements) tag.name ∧ ClosesNoImage n.elements tag.name := by
  cases hstand with
  | foreign hkeeps hstays =>
    have hvoid := (Markup.Build.Nest.puts_iff_of_foreign
      (Markup.Element.space_elementIn_of_keeps hkeeps)).1 hputs
    rw [hstays.empty.1 hvoid] at hself
    cases hself
  | root _ hroot _ _ =>
    have hnone : ∀ name ∈ Markup.foreignRoots, name ∉ voidNames := by decide
    have hvoid := (Markup.Build.Nest.puts_iff_of_foreign
      (Markup.Element.space_elementIn_of_root hroot)).1 hputs
    exact absurd hvoid (hnone _ hroot)
  | html hkeeps hroot hmay himage =>
    have hwritten := Markup.Build.Nest.written_of_html hkeeps hroot
    refine ⟨?_, (Markup.Build.Nest.puts_iff_of_html hwritten).1 hputs, hmay, himage⟩
    rw [hwritten]
    rfl
  | hidden _ htag _ =>
    rw [htag] at hunknown
    exact absurd (by decide) hunknown

section

variable (h : Tracks s kind w around) (ht : t.IsWellFormed) (hstatic : t.IsStatic)

include ht hstatic in
/-- No tag is read as closing itself that does not. -/
theorem selfClosing_read (hclosing : t.closing = false) (hself : t.selfClosing = false) :
    t.read.selfClosing = false := by
  obtain ⟨attributes, gap, selfClosing, read, htext, htag, hslash, -⟩ :=
    exists_opening ht hstatic hclosing
  rw [Tag.read_eq htext htag]
  exact Bool.eq_false_iff.2 fun hread ↦ Bool.eq_false_iff.1 hself (hslash hread)

include ht hstatic in
theorem name_read (hclosing : t.closing = false) : t.read.name = t.key := by
  obtain ⟨attributes, gap, selfClosing, read, htext, htag, -⟩ := exists_opening ht hstatic hclosing
  rw [Tag.read_eq htext htag, Tag.key_eq ht]

include h ht hstatic

/-- A written opening tag is tracked. -/
theorem Tracks.reads_opening (hclosing : t.closing = false) (hself : t.selfClosing = false)
    (hvoid : t.isVoid = false) (hstand : t.read.StandsIn around)
    (hname : (t.read.elementIn (innermostOf around)).inPlace.name = t.key ∨
      t.name.any Char.isUpper = true)
    (rest : List Char) :
    ∃ s₁ kind₁, Markup.Build.Reads kind (lines (t.marked.text ++ rest)) s kind₁ (lines rest) s₁ ∧
      Tracks s₁ kind₁ ⟨[], (t.shownName, w.inner) :: w.around⟩
        (t.read.elementIn (innermostOf around) :: around) := by
  obtain ⟨rfl, n, rfl, hfollows, hmatches⟩ := h.exists_matches hstand
  obtain ⟨s₁, kind₁, n₁, hreads, hfollows₁, hput | hopened⟩ :=
    reads_opener hfollows hmatches ht hstatic hclosing hstand hname rest
  · obtain ⟨hputs, rfl, hsame, hmatches₁⟩ := hput
    have hunknown : t.key ∉ View.voidElements := fun hknown ↦
      Bool.eq_false_iff.1 hvoid (isVoid_iff.2 hknown)
    rw [← name_read ht hstatic hclosing] at hunknown
    obtain ⟨hlabel, hempty, hmay, himage⟩ :=
      unknown_of_standsIn hstand (selfClosing_read ht hstatic hclosing hself) hputs hunknown
    rw [← hlabel] at hempty hunknown hmay himage
    exact ⟨s₁, _, hreads, .inEmpty hempty hunknown hmay himage hfollows₁ hmatches₁ hsame⟩
  · exact ⟨s₁, kind₁, hreads, .nest hfollows₁ hopened.2.2 hopened.2.1⟩

/-- So is a void element. -/
theorem Tracks.reads_void (hclosing : t.closing = false) (hvoid : t.isVoid = true)
    (hstand : t.read.StandsIn around)
    (hname : (t.read.elementIn (innermostOf around)).inPlace.name = t.key ∨
      t.name.any Char.isUpper = true)
    (rest : List Char) :
    ∃ s₁ kind₁, Markup.Build.Reads kind (lines (t.marked.text ++ rest)) s kind₁ (lines rest) s₁ ∧
      Tracks s₁ kind₁ ⟨w.inner ++ [.element t.shownName []], w.around⟩ around := by
  obtain ⟨rfl, n, rfl, hfollows, hmatches⟩ := h.exists_matches hstand
  obtain ⟨s₁, kind₁, n₁, hreads, hfollows₁, hput | hopened⟩ :=
    reads_opener hfollows hmatches ht hstatic hclosing hstand hname rest
  · exact ⟨s₁, kind₁, hreads, .nest hfollows₁ hput.2.2.2 hput.2.2.1⟩
  · refine absurd (.inl ?_) hopened.1
    rw [name_read ht hstatic hclosing]
    exact mem_voidNames hvoid

/-- A closing tag of a void element is read over. -/
theorem Tracks.reads_stray (hclosing : t.closing = true) (hvoid : t.isVoid = true)
    (hstand : t.Stands around) (rest : List Char) :
    ∃ s₁ kind₁, Markup.Build.Reads kind (lines (t.text ++ rest)) s kind₁ (lines rest) s₁ ∧
      Tracks s₁ kind₁ w around := by
  unfold Tag.Stands at hstand
  rw [if_pos hclosing] at hstand
  obtain ⟨hbr, hnotText, hgroup⟩ := hstand hvoid
  obtain ⟨n, hfollows, hheld, hkeeps⟩ := h.exists_nest
  obtain rfl := hfollows.markup_of_head fun outer houter htext ↦
    hnotText outer (hheld outer houter (.inr htext)) htext
  have himage : t.key ≠ "image" := fun heq ↦ by
    have hmem := heq ▸ mem_voidNames hvoid
    exact absurd hmem (by decide)
  obtain ⟨s₁, hreads, hfollows₁⟩ := Template.reads_stray hfollows ht hstatic hclosing
    (List.mem_cons_of_mem _ (mem_voidNames hvoid)) hbr
    (fun houter ↦ hgroup (hheld "colgroup" houter (.inl (by decide))))
    (fun heq ↦ absurd heq himage) rest
  exact ⟨s₁, _, hreads, hkeeps s₁ hfollows₁⟩

end

/-- A written closing tag is tracked. -/
theorem Tracks.reads_closing {e : Markup.Element} (h : Tracks s kind w (e :: around))
    (hkey : e.closedBy = t.key) (ht : t.IsWellFormed) (hstatic : t.IsStatic)
    (hclosing : t.closing = true) (hvoid : t.isVoid = false) (rest : List Char) :
    ∃ s₁ kind₁, Markup.Build.Reads kind (lines (t.text ++ rest)) s kind₁ (lines rest) s₁ ∧
      Tracks s₁ kind₁ (w.next (.tag t)) around := by
  cases h with
  | @nest _ w _ n hfollows hmatches hn =>
    obtain ⟨inner, outer⟩ := w
    cases outer with
    | nil =>
      cases hmatches
      cases hn
    | cons outer others =>
      obtain ⟨s₁, n₁, hreads, hfollows₁, hn₁, hmatches₁⟩ :=
        reads_closer hfollows hmatches hn hkey ht hstatic hclosing rest
      rw [Writing.next_closing hclosing hvoid]
      exact ⟨s₁, _, hreads, .nest hfollows₁ hmatches₁ hn₁⟩
  | inEmpty hempty hunknown hstand himage hfollows hmatches hn =>
    subst hn
    rw [Markup.Element.closedBy_eq hstand.word] at hkey
    rw [hkey] at hempty hunknown hstand himage
    obtain ⟨s₁, hreads, hfollows₁⟩ := Template.reads_stray hfollows ht hstatic hclosing hempty
      (fun heq ↦ hunknown (heq ▸ by decide))
      (fun houter ↦ (hstand.onlyParts _ houter).1 rfl) himage rest
    rw [Writing.next_closing hclosing hvoid]
    exact ⟨s₁, _, hreads, .nest hfollows₁ hmatches rfl⟩

/-- Tags close themselves that open an element and have a slash, but those of void elements. -/
theorem Tag.closesItself_eq_true : t.closesItself = true ↔
    t.closing = false ∧ t.selfClosing = true ∧ t.isVoid = false := by
  unfold Tag.closesItself
  rw [Bool.and_eq_true, Bool.and_eq_true, Bool.not_eq_true', Bool.not_eq_true', and_assoc]

/-- The check of a text passes over the tags of void elements, and those that close themselves. -/
theorem Tag.counts_of_isVoid (hvoid : t.isVoid = true) : t.counts = false := by
  unfold Tag.counts
  rw [hvoid]
  rfl

theorem Tag.counts_of_closesItself (htwo : t.closesItself = true) : t.counts = false := by
  obtain ⟨hclosing, hself, -⟩ := Tag.closesItself_eq_true.1 htwo
  unfold Tag.counts
  rw [hclosing, hself, Bool.not_true, Bool.or_false, Bool.and_false]

/-- A tag that does not close itself is prepared as one tag. -/
theorem prepared_of_one (hone : ¬t.closesItself = true) :
    (Piece.tag t).prepared = t.marked.text := by
  change t.closed.flatMap (fun t ↦ t.marked.text) = _
  rw [Tag.closed_eq_one hone, List.flatMap_cons, List.flatMap_nil, List.append_nil]

theorem prepared_of_closing (hclosing : t.closing = true) : (Piece.tag t).prepared = t.text := by
  have hone : ¬t.closesItself = true := fun htwo ↦
    Bool.eq_false_iff.1 (Tag.closesItself_eq_true.1 htwo).1 hclosing
  have hmarked : t.marked = t := by
    unfold Tag.marked
    rw [hclosing]
    rfl
  rw [prepared_of_one hone, hmarked]

/-- A tag that closes itself is prepared as two. -/
theorem prepared_of_two (htwo : t.closesItself = true) :
    (Piece.tag t).prepared = t.opener.marked.text ++ t.closer.text := by
  change t.closed.flatMap (fun t ↦ t.marked.text) = _
  rw [Tag.closed_eq_two htwo, List.flatMap_cons, List.flatMap_cons, List.flatMap_nil,
    List.append_nil]
  rfl

theorem Tag.IsStatic.opener (hstatic : t.IsStatic) (hclosing : t.closing = false) :
    t.opener.IsStatic :=
  ⟨fun c hc ↦ hstatic.spaces c (List.mem_append_left _ (by simpa [Tag.opener] using hc)),
    fun _ ↦ hstatic.names hclosing⟩

theorem Tag.isStatic_closer (t : Tag) : t.closer.IsStatic :=
  ⟨fun _ hc ↦ absurd hc List.not_mem_nil, fun h ↦ by cases h⟩

/-- A tag that closes itself is read as the two that it is prepared as. -/
theorem Tracks.reads_two (h : Tracks s kind w around) (ht : t.IsWellFormed) (hstatic : t.IsStatic)
    (htwo : t.closesItself = true) (hstand : t.opener.read.StandsIn around)
    (hname : (t.opener.read.elementIn (innermostOf around)).inPlace.name = t.opener.key ∨
      t.opener.name.any Char.isUpper = true)
    (rest : List Char) :
    ∃ s₁ kind₁, Markup.Build.Reads kind (lines ((Piece.tag t).prepared ++ rest)) s kind₁
        (lines rest) s₁ ∧
      Tracks s₁ kind₁ (w.next (.tag t)) around := by
  obtain ⟨hclosing, hself, hvoid⟩ := Tag.closesItself_eq_true.1 htwo
  have hopener := hstatic.opener hclosing
  have hkey : (t.opener.read.elementIn (innermostOf around)).closedBy = t.closer.key :=
    (hstand.closedBy_elementIn _).trans (name_read ht.opener hopener rfl)
  rw [prepared_of_two htwo, List.append_assoc,
    Writing.next_empty hclosing (by rw [hself, Bool.or_true])]
  obtain ⟨s₁, kind₁, hreads, htracks⟩ := @Tracks.reads_opening _ _ _ _ t.opener h ht.opener
    hopener rfl rfl hvoid hstand hname (t.closer.text ++ rest)
  obtain ⟨s₂, kind₂, hreads₁, htracks₁⟩ := @Tracks.reads_closing _ _ _ _ t.closer _ htracks
    hkey ht.closer t.isStatic_closer rfl hvoid rest
  rw [@Writing.next_closing t.closer rfl hvoid] at htracks₁
  exact ⟨s₂, kind₂, hreads.trans hreads₁, htracks₁⟩

/-- A tag is read as the element that it opens or closes, as far as the check agrees that it may. -/
theorem Tracks.reads_tag (h : Tracks s kind w around) (ht : t.IsWellFormed) (hstatic : t.IsStatic)
    (hstand : t.Stands around) {opened : List String}
    (hafter : afterTag (around.map Markup.Element.closedBy) t = .ok opened) (rest : List Char) :
    opened = (t.leavesOpen around).map Markup.Element.closedBy ∧
      ∃ s₁ kind₁, Markup.Build.Reads kind (lines ((Piece.tag t).prepared ++ rest)) s kind₁
          (lines rest) s₁ ∧
        Tracks s₁ kind₁ (w.next (.tag t)) (t.leavesOpen around) := by
  unfold Tag.leavesOpen
  cases hclosing : t.closing with
  | true =>
    rw [prepared_of_closing hclosing]
    cases hvoid : t.isVoid with
    | true =>
      rw [afterTag_of_not_counts (Tag.counts_of_isVoid hvoid)] at hafter
      rw [Writing.next_stray hclosing hvoid]
      exact ⟨(Except.ok.inj hafter).symm, h.reads_stray ht hstatic hclosing hvoid hstand rest⟩
    | false =>
      have hcloses :=
        (afterTag_closing (by unfold Tag.counts; rw [hvoid, hclosing]; rfl) hclosing).1 hafter
      cases around with
      | nil => cases hcloses
      | cons e around =>
        obtain ⟨hkey, hrest⟩ := List.cons.inj hcloses
        exact ⟨hrest.symm, h.reads_closing hkey ht hstatic hclosing hvoid rest⟩
  | false =>
    unfold Tag.Stands at hstand
    rw [if_neg (Bool.eq_false_iff.1 hclosing)] at hstand
    obtain ⟨hstand, hname⟩ := hstand
    unfold Tag.asRead at hstand hname ⊢
    by_cases htwo : t.closesItself = true
    · obtain ⟨-, hself, hvoid⟩ := Tag.closesItself_eq_true.1 htwo
      rw [if_pos htwo] at hstand hname
      rw [afterTag_of_not_counts (Tag.counts_of_closesItself htwo)] at hafter
      rw [hvoid, hself]
      exact ⟨(Except.ok.inj hafter).symm, h.reads_two ht hstatic htwo hstand hname rest⟩
    rw [if_neg htwo] at hstand hname ⊢
    rw [prepared_of_one htwo]
    cases hvoid : t.isVoid with
    | true =>
      rw [afterTag_of_not_counts (Tag.counts_of_isVoid hvoid)] at hafter
      rw [Writing.next_empty hclosing (by rw [hvoid]; rfl)]
      exact ⟨(Except.ok.inj hafter).symm, h.reads_void ht hstatic hclosing hvoid hstand hname rest⟩
    | false =>
      have hself : t.selfClosing = false :=
        Bool.eq_false_iff.2 fun hself ↦ htwo (Tag.closesItself_eq_true.2 ⟨hclosing, hself, hvoid⟩)
      obtain ⟨-, hopened⟩ :=
        (afterTag_opening (by unfold Tag.counts; rw [hvoid, hself]; simp) hclosing).1 hafter
      rw [hself, Writing.next_opening hclosing (by rw [hvoid, hself]; rfl)]
      refine ⟨?_, h.reads_opening ht hstatic hclosing hself hvoid hstand hname rest⟩
      rw [hopened]
      exact congrArg (· :: _) ((name_read ht hstatic hclosing).symm.trans
        (hstand.closedBy_elementIn _).symm)

/-! ### Texts -/

/-- White space in parts of tables, and no markup. -/
theorem allStand_chars {cs : List Char} {more : List Piece} (h : AllStand around (cs.map .char ++ more)) :
    (∀ c ∈ cs, ∀ outer ∈ (labelsOf around).head?, Markup.HoldsParts outer →
      Markup.Build.isSpace c = true) ∧ AllStand around more := by
  induction cs with
  | nil => exact ⟨fun _ hc ↦ absurd hc List.not_mem_nil, h⟩
  | cons c cs ih =>
    obtain ⟨hc, hrest⟩ := h
    obtain ⟨hcs, hmore⟩ := ih hrest
    exact ⟨List.forall_mem_cons.2 ⟨hc.1, hcs⟩, hmore⟩

/-- Where the tags are well formed, the characters between them are text. -/
theorem isText_chars {cs : List Char} {more : List Piece} (h : AllStand around (cs.map .char ++ more))
    (hformed : malformed? (cs.map .char ++ more) = none) : Markup.Lexer.IsText cs := by
  induction cs with
  | nil => exact fun c rest hsuffix ↦ absurd (List.suffix_nil.1 hsuffix) (List.cons_ne_nil _ _)
  | cons c cs ih =>
    obtain ⟨hc, hrest⟩ := h
    intro d rest hsuffix
    rcases List.suffix_cons_iff.1 hsuffix with heq | hsuffix
    · obtain ⟨rfl, rfl⟩ := List.cons.inj heq
      refine not_beginsMarkup hformed (fun e after heq ↦ ?_) (fun _ ↦ rfl) exists_prepared d ?_
      · have hnone := hc.2 rfl (.char e) (by rw [heq]; rfl)
        refine ⟨?_, ?_, ?_⟩
        all_goals
          rintro rfl
          exact hnone (by decide)
      · exact rfl
    · exact ih hrest (malformed?_cons.1 hformed).2 d rest hsuffix

/-- Characters write nothing. -/
theorem foldl_next_chars (cs : List Char) (more : List Piece) (w : Writing) :
    (cs.map Piece.char ++ more).foldl Writing.next w = more.foldl Writing.next w := by
  induction cs with
  | nil => rfl
  | cons c cs ih => exact ih

/-- Characters open nothing. -/
theorem afterPieces_chars (opened : List String) (cs : List Char) (more : List Piece) :
    afterPieces opened (cs.map Piece.char ++ more) = afterPieces opened more := by
  induction cs with
  | nil => rfl
  | cons c cs ih => exact ih

/-- A text is read as text. -/
theorem Tracks.reads_text (h : Tracks s kind w around) {cs rest : List Char}
    (hcs : Markup.Lexer.IsText cs) (hrest : Markup.Lexer.EndsText rest)
    (hspaces : ∀ c ∈ cs, ∀ outer ∈ (labelsOf around).head?, Markup.HoldsParts outer →
      Markup.Build.isSpace c = true) :
    ∃ s₁, Markup.Build.Reads kind (lines (cs ++ rest)) s kind (lines rest) s₁ ∧
      Tracks s₁ kind w around := by
  obtain ⟨n, hfollows, hheld, hkeeps⟩ := h.exists_nest
  have hhead : rest.head? ≠ some '\n' := by
    rcases hrest with rfl | ⟨more, rfl⟩
    · exact (Option.some_ne_none _).symm
    · exact fun heq ↦ absurd (Option.some.inj heq) (by decide)
  have hends : Markup.Lexer.EndsText (lines rest) := by
    rcases hrest with rfl | ⟨more, rfl⟩
    · exact .inl rfl
    · exact .inr ⟨lines more, Markup.Lexer.lines_cons (by decide) more⟩
  rw [Markup.Lexer.lines_append (.inl hhead)]
  have hallowed : ∀ c ∈ lines cs, n.Allows c := by
    intro c hc outer houter hholds
    rcases Markup.Lexer.mem_lines hc with hmem | ⟨rfl, -⟩
    · exact hspaces c hmem outer (hheld outer houter (.inl hholds)) hholds
    · decide
  obtain ⟨s₁, hreads, hfollows₁⟩ := hfollows.reads_text hcs.lines hends hallowed
  exact ⟨s₁, hreads, hkeeps s₁ hfollows₁⟩

/-! ### Whole markup -/

/-- Every text is characters, then a tag or its end. -/
theorem exists_run (ps : List Piece) : ∃ cs more, ps = List.map Piece.char cs ++ more ∧
    (more = [] ∨ ∃ t rest, more = .tag t :: rest) := by
  induction ps with
  | nil => exact ⟨[], [], rfl, .inl rfl⟩
  | cons p rest ih =>
    cases p with
    | tag t => exact ⟨[], _, rfl, .inr ⟨t, rest, rfl⟩⟩
    | char c =>
      obtain ⟨cs, more, rfl, hmore⟩ := ih
      exact ⟨c :: cs, more, rfl, hmore⟩

/-- Markup is read as the elements that are written in it. -/
theorem Tracks.reads (h : Tracks s kind w around) {ps : List Piece} {opened : List String}
    (hafter : afterPieces (around.map Markup.Element.closedBy) ps = .ok opened)
    (hformed : malformed? ps = none)
    (htags : ∀ t ∈ tagsOf ps, t.IsWellFormed ∧ t.IsStatic) (hstand : AllStand around ps) :
    ∃ s₁ kind₁ left, Markup.Build.Reads kind (lines (ps.flatMap Piece.prepared)) s kind₁ [] s₁ ∧
      opened = left.map Markup.Element.closedBy ∧ Tracks s₁ kind₁ (ps.foldl Writing.next w) left := by
  -- a text goes up to the next tag, so that the induction is on tags with the texts before them
  induction hlength : ps.length using Nat.strongRecOn generalizing ps s kind w around with
  | ind length ih =>
    subst hlength
    obtain ⟨cs, more, rfl, hmore⟩ := exists_run ps
    rw [afterPieces_chars] at hafter
    rw [tagsOf_chars] at htags
    have htext := isText_chars hstand hformed
    obtain ⟨hspaces, hstand⟩ := allStand_chars hstand
    rw [flatMap_chars fun _ ↦ rfl, foldl_next_chars]
    rcases hmore with rfl | ⟨t, rest, rfl⟩
    · obtain ⟨s₁, hreads, htracks⟩ := h.reads_text htext (.inl rfl) hspaces
      exact ⟨s₁, kind, around, hreads, (Except.ok.inj hafter).symm, htracks⟩
    · obtain ⟨opened₁, htag, hafter⟩ := except_bind_eq_ok hafter
      obtain ⟨⟨hwellFormed, hstatic⟩, htags⟩ := List.forall_mem_cons.1 htags
      obtain ⟨hstands, hstand⟩ := hstand
      obtain ⟨behind, hbehind⟩ := exists_prepared t
      have hends : Markup.Lexer.EndsText ((Piece.tag t).prepared ++ rest.flatMap Piece.prepared) :=
        .inr ⟨behind ++ rest.flatMap Piece.prepared, by rw [hbehind]; rfl⟩
      obtain ⟨s₁, hreads, htracks⟩ := h.reads_text htext hends hspaces
      obtain ⟨rfl, s₂, kind₂, hreads₁, htracks₁⟩ :=
        htracks.reads_tag hwellFormed hstatic hstands htag (rest.flatMap Piece.prepared)
      obtain ⟨s₃, kind₃, left, hreads₂, hleft, htracks₂⟩ := ih rest.length
        (by rw [List.length_append, List.length_cons]; omega) htracks₁ hafter
        (malformed?_cons.1 (malformed?_of_append hformed)).2 htags hstand rfl
      exact ⟨s₃, kind₃, left, hreads.trans (hreads₁.trans hreads₂), hleft, htracks₂⟩

/-- Normalizing changes line ends and the mark at the beginning. -/
theorem normalized_eq_lines {cs : List Char} (h : cs.head? ≠ some '\uFEFF') :
    Markup.Lexer.normalized cs = lines cs := by
  unfold Markup.Lexer.normalized
  rw [if_neg (by simpa using h)]

mutual

/-- Texts are not part of the outline. -/
theorem depicts_textless : ∀ node : Markup.Node,
    areStatic node.textless = isStatic node ∧ outlineOf node.textless = outline node
  | .element name attributes children => by
    obtain ⟨hstatic, houtline⟩ := depicts_textlessAll children
    constructor
    · simp only [Markup.Node.textless, areStatic, isStatic, hstatic, Bool.and_true]
    · simp only [Markup.Node.textless, outlineOf, outline, houtline, List.append_nil]
  | .text _ => ⟨rfl, rfl⟩
  | .comment => ⟨rfl, rfl⟩

theorem depicts_textlessAll : ∀ nodes : List Markup.Node,
    areStatic (Markup.textlessAll nodes) = areStatic nodes ∧
      outlineOf (Markup.textlessAll nodes) = outlineOf nodes
  | [] => ⟨rfl, rfl⟩
  | n :: rest => by
    obtain ⟨hstatic, houtline⟩ := depicts_textless n
    obtain ⟨hstatics, houtlines⟩ := depicts_textlessAll rest
    constructor
    · simp only [Markup.textlessAll, areStatic_append, areStatic, hstatic, hstatics]
    · simp only [Markup.textlessAll, outlineOf_append, outlineOf, houtline, houtlines]

end

end

/-- The whole markup is read, and what is drawn of it is what is written. -/
theorem exists_reads {ps : List Piece} (hcheck : checkTags ps = .ok ())
    (htags : ∀ t ∈ tagsOf ps, t.IsWellFormed ∧ t.IsStatic) (hstand : AllStand [] ps) :
    ∃ s, Markup.Build.Reads .markup (lines (ps.flatMap Piece.prepared)) .start .markup [] s ∧
      ∃ n, Follows s .markup n ∧ n.elements = [] ∧ Matches (ps.foldl Writing.next ⟨[], []⟩) n := by
  obtain ⟨hafter, hformed⟩ := checkTags_eq.1 hcheck
  obtain ⟨s, kind, left, hreads, hleft, htracks⟩ :=
    (Tracks.nest Markup.Build.follows_start (.page depicts_nil) rfl).reads hafter hformed htags hstand
  obtain rfl := List.map_eq_nil_iff.1 hleft.symm
  generalize ps.foldl Writing.next ⟨[], []⟩ = w at htracks ⊢
  cases htracks with
  | nest hfollows hmatches hn =>
    obtain rfl := hfollows.markup_of_head (by rw [Nest.names, hn]; decide)
    exact ⟨s, hreads, _, hfollows, hn, hmatches⟩

/-- A byte order mark before the first tag is no part of a page. -/
theorem exists_reads_normalized {ps : List Piece} (hcheck : checkTags ps = .ok ())
    (htags : ∀ t ∈ tagsOf ps, t.IsWellFormed ∧ t.IsStatic) (hstand : AllStand [] ps) :
    ∃ s, Markup.Build.Reads .markup (Markup.Lexer.normalized (ps.flatMap Piece.prepared)) .start
        .markup [] s ∧
      ∃ n, Follows s .markup n ∧ n.elements = [] ∧ Matches (ps.foldl Writing.next ⟨[], []⟩) n := by
  by_cases hmark : (ps.flatMap Piece.prepared).head? = some '\uFEFF'
  · obtain ⟨rest, rfl⟩ : ∃ rest, ps = .char '\uFEFF' :: rest := by
      cases ps with
      | nil => cases hmark
      | cons p rest =>
        cases p with
        | tag t =>
          obtain ⟨more, hmore⟩ := exists_prepared t
          rw [List.flatMap_cons, hmore] at hmark
          exact absurd (Option.some.inj hmark) (by decide)
        | char c =>
          obtain rfl := Option.some.inj hmark
          exact ⟨rest, rfl⟩
    obtain ⟨hafter, hformed⟩ := checkTags_eq.1 hcheck
    exact exists_reads (checkTags_eq.2 ⟨hafter, (malformed?_cons.1 hformed).2⟩) htags hstand.2
  · rw [normalized_eq_lines hmark]
    exact exists_reads hcheck htags hstand

/-- The page that accepted markup is read as has the elements that are written, nested as they are
written. -/
theorem depicts_pageOf {markup : String} (hcheck : checkTags (pieces markup.toList) = .ok ())
    (hstatic : ∀ t ∈ tagsOf (pieces markup.toList), t.IsStatic)
    (hstand : AllStand [] (pieces markup.toList)) :
    Depicts (pageOf markup) (writtenOutline (pieces markup.toList)) := by
  have htags : ∀ t ∈ tagsOf (pieces markup.toList), t.IsWellFormed ∧ t.IsStatic := fun t ht ↦
    ⟨(tiles_pieces _).isWellFormed t ht, hstatic t ht⟩
  obtain ⟨s, hreads, n, hfollows, hn, hmatches⟩ := exists_reads_normalized hcheck htags hstand
  unfold writtenOutline
  generalize (pieces markup.toList).foldl Writing.next ⟨[], []⟩ = w at hmatches
  cases hmatches with
  | within => cases hn
  | @page nodes outlines hdepicts =>
    have hcontent : Markup.textlessAll (pageOf markup) = nodes :=
      Markup.Build.contentOf_eq hreads hfollows
    obtain ⟨hsame, helements⟩ := depicts_textlessAll (pageOf markup)
    rw [hcontent] at hsame helements
    exact ⟨hsame.symm.trans hdepicts.static, helements.symm.trans hdepicts.elements⟩

/-- Accepted markup without directives, comments and interpolations is shown as HTML reads it: one element
or component for each element of the page, within the same ones, in the same order and by the same name.
If all that is written stands where it may, the page is what is written, with one element for each
opening tag, in the order and within the one in which it is written. -/
theorem run_written {markup : String} {t : Template} (h : ofMarkup markup = .ok t)
    (hcomments : ¬"<!--".toList <:+: markup.toList)
    (hbraces : ¬['\x7b', '\x7b'] <:+: markup.toList) :
    (areStatic (pageOf markup) = true →
      ∀ (registered : Registered) (state : Sandbox.Value) (w : Sandbox.World),
        ∃ out w', run t registered state w = .ok out w' ∧
          View.outlineOf out.nodes = renamedAll (shownAs registered) (outlineOf (pageOf markup))) ∧
      ((∀ tag ∈ tagsOf (pieces markup.toList), tag.IsStatic) → AllStand [] (pieces markup.toList) →
        areStatic (pageOf markup) = true ∧
          outlineOf (pageOf markup) = writtenOutline (pieces markup.toList)) ∧
      namesOf (writtenOutline (pieces markup.toList)) =
        ((tagsOf (pieces markup.toList)).filter fun tag ↦ !tag.closing).map Tag.shownName := by
  obtain ⟨hcheck, -⟩ := ofMarkup_eq_ok hcomments hbraces h
  refine ⟨fun hpage registered state w ↦ run_outline hcomments hbraces h hpage registered state w,
    fun hstatic hstand ↦ ?_, namesOf_writtenOutline hcheck⟩
  have hdepicts := depicts_pageOf hcheck hstatic hstand
  exact ⟨hdepicts.static, hdepicts.elements⟩

def menuMarkup : String := "<ul><LI>One<svg><textPath/></svg><br></LI></ul>"

theorem run_written_menu : ∃ t, ofMarkup menuMarkup = .ok t ∧
    ¬"<!--".toList <:+: menuMarkup.toList ∧ ¬['\x7b', '\x7b'] <:+: menuMarkup.toList ∧
    (∀ t ∈ tagsOf (pieces menuMarkup.toList), t.IsStatic) ∧ AllStand [] (pieces menuMarkup.toList) ∧
    areStatic (pageOf menuMarkup) = true ∧
    ∃ out w', run t [] .undefined ⟨.empty, Sandbox.Run.start .standard .undefined⟩ = .ok out w' ∧
      namesOf (View.outlineOf out.nodes) = ["ul", "LI", "svg", "textPath", "br"] := by
  have hcomments : ¬"<!--".toList <:+: menuMarkup.toList := by decide
  have hbraces : ¬['\x7b', '\x7b'] <:+: menuMarkup.toList := by decide
  have hstatic : ∀ t ∈ tagsOf (pieces menuMarkup.toList), t.IsStatic := by decide +kernel
  have hstand : AllStand [] (pieces menuMarkup.toList) := by decide +kernel
  have hnames : namesOf (renamedAll (shownAs []) (writtenOutline (pieces menuMarkup.toList))) =
      ["ul", "LI", "svg", "textPath", "br"] := by decide +kernel
  have ⟨t, ht⟩ := exists_ok_of_toBool (by decide +kernel : (ofMarkup menuMarkup).toBool = true)
  have ⟨hrun, hwritten, _⟩ := run_written ht hcomments hbraces
  have ⟨hpage, hsame⟩ := hwritten hstatic hstand
  have ⟨out, w', hout, houtline⟩ := hrun hpage [] .undefined
    ⟨.empty, Sandbox.Run.start .standard .undefined⟩
  rw [hsame] at houtline
  exact ⟨t, ht, hcomments, hbraces, hstatic, hstand, hpage, out, w', hout,
    (congrArg namesOf houtline).trans hnames⟩

/-- Other vocabularies stand in HTML, hidden inputs between the parts of tables, and images under a name
with a capital. -/
example : ∀ markup ∈ ["<div><svg><path></path></svg></div>", "<p><math><mi>x</mi></math></p>",
    "<table><input type=\"hidden\"></table>", "<p><Image src=\"a\"/></p>"],
    AllStand [] (pieces markup.toList) := by decide +kernel

def dividedMarkup : String := "<p><div></div></p>"

/-- HTML closes a paragraph before a division, and what closes the paragraph where it is written
opens another one. -/
theorem division_ends_paragraph : ∃ t, ofMarkup dividedMarkup = .ok t ∧
    ¬"<!--".toList <:+: dividedMarkup.toList ∧ ¬['\x7b', '\x7b'] <:+: dividedMarkup.toList ∧
    (∀ t ∈ tagsOf (pieces dividedMarkup.toList), t.IsStatic) ∧
    namesOf (writtenOutline (pieces dividedMarkup.toList)) = ["p", "div"] ∧
    ∃ out w', run t [] .undefined ⟨.empty, Sandbox.Run.start .standard .undefined⟩ = .ok out w' ∧
      namesOf (View.outlineOf out.nodes) = ["p", "div", "p"] := by
  have hcomments : ¬"<!--".toList <:+: dividedMarkup.toList := by decide
  have hbraces : ¬['\x7b', '\x7b'] <:+: dividedMarkup.toList := by decide
  have hstatic : ∀ t ∈ tagsOf (pieces dividedMarkup.toList), t.IsStatic := by decide +kernel
  have hwritten : namesOf (writtenOutline (pieces dividedMarkup.toList)) = ["p", "div"] := by
    decide +kernel
  have hpage : areStatic (pageOf dividedMarkup) = true := by decide +kernel
  have hnames : namesOf (renamedAll (shownAs []) (outlineOf (pageOf dividedMarkup))) =
      ["p", "div", "p"] := by decide +kernel
  have ⟨t, ht⟩ := exists_ok_of_toBool (by decide +kernel : (ofMarkup dividedMarkup).toBool = true)
  have ⟨out, w', hrun, houtline⟩ := run_outline hcomments hbraces ht hpage [] .undefined
    ⟨.empty, Sandbox.Run.start .standard .undefined⟩
  exact ⟨t, ht, hcomments, hbraces, hstatic, hwritten, out, w', hrun,
    (congrArg namesOf houtline).trans hnames⟩

end Nodecraft.Template
