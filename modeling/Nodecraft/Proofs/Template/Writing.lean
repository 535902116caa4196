import Nodecraft.Proofs.Markup.Nests
import Nodecraft.Proofs.Template.Outline
import Nodecraft.Proofs.Template.Preparation

/-!
# Elements as they are written

The tags of some markup tell how its elements are meant to nest (`writtenOutline`), with one element
for each opening tag (`namesOf_writtenOutline`). HTML reads them so where it has no rule that closes,
moves or leaves out what is written. Whether some markup keeps to that (`AllStand`) can be told from its
tags and the elements that they leave open.
-/

set_option autoImplicit false

namespace Nodecraft.Template

open Markup (labelsOf)

/-! ### What is written -/

/-- The elements that have been written in the innermost open element, and the open elements, the
innermost first, each with those before it. -/
structure Writing where
  inner : List Outline
  around : List (String × List Outline)

/-- A tag opens or closes an element, or writes one that holds nothing. -/
def Writing.next (w : Writing) : Piece → Writing
  | .char _ => w
  | .tag t =>
    if t.closing then
      if t.isVoid then w
      else match w.around with
        | [] => w
        | (name, before) :: around => ⟨before ++ [.element name w.inner], around⟩
    else if t.isVoid || t.selfClosing then { w with inner := w.inner ++ [.element t.shownName []] }
    else ⟨[], (t.shownName, w.inner) :: w.around⟩

/-- The elements of some markup, nested the way their tags are. -/
def writtenOutline (ps : List Piece) : List Outline := (ps.foldl Writing.next ⟨[], []⟩).inner

namespace Writing

section

variable {t : Tag}

/-- A closing tag of a void element is read over. -/
theorem next_stray (hclosing : t.closing = true) (hvoid : t.isVoid = true) (w : Writing) :
    w.next (.tag t) = w := by
  change (if t.closing then _ else _) = _
  rw [if_pos hclosing, if_pos hvoid]

/-- A closing tag finishes the innermost element. -/
theorem next_closing (hclosing : t.closing = true) (hvoid : t.isVoid = false) (name : String)
    (inner before : List Outline) (around : List (String × List Outline)) :
    next ⟨inner, (name, before) :: around⟩ (.tag t) = ⟨before ++ [.element name inner], around⟩ := by
  change (if t.closing then _ else _) = _
  rw [if_pos hclosing, if_neg (Bool.eq_false_iff.1 hvoid)]

/-- An element without content is finished at once. -/
theorem next_empty (hclosing : t.closing = false) (hempty : (t.isVoid || t.selfClosing) = true)
    (w : Writing) : w.next (.tag t) = ⟨w.inner ++ [.element t.shownName []], w.around⟩ := by
  change (if t.closing then _ else _) = _
  rw [if_neg (Bool.eq_false_iff.1 hclosing), if_pos hempty]

/-- Any other opening tag opens its element. -/
theorem next_opening (hclosing : t.closing = false) (hempty : (t.isVoid || t.selfClosing) = false)
    (w : Writing) : w.next (.tag t) = ⟨[], (t.shownName, w.inner) :: w.around⟩ := by
  change (if t.closing then _ else _) = _
  rw [if_neg (Bool.eq_false_iff.1 hclosing), if_neg (Bool.eq_false_iff.1 hempty)]

end

end Writing

namespace Writing

/-- The names of the open elements and of those before them, in the order in which they begin. -/
def namesAround : List (String × List Outline) → List String
  | [] => []
  | (name, before) :: around => namesAround around ++ (namesOf before ++ [name])

def names (w : Writing) : List String := namesAround w.around ++ namesOf w.inner

/-- Each opening tag begins one element, behind all that have been begun. -/
theorem names_next (w : Writing) (p : Piece) : (w.next p).names =
    w.names ++ ((tagsOf [p]).filter fun t ↦ !t.closing).map Tag.shownName := by
  cases p with
  | char c => exact (List.append_nil _).symm
  | tag t =>
    change _ = w.names ++ ([t].filter fun t ↦ !t.closing).map Tag.shownName
    cases hclosing : t.closing with
    | true =>
      rw [List.filter_cons_of_neg (by simp [hclosing]), List.filter_nil, List.map_nil, List.append_nil]
      cases hvoid : t.isVoid with
      | true => rw [next_stray hclosing hvoid]
      | false =>
        obtain ⟨inner, around⟩ := w
        cases around with
        | nil =>
          change Writing.names (if t.closing then _ else _) = _
          rw [if_pos hclosing, if_neg (Bool.eq_false_iff.1 hvoid)]
        | cons outer around =>
          rw [next_closing hclosing hvoid]
          simp only [names, namesAround, namesOf_append, namesOf_element, List.append_assoc,
            List.cons_append, List.nil_append]
    | false =>
      rw [List.filter_cons_of_pos (by simp [hclosing]), List.filter_nil, List.map_cons, List.map_nil]
      cases hempty : t.isVoid || t.selfClosing with
      | true =>
        rw [next_empty hclosing hempty]
        rw [names, names, namesOf_append, namesOf_element, List.append_assoc]
        rfl
      | false =>
        rw [next_opening hclosing hempty]
        simp only [names, namesAround, namesOf, List.append_nil, List.append_assoc]

/-- Every opening tag names an element of the outline. -/
theorem names_foldl (ps : List Piece) (w : Writing) : (ps.foldl next w).names =
    w.names ++ ((tagsOf ps).filter fun t ↦ !t.closing).map Tag.shownName := by
  induction ps generalizing w with
  | nil => exact (List.append_nil _).symm
  | cons p ps ih =>
    have htags : tagsOf (p :: ps) = tagsOf [p] ++ tagsOf ps := by
      cases p <;> rfl
    rw [List.foldl_cons, ih, names_next, htags, List.filter_append, List.map_append,
      List.append_assoc]

/-- What is open to the check is open where elements are written. -/
theorem length_around_next {w : Writing} {opened opened' : List String} {t : Tag}
    (hlength : w.around.length = opened.length) (hafter : afterTag opened t = .ok opened') :
    (w.next (.tag t)).around.length = opened'.length := by
  cases hcounts : t.counts with
  | false =>
    rw [afterTag_of_not_counts hcounts] at hafter
    obtain rfl := Except.ok.inj hafter
    cases hclosing : t.closing with
    | true =>
      have hvoid : t.isVoid = true := by simpa [Tag.counts, hclosing] using hcounts
      rw [next_stray hclosing hvoid, hlength]
    | false =>
      have hempty : (t.isVoid || t.selfClosing) = true := by
        unfold Tag.counts at hcounts
        cases hvoid : t.isVoid with
        | true => rfl
        | false => simpa [hclosing, hvoid] using hcounts
      rw [next_empty hclosing hempty]
      exact hlength
  | true =>
    have hvoid := not_isVoid_of_counts hcounts
    cases hclosing : t.closing with
    | true =>
      obtain rfl := (afterTag_closing hcounts hclosing).1 hafter
      obtain ⟨inner, around⟩ := w
      cases around with
      | nil => cases hlength
      | cons outer around =>
        rw [next_closing hclosing hvoid]
        exact Nat.succ.inj hlength
    | false =>
      obtain ⟨-, rfl⟩ := (afterTag_opening hcounts hclosing).1 hafter
      have hempty : (t.isVoid || t.selfClosing) = false := by
        simpa [Tag.counts, hclosing, hvoid] using hcounts
      rw [next_opening hclosing hempty]
      exact congrArg Nat.succ hlength

/-- As many elements are open as on the stack. -/
theorem length_around_foldl {ps : List Piece} {w : Writing} {opened opened' : List String}
    (hlength : w.around.length = opened.length) (hafter : afterPieces opened ps = .ok opened') :
    (ps.foldl next w).around.length = opened'.length := by
  induction ps generalizing w opened with
  | nil =>
    obtain rfl := Except.ok.inj hafter
    exact hlength
  | cons p ps ih =>
    cases p with
    | char c => exact ih hlength hafter
    | tag t =>
      obtain ⟨opened₁, htag, hafter⟩ := except_bind_eq_ok hafter
      exact ih (length_around_next hlength htag) hafter

end Writing

/-- The elements of accepted markup: one for each opening tag, in order. -/
theorem namesOf_writtenOutline {ps : List Piece} (hcheck : checkTags ps = .ok ()) :
    namesOf (writtenOutline ps) = ((tagsOf ps).filter fun t ↦ !t.closing).map Tag.shownName := by
  obtain ⟨hafter, -⟩ := checkTags_eq.1 hcheck
  have haround := List.eq_nil_of_length_eq_zero
    (@Writing.length_around_foldl ps ⟨[], []⟩ [] [] rfl hafter)
  have hnames := Writing.names_foldl ps ⟨[], []⟩
  unfold Writing.names at hnames
  rw [haround] at hnames
  exact hnames

/-! ### Where it may stand -/

/-- An opening tag as HTML reads it, once its name has been noted. -/
def Tag.read (t : Tag) : Markup.Tag :=
  ((Markup.Lexer.tag? (Markup.Lexer.normalized.lines t.marked.text).tail).map Prod.fst).getD
    ⟨t.key, [], false⟩

/-- The tag that HTML reads for an opening one. A tag that closes itself has been replaced by two. -/
def Tag.asRead (t : Tag) : Markup.Tag := (if t.closesItself then t.opener else t).read

/-- The elements that a tag leaves open. -/
def Tag.leavesOpen (t : Tag) (around : List Markup.Element) : List Markup.Element :=
  if t.closing then if t.isVoid then around else around.tail
  else if t.isVoid || t.selfClosing then around
  else t.asRead.elementIn (Markup.innermostOf around) :: around

/-- Whether a tag may stand in the open elements: an opening one if its element may, under the name that
is written, and a closing one of a void element where HTML leaves it out. -/
def Tag.Stands (around : List Markup.Element) (t : Tag) : Prop :=
  if t.closing then
    t.isVoid = true → t.key ≠ "br" ∧
      (∀ outer ∈ (labelsOf around).head?, outer ∉ Markup.textNames) ∧
      ((labelsOf around).head? = some "colgroup" → t.key = "col")
  else t.asRead.StandsIn around ∧
    ((t.asRead.elementIn (Markup.innermostOf around)).inPlace.name = t.key ∨
      t.name.any Char.isUpper = true)

/-- Whether a character may stand in the open elements, with what follows it: only white space between
the parts of tables, and nothing that HTML reads as a comment or a declaration. -/
def CharStands (around : List Markup.Element) (c : Char) (rest : List Piece) : Prop :=
  (∀ outer ∈ (labelsOf around).head?, Markup.HoldsParts outer → Markup.Build.isSpace c = true) ∧
    (c = '<' → ∀ p ∈ rest.head?, p ∉ [.char '/', .char '!', .char '?'])

/-- Whether all of some markup may stand where it is written. -/
def AllStand (around : List Markup.Element) : List Piece → Prop
  | [] => True
  | .char c :: rest => CharStands around c rest ∧ AllStand around rest
  | .tag t :: rest => t.Stands around ∧ AllStand (t.leavesOpen around) rest

instance (around : List Markup.Element) (t : Tag) : Decidable (t.Stands around) :=
  inferInstanceAs (Decidable (if t.closing = true then _ else _))

instance (around : List Markup.Element) (c : Char) (rest : List Piece) :
    Decidable (CharStands around c rest) := inferInstanceAs (Decidable (_ ∧ _))

instance decidableAllStand : ∀ (around : List Markup.Element) (ps : List Piece),
    Decidable (AllStand around ps)
  | _, [] => isTrue trivial
  | around, .char _ :: rest =>
    have := decidableAllStand around rest
    inferInstanceAs (Decidable (_ ∧ _))
  | around, .tag t :: rest =>
    have := decidableAllStand (t.leavesOpen around) rest
    inferInstanceAs (Decidable (_ ∧ _))

/-- The names of a tag's attributes, as HTML reads them. -/
def Tag.attributeNames (t : Tag) : List String :=
  ((Markup.Lexer.attributes? (t.attributes.length + 1) [] (t.attributes ++ ['>'])).map
    fun r ↦ r.1.map Prod.fst).getD []

/-- A tag whose white space outside of quotes is that of HTML. If it opens an element, then without
directives, and its name is not spelled otherwise by an attribute. -/
@[mk_iff]
structure Tag.IsStatic (t : Tag) : Prop where
  spaces : ∀ c ∈ outsideQuotes none t.attributes ++ t.gap,
    Text.isBlank c = true → Markup.Lexer.isSpace c = true
  names : t.closing = false →
    ∀ name ∈ t.attributeNames, isDirective name = false ∧ name ≠ spellingAttribute

instance (t : Tag) : Decidable t.IsStatic :=
  -- over the characters of the tag, not over all that there are
  have : Decidable (∀ c ∈ outsideQuotes none t.attributes ++ t.gap,
      Text.isBlank c = true → Markup.Lexer.isSpace c = true) :=
    @List.decidableBAll Char (fun c ↦ Text.isBlank c = true → Markup.Lexer.isSpace c = true) _ _
  decidable_of_iff' _ t.isStatic_iff

end Nodecraft.Template
