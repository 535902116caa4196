import Nodecraft.Proofs.Markup.Scanning
import Nodecraft.Proofs.Template.TagBalance

/-!
# Preparing tags

Before markup is read as HTML, a first pass puts two tags in place of each one that closes itself, and
a second one notes names with capitals in an attribute. Each pass finds the tags of the text that the
one before it leaves. Neither makes or breaks a tag, so both can be done at once
(`markedTags_closedTags`).

HTML then finds the same tags as before, but for those changes (`passes_keep_tags`), if it reads each
tag the way it is meant (`Tag.IsPlain`). One tag it does not: a void element with a capital in its name,
and a slash that only white space keeps apart from an unquoted value. The second pass leaves that
space out, and the slash ends up in the value (`slash_joins_value`).
-/

set_option autoImplicit false

namespace Nodecraft.Template

open Markup (Token)
open Markup.Lexer (scan Scans lowered tagEnd)

/-! ### The two passes -/

/-- Two tags for one that closes itself. -/
def Piece.closed : Piece → List Piece
  | .tag t => t.closed.map .tag
  | .char c => [.char c]

/-- A tag with its name noted, if it has capitals. -/
def Piece.marked : Piece → Piece
  | .tag t => .tag t.marked
  | .char c => .char c

def closedTags (cs : List Char) : List Char :=
  ((pieces cs).flatMap Piece.closed).flatMap Piece.text

def markedTags (cs : List Char) : List Char := ((pieces cs).map Piece.marked).flatMap Piece.text

namespace Tag

/-- Whether a tag is replaced by two. -/
def closesItself (t : Tag) : Bool := !t.closing && t.selfClosing && !t.isVoid

def opener (t : Tag) : Tag := ⟨false, t.name, t.attributes, [], false⟩

def closer (t : Tag) : Tag := ⟨true, t.name, [], [], false⟩

/-- A tag that closes itself becomes two. -/
theorem closed_eq_two {t : Tag} (h : t.closesItself = true) : t.closed = [t.opener, t.closer] :=
  if_pos h

theorem closed_eq_one {t : Tag} (h : ¬t.closesItself = true) : t.closed = [t] := if_neg h

/-- Both of them are well formed. -/
theorem IsWellFormed.opener {t : Tag} (ht : t.IsWellFormed) : t.opener.IsWellFormed :=
  ⟨ht.name, ht.attributes, fun _ h ↦ absurd h List.not_mem_nil⟩

theorem IsWellFormed.closer {t : Tag} (ht : t.IsWellFormed) : t.closer.IsWellFormed :=
  ⟨ht.name, .nil, fun _ h ↦ absurd h List.not_mem_nil⟩

/-- A tag that is found in one place is found in any other. -/
theorem read?_of_most {t : Tag} (ht : t.IsWellFormed) {behind : List Char}
    (hmost : ∀ t' rest', IsWellFormed t' → t.text ++ behind = t'.text ++ rest' →
      t'.attributes.length ≤ t.attributes.length) (rest : List Char) :
    read? (t.text ++ rest) = some (t, rest) := by
  rcases read?_complete ht rest with hread | ⟨hgap, hclosing, hread⟩
  · exact hread
  · have htext : t.text ++ behind = t.slashed.text ++ behind := by rw [text_slashed hgap hclosing]
    have hle := hmost _ _ (read?_sound hread).1 htext
    simp only [slashed, List.length_append, List.length_singleton] at hle
    exact absurd hle (Nat.not_succ_le_self _)

/-- A tag that does not close itself is found wherever it is well formed. -/
theorem read?_of_open {t : Tag} (ht : t.IsWellFormed) (hopen : t.selfClosing = false)
    (rest : List Char) : read? (t.text ++ rest) = some (t, rest) := by
  rcases read?_complete ht rest with hread | ⟨-, hclosing, -⟩
  · exact hread
  · rw [hopen] at hclosing
    cases hclosing

end Tag

/-- A tag that is read is a piece. -/
theorem Tiles.tag_of_read? {rest : List Char} {t : Tag} {ps : List Piece}
    (h : Tag.read? (t.text ++ rest) = some (t, rest)) (hrest : Tiles rest ps) :
    Tiles (t.text ++ rest) (.tag t :: ps) := by
  obtain ⟨ht, -, hmost⟩ := Tag.read?_eq_some.1 h
  exact .tag ht rfl (fun t' rest' ht' heq ↦ (hmost t' rest' ht' heq).2) hrest

/-- A well-formed tag begins like one. -/
theorem Tag.IsWellFormed.beginsTag {t : Tag} (ht : t.IsWellFormed) (rest : List Char) :
    BeginsTag (t.text ++ rest) := by
  obtain ⟨c, cs, hname, hc, -⟩ := ht.name
  rw [Tag.text_eq, hname]
  cases t.closing with
  | true => exact ⟨c, _, hc, .inr rfl⟩
  | false => exact ⟨c, _, hc, .inl rfl⟩

/-- Characters stand where they stood. -/
theorem eq_char_cons_of_closed {ps rest : List Piece} {c : Char}
    (h : ps.flatMap Piece.closed = .char c :: rest) :
    ∃ more, ps = .char c :: more ∧ rest = more.flatMap Piece.closed := by
  cases ps with
  | nil => cases h
  | cons p ps =>
    rw [List.flatMap_cons] at h
    cases p with
    | char d =>
      obtain ⟨hc, rfl⟩ := List.cons.inj h
      obtain rfl := Piece.char.inj hc
      exact ⟨ps, rfl, rfl⟩
    | tag t =>
      change t.closed.map Piece.tag ++ _ = _ at h
      by_cases hcloses : t.closesItself = true
      · rw [Tag.closed_eq_two hcloses] at h
        cases (List.cons.inj h).1
      · rw [Tag.closed_eq_one hcloses] at h
        cases (List.cons.inj h).1

/-- No character comes to begin a tag. -/
theorem beginsTag_of_closed {c : Char} {ps : List Piece}
    (h : BeginsTag (c :: (ps.flatMap Piece.closed).flatMap Piece.text)) :
    BeginsTag (c :: ps.flatMap Piece.text) := by
  obtain ⟨d, rest, hd, heq | heq⟩ := h
  · obtain ⟨rfl, htext⟩ := List.cons.inj heq
    obtain ⟨more, hmore, -⟩ := eq_char_cons htext (ne_bracket_of_isAlpha hd)
    obtain ⟨ps, rfl, -⟩ := eq_char_cons_of_closed hmore
    exact ⟨d, _, hd, .inl rfl⟩
  · obtain ⟨rfl, htext⟩ := List.cons.inj heq
    obtain ⟨more, hmore, hname⟩ := eq_char_cons htext (by decide)
    obtain ⟨ps, rfl, rfl⟩ := eq_char_cons_of_closed hmore
    obtain ⟨more, hmore, -⟩ := eq_char_cons hname (ne_bracket_of_isAlpha hd)
    obtain ⟨ps, rfl, -⟩ := eq_char_cons_of_closed hmore
    exact ⟨d, _, hd, .inr rfl⟩

/-- The second pass finds the tags that the first one leaves. -/
theorem tiles_closed {cs : List Char} {ps : List Piece} (h : Tiles cs ps)
    (hformed : malformed? ps = none) :
    Tiles ((ps.flatMap Piece.closed).flatMap Piece.text) (ps.flatMap Piece.closed) := by
  induction h with
  | nil => exact .nil
  | @tag cs rest t ps ht hcs hmost _ ih =>
    have hrest := ih (malformed?_cons.1 hformed).2
    subst hcs
    rw [List.flatMap_cons, List.flatMap_append]
    change Tiles ((t.closed.map Piece.tag).flatMap Piece.text ++ _) (t.closed.map Piece.tag ++ _)
    by_cases hcloses : t.closesItself = true
    · -- neither of the two tags closes itself
      have htail := Tiles.tag_of_read? (Tag.read?_of_open ht.closer rfl _) hrest
      have hall := Tiles.tag_of_read? (Tag.read?_of_open ht.opener rfl _) htail
      rw [Tag.closed_eq_two hcloses]
      simpa only [List.map_cons, List.map_nil, List.flatMap_cons, List.flatMap_nil, Piece.text,
        List.append_nil, List.append_assoc, List.cons_append, List.nil_append] using hall
    · have hall := Tiles.tag_of_read? (Tag.read?_of_most ht hmost _) hrest
      rw [Tag.closed_eq_one hcloses]
      simpa only [List.map_cons, List.map_nil, List.flatMap_cons, List.flatMap_nil, Piece.text,
        List.append_nil, List.cons_append, List.nil_append] using hall
  | @char c cs ps _ hps ih =>
    obtain ⟨hbegins, hmore⟩ := malformed?_cons.1 hformed
    refine .char (fun t rest ht heq ↦ ?_) (ih hmore)
    have hbegin := ht.beginsTag rest
    rw [← heq] at hbegin
    rw [beginsTag_iff.2 (beginsTag_of_closed hbegin)] at hbegins
    cases hbegins

/-- The passes can be done at once. -/
theorem markedTags_closedTags {cs : List Char} (h : malformed? (pieces cs) = none) :
    markedTags (closedTags cs) = (pieces cs).flatMap Piece.prepared := by
  have hpieces : pieces (closedTags cs) = (pieces cs).flatMap Piece.closed :=
    (tiles_pieces _).unique (tiles_closed (tiles_pieces cs) h)
  unfold markedTags
  rw [hpieces, List.map_flatMap, List.flatMap_assoc]
  refine congrArg (pieces cs).flatMap (funext fun p ↦ ?_)
  cases p with
  | char c => rfl
  | tag t => simp only [Piece.closed, Piece.prepared, List.map_map, List.flatMap_map]; rfl

/-! ### Tags as HTML reads them -/

namespace Tag

/-- Characters that belong to no name are in none. -/
theorem name_ne {t : Tag} (ht : t.IsWellFormed) {c d : Char} (hd : d ∈ t.name)
    (hc : isNameChar c = false) : d ≠ c := by
  obtain ⟨e, es, hname, he, hes⟩ := ht.name
  have hchars : ∀ d ∈ e :: es, isNameChar d = true :=
    List.forall_mem_cons.2 ⟨isNameChar_of_isAlpha he, hes⟩
  rw [hname] at hd
  rintro rfl
  rw [hchars d hd] at hc
  cases hc

theorem plain_name {t : Tag} (ht : t.IsWellFormed) :
    ∀ c ∈ t.name, c ≠ '"' ∧ c ≠ '&' ∧ c ≠ '\x00' := fun _ hc ↦
  ⟨name_ne ht hc (by decide +kernel), name_ne ht hc (by decide +kernel),
    name_ne ht hc (by decide +kernel)⟩

/-- Names of tags are names of HTML. -/
theorem isTagName {t : Tag} (ht : t.IsWellFormed) : Markup.Lexer.IsTagName t.name := by
  obtain ⟨c, cs, hname, hc, -⟩ := ht.name
  refine ⟨⟨c, cs, hname, hc⟩, fun d hd ↦ ⟨Bool.eq_false_iff.2 fun hends ↦ ?_, (plain_name ht d hd).2.2⟩⟩
  simp only [Markup.Lexer.endsName, Markup.Lexer.isSpace, Bool.or_eq_true, beq_iff_eq] at hends
  rcases hends with ((((((rfl | rfl) | rfl) | rfl) | rfl) | rfl) | rfl)
  all_goals exact absurd rfl (name_ne ht hd (by decide +kernel))

/-- HTML reads the tag up to its end, with the attributes that are meant: outside of quotes its white
space is that of HTML, and no slash that ends it stands right behind an unquoted value, before or
after the passes. -/
structure IsPlain (t : Tag) (read : List (String × String)) : Prop where
  attributes : ∃ bare, Markup.Lexer.Attributes bare t.attributes read ∧
    (bare = true → t.selfClosing = true →
      t.gap ≠ [] ∧ ¬(t.isVoid = true ∧ t.name.any Char.isUpper = true))
  gap : Markup.Lexer.IsGap t.gap

/-- What HTML reads the tag as. -/
def token (t : Tag) (read : List (String × String)) : Token :=
  if t.closing then .closing (lowered t.name)
  else .opening ⟨lowered t.name, read.foldl Markup.Lexer.addAttribute [], t.selfClosing⟩

end Tag

/-- The attributes of an element, with its name noted if it has capitals. -/
def noted (name : List Char) (attributes : List (String × String)) : List (String × String) :=
  if name.any Char.isUpper then
    (spellingAttribute, String.ofList name) :: attributes.filter fun a ↦ a.1 != spellingAttribute
  else attributes

/-- What becomes of a tag that is written with a name. -/
def rewritten (name : List Char) : Token → List Token
  | .opening tag =>
    if tag.selfClosing && !View.isVoid (String.ofList name) then
      [.opening ⟨tag.name, noted name tag.attributes, false⟩, .closing tag.name]
    else [.opening ⟨tag.name, noted name tag.attributes, tag.selfClosing⟩]
  | token => [token]

/-- Of two attributes with one name the first one counts. -/
theorem foldl_addAttribute_cons (key value : String) (read : List (String × String)) :
    ((key, value) :: read).foldl Markup.Lexer.addAttribute [] =
      (key, value) :: (read.foldl Markup.Lexer.addAttribute []).filter fun a ↦ a.1 != key := by
  have hadd (acc : List (String × String)) (a : String × String) :
      Markup.Lexer.addAttribute ((key, value) :: acc.filter fun a ↦ a.1 != key) a =
        (key, value) :: (Markup.Lexer.addAttribute acc a).filter fun a ↦ a.1 != key := by
    unfold Markup.Lexer.addAttribute
    by_cases hkey : a.1 = key
    · rw [if_pos (by simp [hkey])]
      split
      · rfl
      · simp [hkey]
    · have hany : ((key, value) :: acc.filter fun a ↦ a.1 != key).any (fun b ↦ b.1 == a.1) =
          acc.any fun b ↦ b.1 == a.1 := by
        rw [Bool.eq_iff_iff]
        simp only [List.any_cons, Bool.or_eq_true, beq_iff_eq, List.any_eq_true, List.mem_filter,
          bne_iff_ne]
        constructor
        · rintro (heq | ⟨b, ⟨hb, -⟩, heq⟩)
          · exact absurd heq.symm hkey
          · exact ⟨b, hb, heq⟩
        · rintro ⟨b, hb, heq⟩
          exact .inr ⟨b, ⟨hb, by rwa [heq]⟩, heq⟩
      rw [hany]
      split
      · rfl
      · simp [hkey]
  have hfold (read acc : List (String × String)) :
      read.foldl Markup.Lexer.addAttribute ((key, value) :: acc.filter fun a ↦ a.1 != key) =
        (key, value) ::
          (read.foldl Markup.Lexer.addAttribute acc).filter fun a ↦ a.1 != key := by
    induction read generalizing acc with
    | nil => rfl
    | cons a read ih => rw [List.foldl_cons, List.foldl_cons, hadd, ih]
  exact hfold read []

section

variable {t : Tag} {read : List (String × String)} {rest : List Char} {tags : List Token}

theorem Tag.text_append (t : Tag) (rest : List Char) : t.text ++ rest =
    '<' :: ((if t.closing then ['/'] else []) ++
      (t.name ++ (t.attributes ++ tagEnd t.gap t.selfClosing rest))) := by
  rw [Tag.text_eq]
  simp [Tag.ending, tagEnd]

/-- A well-formed tag is scanned as one. -/
theorem scans_tag (hread : Markup.Lexer.IsTag t.name t.attributes t.gap t.selfClosing read)
    (hrest : Scans rest tags) : Scans (t.text ++ rest) (t.token read :: tags) := by
  rw [Tag.text_append]
  unfold Tag.token
  cases t.closing with
  | true => exact Scans.closing hread hrest
  | false => exact Scans.opening hread hrest

/-- A name with capitals is noted in front of the other attributes. -/
theorem Tag.marked_of_noted (hclosing : t.closing = false) (h : t.name.any Char.isUpper = true) :
    t.marked = { t with
      attributes := ' ' :: (spellingAttribute.toList ++ '=' :: '"' :: (t.name ++ '"' :: t.attributes))
      gap := [] } := by
  unfold Tag.marked
  rw [hclosing, h]
  simp

theorem isName_spelling : Markup.Lexer.IsName spellingAttribute.toList :=
  ⟨by decide, List.all_eq_true.1 (by decide)⟩

/-- The note of a name is an attribute in front of the others. -/
theorem Tag.attributes_noted (ht : t.IsWellFormed) {bare : Bool} {attributes : List Char}
    (h : Markup.Lexer.Attributes bare attributes read) :
    Markup.Lexer.Attributes bare
      (' ' :: (spellingAttribute.toList ++ '=' :: '"' :: (t.name ++ '"' :: attributes)))
      ((spellingAttribute, String.ofList t.name) :: read) := by
  have hlowered : lowered spellingAttribute.toList = spellingAttribute := by decide
  have hnoted := h.noted isName_spelling (Tag.plain_name ht)
  rwa [hlowered] at hnoted

/-- A tag with its name noted is read with the note in front of its attributes. -/
theorem scans_marked (ht : t.IsWellFormed) (hclosing : t.closing = false)
    (hread : Markup.Lexer.IsTag t.name t.attributes t.gap t.selfClosing read)
    (hslash : t.selfClosing = true → t.name.any Char.isUpper = true →
      Markup.Lexer.Attributes false t.attributes read) (hrest : Scans rest tags) :
    Scans (t.marked.text ++ rest) (.opening ⟨lowered t.name,
      noted t.name (read.foldl Markup.Lexer.addAttribute []), t.selfClosing⟩ :: tags) := by
  unfold noted
  cases hupper : t.name.any Char.isUpper with
  | false =>
    have hsame : t.marked = t := by
      unfold Tag.marked
      rw [hclosing, hupper]
      rfl
    have hscans := scans_tag hread hrest
    unfold Tag.token at hscans
    rw [hclosing] at hscans
    rw [hsame]
    exact hscans
  | true =>
    -- where a slash follows, no unquoted value is before it
    have hattributes : ∃ bare, Markup.Lexer.Attributes bare t.attributes read ∧
        (bare = true → t.selfClosing = false) := by
      obtain ⟨bare, hattributes, -⟩ := hread.attributes
      cases hself : t.selfClosing with
      | false => exact ⟨bare, hattributes, fun _ ↦ rfl⟩
      | true => exact ⟨false, hslash hself hupper, fun h ↦ absurd h Bool.false_ne_true⟩
    obtain ⟨bare, hattributes, hbare⟩ := hattributes
    have hnoted := Tag.attributes_noted ht hattributes
    have hread' : Markup.Lexer.IsTag t.marked.name t.marked.attributes t.marked.gap
        t.marked.selfClosing ((spellingAttribute, String.ofList t.name) :: read) := by
      rw [Tag.marked_of_noted hclosing hupper]
      refine ⟨hread.name, ⟨bare, hnoted, fun h hself ↦ ?_⟩, fun _ h ↦ absurd h List.not_mem_nil⟩
      rw [hbare h] at hself
      cases hself
    have hscans := scans_tag hread' hrest
    unfold Tag.token at hscans
    rw [foldl_addAttribute_cons] at hscans
    rw [if_pos rfl]
    have hmarked : t.marked.closing = false ∧ t.marked.name = t.name ∧
        t.marked.selfClosing = t.selfClosing := by
      rw [Tag.marked_of_noted hclosing hupper]
      exact ⟨hclosing, rfl, rfl⟩
    rwa [hmarked.1, hmarked.2.1, hmarked.2.2] at hscans

/-- What the passes leave of a tag is read as the tag, closed and noted. -/
theorem scans_prepared (ht : t.IsWellFormed) (hread : t.IsPlain read) (hrest : Scans rest tags) :
    Scans ((Piece.tag t).prepared ++ rest) (rewritten t.name (t.token read) ++ tags) := by
  obtain ⟨bare, hattributes, hslash⟩ := hread.attributes
  have htag : Markup.Lexer.IsTag t.name t.attributes t.gap t.selfClosing read :=
    ⟨Tag.isTagName ht, ⟨bare, hattributes, fun hb hs ↦ (hslash hb hs).1⟩, hread.gap⟩
  change Scans (t.closed.flatMap (fun t ↦ t.marked.text) ++ rest) _
  by_cases hcloses : t.closesItself = true
  · obtain ⟨⟨hclosing, hself⟩, hvoid⟩ : (t.closing = false ∧ t.selfClosing = true) ∧
        t.isVoid = false := by simpa [Tag.closesItself] using hcloses
    have hnone : Markup.Lexer.IsGap [] := fun _ h ↦ absurd h List.not_mem_nil
    have hcloser : Markup.Lexer.IsTag t.name [] [] false [] :=
      ⟨htag.name, ⟨false, .nil, fun h ↦ absurd h Bool.false_ne_true⟩, hnone⟩
    have hopener : Markup.Lexer.IsTag t.name t.attributes [] false read :=
      ⟨htag.name, ⟨bare, hattributes, fun _ h ↦ absurd h Bool.false_ne_true⟩, hnone⟩
    have htail : Scans (t.closer.text ++ rest) (.closing (lowered t.name) :: tags) :=
      scans_tag hcloser hrest
    have hscans := scans_marked ht.opener rfl hopener (fun h ↦ absurd h Bool.false_ne_true) htail
    have htoken : rewritten t.name (t.token read) =
        [.opening ⟨lowered t.name, noted t.name (read.foldl Markup.Lexer.addAttribute []), false⟩,
          .closing (lowered t.name)] := by
      unfold Tag.token
      rw [hclosing, hself]
      exact if_pos (by rw [show View.isVoid (String.ofList t.name) = false from hvoid]; rfl)
    have hmarked : t.closer.marked = t.closer := rfl
    rw [Tag.closed_eq_two hcloses, htoken, List.flatMap_cons, List.flatMap_singleton, hmarked,
      List.append_assoc]
    exact hscans
  · rw [Tag.closed_eq_one hcloses, List.flatMap_singleton]
    cases hclosing : t.closing with
    | true =>
      have hmarked : t.marked = t := by
        unfold Tag.marked
        rw [hclosing]
        rfl
      have hscans := scans_tag htag hrest
      unfold Tag.token at hscans ⊢
      rw [hclosing] at hscans ⊢
      rw [hmarked]
      exact hscans
    | false =>
      have hvoid : t.selfClosing = true → t.isVoid = true := fun hself ↦ by
        simpa [Tag.closesItself, hclosing, hself] using hcloses
      have hquoted : t.selfClosing = true → t.name.any Char.isUpper = true →
          Markup.Lexer.Attributes false t.attributes read := by
        intro hself hupper
        cases bare with
        | false => exact hattributes
        | true => exact absurd ⟨hvoid hself, hupper⟩ (hslash rfl hself).2
      have htoken : rewritten t.name (t.token read) = [.opening ⟨lowered t.name,
          noted t.name (read.foldl Markup.Lexer.addAttribute []), t.selfClosing⟩] := by
        unfold Tag.token
        rw [hclosing]
        refine if_neg fun h ↦ ?_
        obtain ⟨hself, hnone⟩ := Bool.and_eq_true_iff.1 h
        rw [show View.isVoid (String.ofList t.name) = true from hvoid hself] at hnone
        cases hnone
      rw [htoken]
      exact scans_marked ht hclosing htag hquoted hrest

end

/-! ### Comments and declarations -/

/-- Between the tags of a text, no bracket begins a comment or a declaration but one that has no tag
in it. -/
inductive Apart : List Piece → Prop
  | nil : Apart []
  | tag {t : Tag} {ps : List Piece} : Apart ps → Apart (.tag t :: ps)
  | char {c : Char} {ps : List Piece} :
    (c = '<' → ∀ d more, ps = .char d :: more → d ≠ '/' ∧ d ≠ '!' ∧ d ≠ '?') → Apart ps →
    Apart (.char c :: ps)
  | hidden {body : List Char} {ps : List Piece} :
    (∀ rest, ∃ tokens mode, Markup.Lexer.bracketStep false (body ++ rest) = ⟨tokens, mode, rest⟩ ∧
      tokens.filter Token.isTag = []) → Apart ps →
    Apart (('<' :: body).map .char ++ ps)

/-- Comments and declarations hold no tags. -/
theorem Scans.hidden {body rest : List Char} {tags : List Token}
    (h : ∃ tokens mode, Markup.Lexer.bracketStep false (body ++ rest) = ⟨tokens, mode, rest⟩ ∧
      tokens.filter Token.isTag = []) (hrest : Scans rest tags) :
    Scans ('<' :: (body ++ rest)) tags := by
  obtain ⟨tokens, mode, hstep, hnone⟩ := h
  have hscans := Scans.bracket hstep (by rw [List.length_append]; omega) hrest
  rwa [hnone, List.nil_append] at hscans

theorem exists_prepared (t : Tag) : ∃ more, (Piece.tag t).prepared = '<' :: more := by
  have hmarked (t : Tag) (behind : List Char) : ∃ more, t.marked.text ++ behind = '<' :: more :=
    ⟨_, Tag.text_append t.marked behind⟩
  change ∃ more, t.closed.flatMap (fun t ↦ t.marked.text) = '<' :: more
  by_cases hcloses : t.closesItself = true
  · rw [Tag.closed_eq_two hcloses, List.flatMap_cons]
    exact hmarked _ _
  · rw [Tag.closed_eq_one hcloses, List.flatMap_cons]
    exact hmarked _ _

/-- The end of well-formed pieces is well formed. -/
theorem malformed?_of_append {ps more : List Piece} (h : malformed? (ps ++ more) = none) :
    malformed? more = none := by
  induction ps with
  | nil => exact h
  | cons p ps ih => exact ih (malformed?_cons.1 h).2

/-- A bracket in a text begins no markup, neither before nor after the passes. -/
theorem not_beginsMarkup {ps : List Piece} (hformed : malformed? (.char '<' :: ps) = none)
    (hapart : ∀ d more, ps = .char d :: more → d ≠ '/' ∧ d ≠ '!' ∧ d ≠ '?')
    {write : Piece → List Char} (hchar : ∀ d, write (.char d) = [d])
    (htag : ∀ t, ∃ more, write (.tag t) = '<' :: more) :
    ∀ c ∈ (ps.flatMap write).head?, Markup.Lexer.beginsMarkup c = false := by
  intro c hc
  cases ps with
  | nil => cases hc
  | cons p ps =>
    cases p with
    | tag t =>
      obtain ⟨more, hmore⟩ := htag t
      rw [List.flatMap_cons, hmore] at hc
      obtain rfl := Option.some.inj hc
      decide
    | char d =>
      rw [List.flatMap_cons, hchar] at hc
      obtain rfl := Option.some.inj hc
      obtain ⟨hslash, hbang, hquestion⟩ := hapart _ _ rfl
      have hbegins := (malformed?_cons.1 hformed).1
      have halpha : d.isAlpha = false := by
        unfold beginsTag at hbegins
        split at hbegins
        · rename_i heq
          exact absurd (Piece.char.inj (List.cons.inj (List.cons.inj heq).2).1) hslash
        · rename_i heq
          obtain rfl := Piece.char.inj (List.cons.inj (List.cons.inj heq).2).1
          exact hbegins
        · rename_i hnone
          exact (hnone d ps rfl).elim
      unfold Markup.Lexer.beginsMarkup
      rw [halpha, beq_false_of_ne hslash, beq_false_of_ne hbang, beq_false_of_ne hquestion]
      rfl

/-- The tags of a text, in order. -/
def tagsOf (ps : List Piece) : List Tag := ps.filterMap Piece.tag?

theorem tagsOf_chars (cs : List Char) (ps : List Piece) : tagsOf (cs.map .char ++ ps) = tagsOf ps := by
  induction cs with
  | nil => rfl
  | cons c cs ih => exact ih

theorem flatMap_chars {write : Piece → List Char} (hchar : ∀ d, write (.char d) = [d])
    (cs : List Char) (ps : List Piece) :
    (cs.map Piece.char ++ ps).flatMap write = cs ++ ps.flatMap write := by
  induction cs with
  | nil => rfl
  | cons c cs ih => rw [List.map_cons, List.cons_append, List.flatMap_cons, hchar, ih]; rfl

/-- The tags that HTML finds before the passes and after them. -/
theorem Apart.scans {ps : List Piece} (h : Apart ps) (hformed : malformed? ps = none)
    (htags : ∀ t ∈ tagsOf ps, t.IsWellFormed ∧ ∃ read, t.IsPlain read) :
    ∃ tags, Scans (ps.flatMap Piece.text) tags ∧
      tags.map Token.tagName = (tagsOf ps).map (fun t ↦ lowered t.name) ∧
      Scans (ps.flatMap Piece.prepared)
        (List.zipWith rewritten ((tagsOf ps).map Tag.name) tags).flatten := by
  induction h with
  | nil => exact ⟨[], .nil, rfl, .nil⟩
  | @tag t ps _ ih =>
    obtain ⟨⟨ht, read, hread⟩, hmore⟩ := List.forall_mem_cons.1 htags
    obtain ⟨tags, hscans, hnames, hprepared⟩ := ih (malformed?_cons.1 hformed).2 hmore
    obtain ⟨bare, hattributes, hslash⟩ := hread.attributes
    have htag : Markup.Lexer.IsTag t.name t.attributes t.gap t.selfClosing read :=
      ⟨Tag.isTagName ht, ⟨bare, hattributes, fun hb hs ↦ (hslash hb hs).1⟩, hread.gap⟩
    have hname : (t.token read).tagName = lowered t.name := by
      unfold Tag.token
      split <;> rfl
    refine ⟨t.token read :: tags, scans_tag htag hscans, ?_, ?_⟩
    · rw [List.map_cons, hname, hnames]
      rfl
    · exact scans_prepared ht hread hprepared
  | @char c ps hapart _ ih =>
    obtain ⟨tags, hscans, hnames, hprepared⟩ := ih (malformed?_cons.1 hformed).2 htags
    by_cases hc : c = '<'
    · subst hc
      refine ⟨tags, hscans.text ?_, hnames, hprepared.text ?_⟩
      · exact not_beginsMarkup hformed (hapart rfl) (fun _ ↦ rfl) fun t ↦ ⟨_, Tag.text_eq t⟩
      · exact not_beginsMarkup hformed (hapart rfl) (fun _ ↦ rfl) exists_prepared
    · exact ⟨tags, .char hc hscans, hnames, .char hc hprepared⟩
  | @hidden body ps hhidden _ ih =>
    rw [tagsOf_chars] at htags ⊢
    obtain ⟨tags, hscans, hnames, hprepared⟩ := ih (malformed?_of_append hformed) htags
    refine ⟨tags, ?_, hnames, ?_⟩
    · rw [flatMap_chars fun _ ↦ rfl]
      exact Scans.hidden (hhidden _) hscans
    · rw [flatMap_chars fun _ ↦ rfl]
      exact Scans.hidden (hhidden _) hprepared

/-- All tags of a tiled text are well formed. -/
theorem Tiles.isWellFormed {cs : List Char} {ps : List Piece} (h : Tiles cs ps) :
    ∀ t ∈ tagsOf ps, t.IsWellFormed := by
  induction h with
  | nil => exact fun _ h ↦ absurd h List.not_mem_nil
  | tag ht _ _ _ ih => exact List.forall_mem_cons.2 ⟨ht, ih⟩
  | char _ _ ih => exact ih

/-! ### White space -/

theorem isBareChar_ends {c : Char} (h : Tag.isBareChar c = true) :
    Markup.Lexer.endsValue c = false := by
  obtain ⟨hblank, -, -, -, -, hend, -⟩ := Tag.isBareChar_iff.1 h
  have hspace : Markup.Lexer.isSpace c = false := by
    refine Bool.eq_false_iff.2 fun hc ↦ absurd hblank ?_
    simp only [Markup.Lexer.isSpace, Bool.or_eq_true, beq_iff_eq] at hc
    rcases hc with (((rfl | rfl) | rfl) | rfl) | rfl
    all_goals decide
  unfold Markup.Lexer.endsValue
  rw [hspace, beq_false_of_ne hend]
  rfl

theorem isAttributeChar_named {c : Char} (h : Tag.isAttributeChar c = true) :
    Markup.Lexer.isNamed c = true := by
  obtain ⟨hblank, -, -, -, hend, hslash, hequals⟩ := Tag.isAttributeChar_iff.1 h
  have hspace : Markup.Lexer.isSpace c = false := by
    refine Bool.eq_false_iff.2 fun hc ↦ absurd hblank ?_
    simp only [Markup.Lexer.isSpace, Bool.or_eq_true, beq_iff_eq] at hc
    rcases hc with (((rfl | rfl) | rfl) | rfl) | rfl
    all_goals decide
  exact Markup.Lexer.isNamed_iff.2 ⟨hspace, hslash, hend, hequals⟩

/-- What of a text is not within quotes, from within the quotes of a kind or outside of any. -/
def outsideQuotes : Option Char → List Char → List Char
  | _, [] => []
  | none, c :: cs => if c = '"' ∨ c = '\'' then outsideQuotes (some c) cs else c :: outsideQuotes none cs
  | some q, c :: cs => outsideQuotes (if c = q then none else some q) cs

/-- Text without quotes is outside of them. -/
theorem outsideQuotes_append {cs : List Char} (hcs : ∀ c ∈ cs, c ≠ '"' ∧ c ≠ '\'') (more : List Char) :
    outsideQuotes none (cs ++ more) = cs ++ outsideQuotes none more := by
  induction cs with
  | nil => rfl
  | cons c cs ih =>
    obtain ⟨⟨hdouble, hsingle⟩, hcs⟩ := List.forall_mem_cons.1 hcs
    rw [List.cons_append, outsideQuotes, if_neg (not_or.2 ⟨hdouble, hsingle⟩), ih hcs, List.cons_append]

/-- Quotes end where the one that began them comes again. -/
theorem outsideQuotes_quoted {q : Char} (hq : q = '"' ∨ q = '\'') {inner : List Char} (hinner : q ∉ inner)
    (more : List Char) : outsideQuotes none (q :: (inner ++ q :: more)) = outsideQuotes none more := by
  have hinside : outsideQuotes (some q) (inner ++ q :: more) = outsideQuotes none more := by
    induction inner with
    | nil => rw [List.nil_append, outsideQuotes, if_pos rfl]
    | cons c inner ih =>
      obtain ⟨hne, hinner⟩ := not_or.1 (mt List.mem_cons.2 hinner)
      rw [List.cons_append, outsideQuotes, if_neg (Ne.symm hne), ih hinner]
  rw [outsideQuotes, if_pos hq, hinside]

/-- White space and names are outside of quotes. -/
theorem Tag.IsGap.ne_quote {gap : List Char} (hgap : Tag.IsGap gap) :
    ∀ c ∈ gap, c ≠ '"' ∧ c ≠ '\'' := by
  intro c hc
  have hblank := hgap c hc
  constructor
  all_goals
    rintro rfl
    exact absurd hblank (by decide)

theorem Tag.IsAttributeName.ne_quote {name : List Char} (hname : Tag.IsAttributeName name) :
    ∀ c ∈ name, c ≠ '"' ∧ c ≠ '\'' := fun c hc ↦
  have hchar := Tag.isAttributeChar_iff.1 (hname.2 c hc)
  ⟨hchar.2.1, hchar.2.2.1⟩

/-- A value is in quotes or outside of any. -/
theorem Tag.IsValue.outsideQuotes_eq {value : List Char} (h : Tag.IsValue value) (more : List Char) :
    ∃ bare, outsideQuotes none (value ++ more) = bare ++ outsideQuotes none more := by
  cases h with
  | @quoted q inner hq hinner =>
    refine ⟨[], ?_⟩
    rw [show q :: inner ++ [q] ++ more = q :: (inner ++ q :: more) by simp]
    exact outsideQuotes_quoted hq hinner more
  | bare hcs =>
    refine ⟨_, outsideQuotes_append (fun d hd ↦ ?_) more⟩
    obtain ⟨-, hdouble, hsingle, -⟩ := Tag.isBareChar_iff.1 (hcs d hd)
    exact ⟨hdouble, hsingle⟩

/-- Of an attribute with a value, what is outside of quotes is all but the text in them. -/
theorem Tag.IsValue.outsideQuotes_assigned {gap name before after value : List Char}
    (hgap : Tag.IsGap gap) (hname : Tag.IsAttributeName name) (hbefore : Tag.IsGap before)
    (hafter : Tag.IsGap after) (hvalue : Tag.IsValue value) (more : List Char) :
    ∃ bare, outsideQuotes none (gap ++ name ++ (before ++ '=' :: after ++ value) ++ more) =
      gap ++ (name ++ (before ++ '=' :: (after ++ (bare ++ outsideQuotes none more)))) := by
  obtain ⟨bare, hbare⟩ := hvalue.outsideQuotes_eq more
  refine ⟨bare, ?_⟩
  simp only [List.append_assoc, List.cons_append]
  rw [outsideQuotes_append hgap.ne_quote, outsideQuotes_append hname.ne_quote,
    outsideQuotes_append hbefore.ne_quote, outsideQuotes, if_neg (by decide),
    outsideQuotes_append hafter.ne_quote, hbare]

/-- A slash after a value without quotes belongs to it. -/
theorem Tag.IsAttribute.slashed {gap name before after : List Char} {c : Char} {cs : List Char}
    (hne : gap ≠ []) (hgap : Tag.IsGap gap) (hname : Tag.IsAttributeName name)
    (hbefore : Tag.IsGap before) (hafter : Tag.IsGap after)
    (hcs : ∀ d ∈ c :: cs, Tag.isBareChar d = true) :
    Tag.IsAttribute (gap ++ name ++ (before ++ '=' :: after ++ c :: cs) ++ ['/']) := by
  have hslashed : ∀ d ∈ c :: (cs ++ ['/']), Tag.isBareChar d = true := by
    rw [← List.cons_append]
    refine List.forall_mem_append.2 ⟨hcs, fun d hd ↦ ?_⟩
    rw [List.mem_singleton.1 hd]
    decide
  simpa only [List.append_assoc, List.cons_append] using
    Tag.IsAttribute.assigned hne hgap hname hbefore hafter (.bare hslashed)

/-- Attributes that have no white space outside of quotes but that of HTML are read as they are meant. -/
theorem Tag.AreAttributes.exists_read {attributes : List Char} (h : Tag.AreAttributes attributes)
    (hspaces : ∀ c ∈ outsideQuotes none attributes, Text.isBlank c = true → Markup.Lexer.isSpace c = true) :
    ∃ bare read, Markup.Lexer.Attributes bare attributes read ∧
      (bare = true → Tag.AreAttributes (attributes ++ ['/'])) := by
  have hgaps {gap : List Char} (hgap : Tag.IsGap gap)
      (hcs : ∀ c ∈ gap, Text.isBlank c = true → Markup.Lexer.isSpace c = true) :
      Markup.Lexer.IsGap gap := fun c hc ↦ hcs c hc (hgap c hc)
  induction h with
  | nil => exact ⟨false, [], .nil, fun h ↦ absurd h Bool.false_ne_true⟩
  | @cons a more ha hmore ih =>
    have hlater {bare : Bool} (hslash : bare = true → Tag.AreAttributes (more ++ ['/']))
        (hbare : bare = true) : Tag.AreAttributes (a ++ more ++ ['/']) := by
      rw [List.append_assoc]
      exact .cons ha (hslash hbare)
    cases ha with
    | @alone gap name hne hgap hname =>
      rw [List.append_assoc, outsideQuotes_append hgap.ne_quote,
        outsideQuotes_append hname.ne_quote] at hspaces
      obtain ⟨hfirst, hspaces⟩ := List.forall_mem_append.1 hspaces
      obtain ⟨bare, read, hattributes, hslash⟩ := ih (List.forall_mem_append.1 hspaces).2
      have hall := Markup.Lexer.Attributes.alone hne (hgaps hgap hfirst)
        ⟨hname.1, fun c hc ↦ isAttributeChar_named (hname.2 c hc)⟩ hattributes
      exact ⟨bare, _, by rwa [List.append_assoc], hlater hslash⟩
    | @assigned gap name before after value hne hgap hname hbefore hafter hvalue =>
      have hnamed : Markup.Lexer.IsName name :=
        ⟨hname.1, fun c hc ↦ isAttributeChar_named (hname.2 c hc)⟩
      obtain ⟨text, houtside⟩ := hvalue.outsideQuotes_assigned hgap hname hbefore hafter more
      rw [houtside] at hspaces
      simp only [List.forall_mem_append, List.forall_mem_cons] at hspaces
      obtain ⟨hgap', -, hbefore', -, hafter', -, hrest⟩ := hspaces
      replace hgap' := hgaps hgap hgap'
      replace hbefore' := hgaps hbefore hbefore'
      replace hafter' := hgaps hafter hafter'
      obtain ⟨bare, read, hattributes, hslash⟩ := ih hrest
      cases hvalue with
      | @quoted q inner hq hinner =>
        have hends : Markup.endsReference q = true := by rcases hq with rfl | rfl <;> decide
        obtain ⟨value, hread⟩ := Markup.Lexer.exists_readsQuoted hends hinner
        have hall := Markup.Lexer.Attributes.quoted hne hgap' hnamed hbefore' hafter' hq hread
          hattributes
        exact ⟨bare, _, by simpa only [List.append_assoc, List.cons_append, List.nil_append] using hall,
          hlater hslash⟩
      | @bare c cs hcs =>
        obtain ⟨-, hdouble, hsingle, -⟩ := Tag.isBareChar_iff.1 (hcs c List.mem_cons_self)
        have hends : ∀ d ∈ c :: cs, Markup.Lexer.endsValue d = false :=
          fun d hd ↦ isBareChar_ends (hcs d hd)
        obtain ⟨value, hread⟩ := Markup.Lexer.exists_readsBare hends
        have hall := Markup.Lexer.Attributes.bare hne hgap' hnamed hbefore' hafter' hdouble hsingle
          hends hread hattributes
        refine ⟨_, _, by simpa only [List.append_assoc, List.cons_append] using hall, fun hlast ↦ ?_⟩
        cases more with
        | cons d more => exact hlater hslash (by simpa using hlast)
        | nil =>
          have hone := Tag.IsAttribute.slashed hne hgap hname hbefore hafter hcs
          simpa only [List.append_nil] using Tag.AreAttributes.cons hone .nil

/-- Tags are plain if they have no white space outside of quotes but that of HTML, and no void element
with a capital in its name has a slash at the end of its tag. -/
theorem Tiles.exists_plain {cs : List Char} {ps : List Piece} (h : Tiles cs ps)
    (hspaces : ∀ t ∈ tagsOf ps, ∀ c ∈ outsideQuotes none t.attributes ++ t.gap,
      Text.isBlank c = true → Markup.Lexer.isSpace c = true)
    (hvoid : ∀ t ∈ tagsOf ps, t.selfClosing = true → t.isVoid = true →
      ¬t.name.any Char.isUpper = true) : ∀ t ∈ tagsOf ps, ∃ read, t.IsPlain read := by
  induction h with
  | nil => exact fun _ h ↦ absurd h List.not_mem_nil
  | char _ _ ih => exact ih hspaces hvoid
  | @tag cs rest t ps ht hcs hmost _ ih =>
    obtain ⟨hspace, hspaces⟩ := List.forall_mem_cons.1 hspaces
    obtain ⟨hupper, hvoid⟩ := List.forall_mem_cons.1 hvoid
    obtain ⟨hspace, hgap⟩ := List.forall_mem_append.1 hspace
    refine List.forall_mem_cons.2 ⟨?_, ih hspaces hvoid⟩
    obtain ⟨bare, read, hattributes, hslash⟩ := ht.attributes.exists_read hspace
    refine ⟨read, ⟨bare, hattributes, fun hbare hself ↦ ⟨fun hnone ↦ ?_, ?_⟩⟩, ?_⟩
    · -- the slash would belong to the value
      have hslashed : t.slashed.IsWellFormed := ⟨ht.name, hslash hbare, ht.gap⟩
      have hle := hmost t.slashed rest hslashed (by rw [Tag.text_slashed hnone hself, hcs])
      simp only [Tag.slashed, List.length_append, List.length_singleton] at hle
      exact absurd hle (Nat.not_succ_le_self _)
    · exact fun hboth ↦ hupper hself hboth.1 hboth.2
    · exact fun c hc ↦ hgap c hc (ht.gap c hc)

/-! ### Tags before and after -/

/-- Of a text whose tags are well formed and nest, HTML finds the same tags before the passes and
after them, with their attributes, but that a tag that closes itself has become two, unless it is of a
void element, and that names with capitals are noted in an attribute. -/
theorem passes_keep_tags {cs : List Char} (hcheck : checkTags (pieces cs) = .ok ())
    (hapart : Apart (pieces cs)) (hplain : ∀ t ∈ tagsOf (pieces cs), ∃ read, t.IsPlain read) :
    (scan cs).map Token.tagName = (tagsOf (pieces cs)).map (fun t ↦ lowered t.name) ∧
    scan (markedTags (closedTags cs)) =
      (List.zipWith rewritten ((tagsOf (pieces cs)).map Tag.name) (scan cs)).flatten := by
  have htiles := tiles_pieces cs
  have hformed := (checkTags_eq.1 hcheck).2
  obtain ⟨tags, hscans, hnames, hprepared⟩ :=
    hapart.scans hformed fun t ht ↦ ⟨htiles.isWellFormed t ht, hplain t ht⟩
  rw [← htiles.text_eq] at hscans
  rw [hscans.scan_eq, markedTags_closedTags hformed, hprepared.scan_eq]
  exact ⟨hnames, rfl⟩

theorem commented_isApart : Apart (pieces "<Foo a=1 /><!--c--><br/>".toList) := by
  have hpieces : pieces "<Foo a=1 /><!--c--><br/>".toList =
      [.tag ⟨false, "Foo".toList, " a=1".toList, [' '], true⟩] ++ (("<!--c-->".toList.map .char) ++
        [.tag ⟨false, "br".toList, [], [], true⟩]) := by decide +kernel
  rw [hpieces]
  exact .tag (.hidden (fun rest ↦ ⟨[.comment], .markup, rfl, rfl⟩) (.tag .nil))

theorem passes_keep_tags_commented :
    checkTags (pieces "<Foo a=1 /><!--c--><br/>".toList) = .ok () ∧
    scan (markedTags (closedTags "<Foo a=1 /><!--c--><br/>".toList)) =
      [.opening ⟨"foo", [(spellingAttribute, "Foo"), ("a", "1")], false⟩, .closing "foo",
        .opening ⟨"br", [], true⟩] := by
  have hcheck : checkTags (pieces "<Foo a=1 /><!--c--><br/>".toList) = .ok () := by decide +kernel
  have hspaces : (tagsOf (pieces "<Foo a=1 /><!--c--><br/>".toList)).all (fun t ↦
      (outsideQuotes none t.attributes ++ t.gap).all fun c ↦
        !Text.isBlank c || Markup.Lexer.isSpace c) = true := by decide +kernel
  have hvoid : (tagsOf (pieces "<Foo a=1 /><!--c--><br/>".toList)).all (fun t ↦
      !(t.isVoid && t.name.any Char.isUpper)) = true := by decide +kernel
  have hplain : ∀ t ∈ tagsOf (pieces "<Foo a=1 /><!--c--><br/>".toList), ∃ read, t.IsPlain read := by
    refine (tiles_pieces _).exists_plain (fun t ht c hc hblank ↦ ?_) fun t ht _ hvoids hupper ↦ ?_
    · have hspace := List.all_eq_true.1 (List.all_eq_true.1 hspaces t ht) c hc
      simpa [hblank] using hspace
    · have hnone := List.all_eq_true.1 hvoid t ht
      rw [hvoids, hupper] at hnone
      cases hnone
  refine ⟨hcheck, ?_⟩
  rw [(passes_keep_tags hcheck commented_isApart hplain).2]
  decide +kernel

/-- The space that keeps a slash apart from a value is left out of a tag with capitals. -/
theorem slash_joins_value :
    checkTags (pieces "<IMG src=x />".toList) = .ok () ∧
    scan "<IMG src=x />".toList = [.opening ⟨"img", [("src", "x")], true⟩] ∧
    scan (markedTags (closedTags "<IMG src=x />".toList)) =
      [.opening ⟨"img", [(spellingAttribute, "IMG"), ("src", "x/")], false⟩] := by
  refine ⟨?_, ?_, ?_⟩ <;> decide +kernel

end Nodecraft.Template
