import Nodecraft.Proofs.Template.TagGrammar

/-!
# What the check of tags accepts

The tags of a text are its well-formed ones, read from left to right (`Tiles`). Of these, void
elements and opening tags that close themselves are left alone, and the others (`counted`) go
through a stack of the open elements. The stack accepts the words of a grammar, `Balanced`, that
open no more elements at a time than it has room for (`foldlM_afterTag_iff`). With the search for
tags that are not well formed, this is what `checkTags` accepts (`checkTags_eq_ok`).
-/

set_option autoImplicit false

namespace Nodecraft.Template

/-! ### The tags of a text -/

/-- A text as the well-formed tags that are found in it from left to right, each the one that is
read where it begins, and the characters between them. -/
inductive Tiles : List Char → List Piece → Prop
  | nil : Tiles [] []
  | tag {cs rest : List Char} {t : Tag} {ps : List Piece} (ht : t.IsWellFormed)
    (hcs : cs = t.text ++ rest)
    (hmost : ∀ t' rest', Tag.IsWellFormed t' → cs = t'.text ++ rest' →
      t'.attributes.length ≤ t.attributes.length) :
    Tiles rest ps → Tiles cs (.tag t :: ps)
  | char {c : Char} {cs : List Char} {ps : List Piece}
    (hnone : ∀ t rest, Tag.IsWellFormed t → c :: cs ≠ t.text ++ rest) :
    Tiles cs ps → Tiles (c :: cs) (.char c :: ps)

theorem Tag.text_ne_nil (t : Tag) : t.text ≠ [] := by
  rw [text_eq]
  exact List.cons_ne_nil _ _

theorem Tag.length_of_read? {cs rest : List Char} {t : Tag} (h : read? cs = some (t, rest)) :
    rest.length < cs.length := by
  obtain ⟨-, rfl⟩ := read?_sound h
  have := List.length_pos_iff.2 t.text_ne_nil
  rw [List.length_append]
  omega

theorem tiles_piecesWithin {fuel : Nat} : ∀ {cs : List Char}, cs.length ≤ fuel →
    Tiles cs (piecesWithin fuel cs) := by
  induction fuel with
  | zero =>
    intro cs hle
    obtain rfl := List.eq_nil_of_length_eq_zero (Nat.le_zero.1 hle)
    exact .nil
  | succ fuel ih =>
    intro cs hle
    cases cs with
    | nil => exact .nil
    | cons c cs =>
      unfold piecesWithin
      cases hread : Tag.read? (c :: cs) with
      | none =>
        exact .char (Tag.read?_eq_none.1 hread) (ih (Nat.le_of_succ_le_succ hle))
      | some found =>
        obtain ⟨t, rest⟩ := found
        have hless := Tag.length_of_read? hread
        obtain ⟨ht, hcs, hmost⟩ := Tag.read?_eq_some.1 hread
        exact .tag ht hcs (fun t' rest' ht' h ↦ (hmost t' rest' ht' h).2)
          (ih (Nat.le_of_lt_succ (Nat.lt_of_lt_of_le hless hle)))

/-- The pieces of a text tile it. -/
theorem tiles_pieces (cs : List Char) : Tiles cs (pieces cs) := tiles_piecesWithin (Nat.le_refl _)

/-- A text has its tags in one place only. -/
theorem Tiles.unique {cs : List Char} {ps ps' : List Piece} (h : Tiles cs ps)
    (h' : Tiles cs ps') : ps = ps' := by
  have hread {cs rest : List Char} {t : Tag} (ht : t.IsWellFormed) (hcs : cs = t.text ++ rest)
      (hmost : ∀ t' rest', Tag.IsWellFormed t' → cs = t'.text ++ rest' →
        t'.attributes.length ≤ t.attributes.length) : Tag.read? cs = some (t, rest) := by
    subst hcs
    rcases Tag.read?_complete ht rest with hsame | ⟨-, -, hslashed⟩
    · exact hsame
    · obtain ⟨hformed, heq⟩ := Tag.read?_sound hslashed
      have hle := hmost _ _ hformed heq
      simp only [Tag.slashed, List.length_append, List.length_singleton] at hle
      exact absurd hle (Nat.not_succ_le_self _)
  induction h generalizing ps' with
  | nil =>
    cases h' with
    | nil => rfl
    | tag _ hcs _ _ => exact absurd (List.append_eq_nil_iff.1 hcs.symm).1 (Tag.text_ne_nil _)
  | tag ht hcs hmost _ ih =>
    have hfound := hread ht hcs hmost
    cases h' with
    | nil => cases hfound
    | tag ht' hcs' hmost' hrest =>
      obtain ⟨rfl, rfl⟩ :=
        Prod.mk.inj (Option.some.inj (hfound.symm.trans (hread ht' hcs' hmost')))
      rw [ih hrest]
    | char hnone _ => exact absurd hcs (hnone _ _ ht)
  | char hnone _ ih =>
    cases h' with
    | tag ht hcs _ _ => exact absurd hcs (hnone _ _ ht)
    | char _ hrest => rw [ih hrest]

/-- A text is what its pieces spell. -/
theorem Tiles.text_eq {cs : List Char} {ps : List Piece} (h : Tiles cs ps) :
    cs = ps.flatMap Piece.text := by
  induction h with
  | nil => rfl
  | tag _ hcs _ _ ih =>
    rw [hcs, List.flatMap_cons, ← ih]
    rfl
  | char _ _ ih =>
    rw [List.flatMap_cons, ← ih]
    rfl

/-! ### Words of tags -/

/-- Whether a tag opens or closes an element. -/
def Tag.counts (t : Tag) : Bool := !t.isVoid && (t.closing || !t.selfClosing)

def Piece.tag? : Piece → Option Tag
  | .tag t => some t
  | .char _ => none

/-- The tags that open and close elements. -/
def counted (ps : List Piece) : List Tag := (ps.filterMap Piece.tag?).filter Tag.counts

/-- Words in which each closing tag is of the latest element that is open, by the name without
regard to case, and no element is left open. -/
inductive Balanced : List Tag → Prop
  | nil : Balanced []
  | element {opening closing : Tag} {inner rest : List Tag} (hopening : opening.closing = false)
    (hclosing : closing.closing = true) (hkey : opening.key = closing.key) :
    Balanced inner → Balanced rest → Balanced (opening :: inner ++ closing :: rest)

def openings (ts : List Tag) : Nat := ts.countP fun t ↦ !t.closing

def closings (ts : List Tag) : Nat := ts.countP Tag.closing

/-- Balanced words in a row. -/
theorem Balanced.append {ts us : List Tag} (ht : Balanced ts) (hu : Balanced us) :
    Balanced (ts ++ us) := by
  induction ht with
  | nil => exact hu
  | element hopening hclosing hkey hinner _ _ ih =>
    rw [List.append_assoc, List.cons_append]
    exact .element hopening hclosing hkey hinner ih

/-- As many tags open as close. -/
theorem Balanced.openings_eq {ts : List Tag} (h : Balanced ts) : openings ts = closings ts := by
  induction h with
  | nil => rfl
  | element hopening hclosing _ _ _ ihinner ihrest =>
    unfold openings closings at *
    simp [hopening, hclosing, ihinner, ihrest]
    omega

/-- Words after which the given elements are closed too, the innermost first. -/
inductive Closes : List String → List Tag → Prop
  | nil {ts : List Tag} : Balanced ts → Closes [] ts
  | cons {opened : List String} {inner rest : List Tag} {closing : Tag}
    (hclosing : closing.closing = true) : Balanced inner → Closes opened rest →
    Closes (closing.key :: opened) (inner ++ closing :: rest)

/-- What closes may follow what is balanced. -/
theorem Closes.prepend {opened : List String} {ts us : List Tag} (ht : Balanced ts)
    (hu : Closes opened us) : Closes opened (ts ++ us) := by
  cases hu with
  | nil hu => exact .nil (ht.append hu)
  | cons hclosing hinner hrest =>
    rw [← List.append_assoc]
    exact .cons hclosing (ht.append hinner) hrest

/-! ### The stack of open elements -/

/-- Void elements and tags that close themselves do not count. -/
theorem afterTag_of_not_counts {t : Tag} (h : t.counts = false) (opened : List String) :
    afterTag opened t = .ok opened := by
  unfold afterTag
  cases hvoid : t.isVoid with
  | true => rfl
  | false =>
    obtain ⟨hclosing, hself⟩ : t.closing = false ∧ t.selfClosing = true := by
      simpa [Tag.counts, hvoid] using h
    rw [hclosing, hself]
    rfl

theorem not_isVoid_of_counts {t : Tag} (h : t.counts = true) : t.isVoid = false := by
  simpa using (Bool.and_eq_true_iff.1 h).1

/-- An opening tag opens, if not too many are open. -/
theorem afterTag_opening {t : Tag} (hcounts : t.counts = true) (h : t.closing = false)
    {opened rest : List String} : afterTag opened t = .ok rest ↔
      opened.length < maxOpenElements ∧ rest = t.key :: opened := by
  have hself : t.selfClosing = false := by
    have hor := (Bool.and_eq_true_iff.1 hcounts).2
    simpa [h] using hor
  unfold afterTag
  rw [not_isVoid_of_counts hcounts, h, hself]
  by_cases hroom : maxOpenElements ≤ opened.length
  · refine iff_of_false ?_ fun hless ↦ Nat.not_lt_of_le hroom hless.1
    simp [hroom]
  · simp [hroom, Nat.lt_of_not_le hroom, eq_comm]

/-- A closing tag closes the innermost element, if it has its name. -/
theorem afterTag_closing {t : Tag} (hcounts : t.counts = true) (h : t.closing = true)
    {opened rest : List String} : afterTag opened t = .ok rest ↔ opened = t.key :: rest := by
  unfold afterTag
  rw [not_isVoid_of_counts hcounts, h]
  cases opened with
  | nil => simp
  | cons name opened =>
    by_cases hname : name = t.key
    · simp [hname]
    · simp [hname]

/-- The stack follows the tags that count. -/
theorem afterPieces_eq (ps : List Piece) : ∀ opened : List String,
    afterPieces opened ps = (counted ps).foldlM afterTag opened := by
  induction ps with
  | nil => exact fun _ ↦ rfl
  | cons p ps ih =>
    intro opened
    cases p with
    | char c => exact ih opened
    | tag t =>
      have hcounted : counted (.tag t :: ps) =
          if t.counts then t :: counted ps else counted ps := List.filter_cons
      rw [hcounted]
      unfold afterPieces
      cases hcounts : t.counts with
      | false =>
        rw [afterTag_of_not_counts hcounts]
        exact ih opened
      | true =>
        rw [if_pos rfl, List.foldlM_cons]
        exact congrArg (afterTag opened t >>= ·) (funext ih)

section

variable {ts : List Tag} (hcounts : ∀ t ∈ ts, t.counts = true)

include hcounts

/-- A stack that has run empty has been closed. -/
theorem closes_of_foldlM : ∀ {opened : List String},
    ts.foldlM afterTag opened = .ok [] → Closes opened ts := by
  induction ts with
  | nil =>
    intro opened h
    cases h
    exact .nil .nil
  | cons t ts ih =>
    obtain ⟨ht, hts⟩ := List.forall_mem_cons.1 hcounts
    intro opened h
    rw [List.foldlM_cons] at h
    obtain ⟨opened', hafter, hrest⟩ := except_bind_eq_ok h
    cases hclosing : t.closing with
    | true =>
      obtain rfl := (afterTag_closing ht hclosing).1 hafter
      exact .cons hclosing .nil (ih hts hrest)
    | false =>
      obtain ⟨-, rfl⟩ := (afterTag_opening ht hclosing).1 hafter
      generalize hkey : t.key = key at hrest
      cases ih hts hrest with
      | cons hclosing' hinner hcloses =>
        have helement := Balanced.element hclosing hclosing' hkey hinner .nil
        simpa using hcloses.prepend helement

/-- No beginning of the word opens more elements than there is room for. -/
theorem bounded_of_foldlM : ∀ {opened opened' : List String},
    ts.foldlM afterTag opened = .ok opened' → opened.length ≤ maxOpenElements →
      ∀ p, p <+: ts → opened.length + openings p ≤ closings p + maxOpenElements := by
  induction ts with
  | nil =>
    intro opened opened' _ hle p hp
    obtain rfl := List.prefix_nil.1 hp
    simpa [openings, closings] using hle
  | cons t ts ih =>
    obtain ⟨ht, hts⟩ := List.forall_mem_cons.1 hcounts
    intro opened opened' h hle p hp
    rw [List.foldlM_cons] at h
    obtain ⟨next, hafter, hrest⟩ := except_bind_eq_ok h
    rcases List.prefix_cons_iff.1 hp with rfl | ⟨p, rfl, hprefix⟩
    · simpa [openings, closings] using hle
    cases hclosing : t.closing with
    | true =>
      obtain rfl := (afterTag_closing ht hclosing).1 hafter
      rw [List.length_cons] at hle
      have := ih hts hrest (by omega) p hprefix
      simp only [openings, closings, List.countP_cons, hclosing, List.length_cons] at this ⊢
      simp
      omega
    | false =>
      obtain ⟨hroom, rfl⟩ := (afterTag_opening ht hclosing).1 hafter
      have := ih hts hrest hroom p hprefix
      simp only [openings, closings, List.countP_cons, hclosing, List.length_cons] at this ⊢
      simp
      omega

end

/-- The stack is as before behind a word of the grammar that there is room for. -/
theorem Balanced.foldlM_eq {ts : List Tag} (h : Balanced ts) :
    (∀ t ∈ ts, t.counts = true) → ∀ {opened : List String},
      (∀ p, p <+: ts → opened.length + openings p ≤ closings p + maxOpenElements) →
        ts.foldlM afterTag opened = .ok opened := by
  induction h with
  | nil => exact fun _ _ _ ↦ rfl
  | @element opening closing inner rest hopening hclosing hkey hinner hrest ihinner ihrest =>
    intro hcounts opened hroom
    obtain ⟨hopens, hcounts⟩ := List.forall_mem_cons.1 hcounts
    obtain ⟨hinnerCounts, hcounts⟩ := List.forall_mem_append.1 hcounts
    obtain ⟨hcloses, hrestCounts⟩ := List.forall_mem_cons.1 hcounts
    have hopened : openings [opening] = 1 ∧ closings [opening] = 0 := by
      simp [openings, closings, hopening]
    have hclosed : openings [closing] = 0 ∧ closings [closing] = 1 := by
      simp [openings, closings, hclosing]
    have happend (ts us : List Tag) : openings (ts ++ us) = openings ts + openings us ∧
        closings (ts ++ us) = closings ts + closings us :=
      ⟨List.countP_append, List.countP_append⟩
    have hfirst : afterTag opened opening = .ok (opening.key :: opened) := by
      refine (afterTag_opening hopens hopening).2 ⟨?_, rfl⟩
      have := hroom [opening] (List.prefix_append _ _)
      omega
    have hwithin : inner.foldlM afterTag (opening.key :: opened) = .ok (opening.key :: opened) := by
      refine ihinner hinnerCounts fun p hp ↦ ?_
      have := hroom ([opening] ++ p) ((List.prefix_append_right_inj [opening]).2
        (hp.trans (List.prefix_append _ _)))
      rw [(happend _ _).1, (happend _ _).2] at this
      rw [List.length_cons]
      omega
    have hlast : afterTag (opening.key :: opened) closing = .ok opened :=
      (afterTag_closing hcloses hclosing).2 (by rw [hkey])
    have hbehind : rest.foldlM afterTag opened = .ok opened := by
      refine ihrest hrestCounts fun p hp ↦ ?_
      have hwhole : [opening] ++ inner ++ ([closing] ++ p) <+:
          opening :: inner ++ closing :: rest := by
        simpa using hp
      have := hroom _ hwhole
      rw [(happend _ _).1, (happend _ _).1, (happend _ _).1, (happend _ _).2, (happend _ _).2,
        (happend _ _).2, hinner.openings_eq] at this
      omega
    rw [List.cons_append, List.foldlM_cons, hfirst]
    change (inner ++ closing :: rest).foldlM afterTag (opening.key :: opened) = _
    rw [List.foldlM_append, hwithin]
    change (closing :: rest).foldlM afterTag (opening.key :: opened) = _
    rw [List.foldlM_cons, hlast]
    exact hbehind

/-- The stack runs empty exactly on balanced tags that never open too many. -/
theorem foldlM_afterTag_iff {ts : List Tag} (hcounts : ∀ t ∈ ts, t.counts = true) :
    ts.foldlM afterTag [] = .ok [] ↔ Balanced ts ∧
      ∀ p, p <+: ts → openings p ≤ closings p + maxOpenElements := by
  constructor
  · intro h
    have hbounded := bounded_of_foldlM hcounts h (Nat.zero_le _)
    cases closes_of_foldlM hcounts h with
    | nil hbalanced => exact ⟨hbalanced, fun p hp ↦ by simpa using hbounded p hp⟩
  · rintro ⟨hbalanced, hroom⟩
    exact hbalanced.foldlM_eq hcounts fun p hp ↦ by simpa using hroom p hp

/-! ### Tags that are not well formed -/

/-- The text begins like a tag. -/
def BeginsTag (cs : List Char) : Prop :=
  ∃ c rest, c.isAlpha = true ∧ (cs = '<' :: c :: rest ∨ cs = '<' :: '/' :: c :: rest)

/-- One of the tags reaches over a position of the text. -/
def Covers (ps : List Piece) (position : Nat) : Prop :=
  ∃ before t after, ps = before ++ .tag t :: after ∧
    (before.flatMap Piece.text).length ≤ position ∧
      position < (before.flatMap Piece.text).length + t.text.length

theorem covers_cons {p : Piece} {ps : List Piece} {position : Nat} :
    Covers (p :: ps) (p.text.length + position) ↔ Covers ps position := by
  constructor
  · rintro ⟨before, t, after, heq, hle, hless⟩
    cases before with
    | nil =>
      obtain rfl := (List.cons.inj heq).1
      exact absurd hless (by simp [Piece.text])
    | cons q before =>
      obtain ⟨rfl, rfl⟩ := List.cons.inj heq
      rw [List.flatMap_cons, List.length_append] at hle hless
      exact ⟨before, t, after, rfl, by omega, by omega⟩
  · rintro ⟨before, t, after, rfl, hle, hless⟩
    refine ⟨p :: before, t, after, rfl, ?_, ?_⟩
    all_goals
      rw [List.flatMap_cons, List.length_append]
      omega

theorem covers_tag {t : Tag} {ps : List Piece} {position : Nat} (h : position < t.text.length) :
    Covers (.tag t :: ps) position :=
  ⟨[], t, ps, rfl, Nat.zero_le _, by simpa using h⟩

theorem not_covers_char {c : Char} {ps : List Piece} : ¬ Covers (.char c :: ps) 0 := by
  rintro ⟨before, t, after, heq, hle, -⟩
  cases before with
  | nil => cases (List.cons.inj heq).1
  | cons q before =>
    obtain rfl := (List.cons.inj heq).1
    exact absurd hle (by simp [Piece.text])

/-- Tags begin with a bracket, so any other character stands between them. -/
theorem eq_char_cons {ps : List Piece} {c : Char} {cs : List Char}
    (h : ps.flatMap Piece.text = c :: cs) (hc : c ≠ '<') :
    ∃ rest, ps = .char c :: rest ∧ rest.flatMap Piece.text = cs := by
  cases ps with
  | nil => cases h
  | cons p ps =>
    cases p with
    | char d =>
      obtain ⟨rfl, rfl⟩ := List.cons.inj h
      exact ⟨ps, rfl, rfl⟩
    | tag t =>
      rw [List.flatMap_cons, Piece.text, Tag.text_eq] at h
      exact absurd (List.cons.inj h).1.symm hc

theorem ne_bracket_of_isAlpha {c : Char} (h : c.isAlpha = true) : c ≠ '<' := by
  rintro rfl
  exact absurd h (by decide)

/-- A bracket begins a tag if a letter follows, or a slash and a letter. -/
theorem beginsTag_iff {c : Char} {ps : List Piece} :
    beginsTag (.char c :: ps) = true ↔ BeginsTag (c :: ps.flatMap Piece.text) := by
  constructor
  · intro h
    unfold beginsTag at h
    split at h
    · rename_i d rest heq
      obtain ⟨hc, rfl⟩ := List.cons.inj heq
      obtain rfl := Piece.char.inj hc
      exact ⟨d, rest.flatMap Piece.text, h, .inr rfl⟩
    · rename_i d rest _ heq
      obtain ⟨hc, rfl⟩ := List.cons.inj heq
      obtain rfl := Piece.char.inj hc
      exact ⟨d, rest.flatMap Piece.text, h, .inl rfl⟩
    · cases h
  · rintro ⟨d, rest, hd, heq | heq⟩
    · obtain ⟨rfl, htext⟩ := List.cons.inj heq
      obtain ⟨ps, rfl, -⟩ := eq_char_cons htext (ne_bracket_of_isAlpha hd)
      have hslash : d ≠ '/' := by
        rintro rfl
        exact absurd hd (by decide)
      unfold beginsTag
      split
      · rename_i heq
        exact absurd (Piece.char.inj (List.cons.inj (List.cons.inj heq).2).1) hslash
      · rename_i heq
        obtain rfl := Piece.char.inj (List.cons.inj (List.cons.inj heq).2).1
        exact hd
      · rename_i hnone
        exact (hnone d ps rfl).elim
    · obtain ⟨rfl, htext⟩ := List.cons.inj heq
      obtain ⟨ps, rfl, hname⟩ := eq_char_cons htext (by decide)
      obtain ⟨ps, rfl, -⟩ := eq_char_cons hname (ne_bracket_of_isAlpha hd)
      exact hd

/-- One piece more. -/
theorem malformed?_cons {p : Piece} {ps : List Piece} :
    malformed? (p :: ps) = none ↔ beginsTag (p :: ps) = false ∧ malformed? ps = none := by
  rw [malformed?]
  cases beginsTag (p :: ps) <;> simp

/-- No tag is malformed exactly if every beginning of one is covered by a tag. -/
theorem malformed?_eq_none {ps : List Piece} : malformed? ps = none ↔
    ∀ before after, ps.flatMap Piece.text = before ++ after → BeginsTag after →
      Covers ps before.length := by
  induction ps with
  | nil =>
    refine iff_of_true rfl ?_
    rintro before after heq ⟨c, rest, -, rfl | rfl⟩
    all_goals exact absurd (List.append_eq_nil_iff.1 heq.symm).2 (List.cons_ne_nil _ _)
  | cons p ps ih =>
    -- behind the first piece a position is covered by what covers it there
    have hbehind : (∀ before after, ps.flatMap Piece.text = before ++ after → BeginsTag after →
        Covers ps before.length) ↔ ∀ before after, ps.flatMap Piece.text = before ++ after →
          BeginsTag after → Covers (p :: ps) (p.text ++ before).length := by
      simp only [List.length_append, covers_cons]
    rw [malformed?_cons, ih, hbehind]
    constructor
    · rintro ⟨hbegins, hrest⟩ before after heq hafter
      rw [List.flatMap_cons] at heq
      rcases List.append_eq_append_iff.1 heq with ⟨between, rfl, hps⟩ | ⟨between, htext, rfl⟩
      · exact hrest between after hps hafter
      cases between with
      | nil =>
        have hcovers := hrest [] _ rfl hafter
        rwa [List.append_nil, htext, List.append_nil] at hcovers
      | cons d between =>
        cases p with
        | tag t =>
          refine covers_tag ?_
          rw [show t.text = before ++ d :: between from htext, List.length_append]
          simp
        | char c =>
          obtain ⟨rfl, rfl, rfl⟩ : before = [] ∧ d = c ∧ between = [] := by
            cases before with
            | nil =>
              obtain ⟨rfl, hnil⟩ := List.cons.inj htext
              exact ⟨rfl, rfl, hnil.symm⟩
            | cons b before =>
              have hnil := (List.cons.inj htext).2
              exact absurd (List.append_eq_nil_iff.1 hnil.symm).2 (List.cons_ne_nil _ _)
          exact absurd (beginsTag_iff.2 hafter) (Bool.eq_false_iff.1 hbegins)
    · intro hall
      refine ⟨?_, fun before after heq hafter ↦ hall _ after ?_ hafter⟩
      · cases p with
        | tag t => rfl
        | char c =>
          refine Bool.eq_false_iff.2 fun hbegins ↦ ?_
          exact not_covers_char (hall [] _ rfl (beginsTag_iff.1 hbegins))
      · rw [List.flatMap_cons, heq, List.append_assoc]

/-! ### The check -/

/-- The check is both of these. -/
theorem checkTags_eq {ps : List Piece} :
    checkTags ps = .ok () ↔ afterPieces [] ps = .ok [] ∧ malformed? ps = none := by
  unfold checkTags
  cases hopened : afterPieces [] ps with
  | error fault => exact iff_of_false (by rintro ⟨⟩) fun h ↦ by cases h.1
  | ok opened =>
    cases malformed? ps with
    | some cs => exact iff_of_false (by rintro ⟨⟩) fun h ↦ by cases h.2
    | none =>
      cases opened with
      | nil => exact iff_of_true rfl ⟨rfl, rfl⟩
      | cons name opened => exact iff_of_false (by rintro ⟨⟩) fun h ↦ by cases h.1

/-- A text's tags are its well-formed ones from left to right, and there is one way to find them.
They are accepted if and only if those that count are a word of the grammar, no beginning of it
opens more than 64 elements that it does not close, and each place of the text that begins like a
tag is within one of them. -/
theorem checkTags_eq_ok (cs : List Char) :
    Tiles cs (pieces cs) ∧ (∀ ps, Tiles cs ps → ps = pieces cs) ∧
      (checkTags (pieces cs) = .ok () ↔
        Balanced (counted (pieces cs)) ∧
        (∀ p, p <+: counted (pieces cs) → openings p ≤ closings p + 64) ∧
        ∀ before after, cs = before ++ after → BeginsTag after →
          Covers (pieces cs) before.length) := by
  have htiles := tiles_pieces cs
  refine ⟨htiles, fun ps hps ↦ hps.unique htiles, ?_⟩
  have hcounts : ∀ t ∈ counted (pieces cs), t.counts = true := fun t ht ↦ (List.mem_filter.1 ht).2
  rw [checkTags_eq, afterPieces_eq, foldlM_afterTag_iff hcounts, malformed?_eq_none,
    ← htiles.text_eq, and_assoc]
  exact Iff.rfl

end Nodecraft.Template
