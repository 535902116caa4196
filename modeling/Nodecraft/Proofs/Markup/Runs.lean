import Nodecraft.Proofs.Markup.Nests
import Nodecraft.Proofs.Markup.Scanning

/-!
# Reading a text part by part

A document is built while its text is read (`Reads`). Where what is built follows what is written, a
part of the text that is no tag opens and closes nothing (`Follows.reads_text`), and a tag does what
it is written for (`Follows.reads_opening`, `Follows.reads_closing`). At the end of the text, the
content of the page is what has been written, but for its texts (`contentOf_eq`).
-/

set_option autoImplicit false

namespace Nodecraft.Markup.Build

open Lexer (IsText EndsText IsTag tagEnd lowered addAttribute)

/-- Reading comes from one place of a text to a later one. -/
def Reads (kind : TextMode) (cs : List Char) (s : State) (kind₁ : TextMode) (cs₁ : List Char)
    (s₁ : State) : Prop :=
  ∀ fuel, cs.length < fuel → ∃ fuel₁, cs₁.length < fuel₁ ∧
    readText fuel kind cs s = readText fuel₁ kind₁ cs₁ s₁

section

variable {s s₁ s₂ : State} {kind kind₁ kind₂ : TextMode} {cs rest rest₁ : List Char}

theorem Reads.refl (kind : TextMode) (cs : List Char) (s : State) : Reads kind cs s kind cs s :=
  fun fuel hfuel ↦ ⟨fuel, hfuel, rfl⟩

/-- What is read in parts is read as a whole. -/
theorem Reads.trans (h : Reads kind cs s kind₁ rest s₁) (h₁ : Reads kind₁ rest s₁ kind₂ rest₁ s₂) :
    Reads kind cs s kind₂ rest₁ s₂ := by
  intro fuel hfuel
  obtain ⟨fuel₁, hfuel₁, heq⟩ := h fuel hfuel
  obtain ⟨fuel₂, hfuel₂, heq₁⟩ := h₁ fuel₁ hfuel₁
  exact ⟨fuel₂, hfuel₂, heq.trans heq₁⟩

/-- A step, with the tokens it takes. -/
theorem reads_step {c : Char} {tokens : List Token}
    (hstep : Lexer.step kind (!s.currentElement.isHtml) c cs = ⟨tokens, kind₁, rest⟩)
    (hrest : rest.length ≤ cs.length)
    (hreceive : receiveAll kind₁ tokens s = (kind₂, s₁)) :
    Reads kind (c :: cs) s kind₂ rest s₁ := by
  intro fuel hfuel
  rw [List.length_cons] at hfuel
  obtain ⟨fuel, rfl⟩ := Nat.exists_eq_add_one_of_ne_zero (by omega : fuel ≠ 0)
  refine ⟨fuel, by omega, ?_⟩
  rw [readText]
  refine bind_eq (t := s) rfl ?_
  rw [hstep]
  exact bind_eq hreceive rfl

theorem receiveAll_one {t : Token} {found : Option TextMode} (h : receive t s = (found, s₁)) :
    receiveAll kind [t] s = (found.getD kind, s₁) := by
  unfold receiveAll
  exact bind_eq h rfl

variable {n : Nest}

/-- Text is read as the innermost element wants it. -/
theorem Follows.isTextKind (h : Follows s kind n) : Lexer.IsTextKind kind := by
  obtain ⟨frames, hwithin, -⟩ := h
  cases hwithin with
  | headText _ _ _ _ hkind => exact hkind.isTextKind
  | text _ _ _ hkind => exact hkind.isTextKind
  | _ => exact .markup

theorem textNames_closedBy {e : Element} (he : e.label ∈ textNames) : e.closedBy = e.label :=
  Element.closedBy_eq (textNames_plain _ he).1.1

/-- Text that is not markup ends with the closing tag of the innermost element. -/
theorem Follows.endsWith {e : Element} {inner before : List Node} {around : List (Element × List Node)}
    (h : Follows s kind ⟨inner, (e, before) :: around⟩) :
    kind = .markup ∨ Lexer.EndsWith e.closedBy kind := by
  have hends {f : Frame} {outer : List Frame} (hf : f.element.label ∈ textNames)
      (hkind : Lexer.EndsWith f.element.label kind)
      (hdrawn : Drawn (f :: outer) ⟨inner, (e, before) :: around⟩) : Lexer.EndsWith e.closedBy kind := by
    cases hdrawn with
    | within _ _ => rwa [textNames_closedBy hf]
  obtain ⟨frames, hwithin, hdrawn⟩ := h
  cases hwithin with
  | headText _ _ _ hf hkind => exact .inr (hends hf hkind hdrawn)
  | text _ _ hf hkind => exact .inr (hends hf hkind hdrawn)
  | _ => exact .inl rfl

/-- Text that is not markup is that of an element that holds nothing else. -/
theorem Follows.markup_or_text (h : Follows s kind n) :
    kind = .markup ∨ ∃ outer ∈ n.names.head?, outer ∈ textNames := by
  obtain ⟨frames, hwithin, hdrawn⟩ := h
  cases hwithin with
  | headText _ _ _ hf _ =>
    cases hdrawn with
    | within _ _ => exact .inr ⟨_, rfl, hf⟩
  | text _ honPage hf _ =>
    cases hdrawn with
    | within _ _ => exact .inr ⟨_, rfl, hf⟩
    | page =>
      -- a page is no single element
      exact absurd honPage.one_lt_length (Nat.lt_irrefl 1)
  | _ => exact .inl rfl

/-- Outside of elements of text, markup is read as such. -/
theorem Follows.markup_of_head (h : Follows s kind n)
    (hn : ∀ outer ∈ n.names.head?, outer ∉ textNames) : kind = .markup :=
  h.markup_or_text.resolve_right fun ⟨outer, houter, htext⟩ ↦ hn outer houter htext

/-! ### Texts -/

/-- Several characters that are allowed draw nothing. -/
theorem Follows.chars (h : Follows s kind n) {shown : List Char} (hshown : ∀ c ∈ shown, n.Allows c) :
    ∃ s₁, receiveAll kind (shown.map Token.char) s = (kind, s₁) ∧ Follows s₁ kind n := by
  induction shown generalizing s with
  | nil => exact ⟨s, rfl, h⟩
  | cons c shown ih =>
    obtain ⟨hc, hshown⟩ := List.forall_mem_cons.1 hshown
    obtain ⟨s₁, hreceive, hfollows⟩ := h.char hc
    obtain ⟨s₂, hreceives, hfollows⟩ := ih hfollows hshown
    exact ⟨s₂, bind_eq hreceive hreceives, hfollows⟩

theorem step_of_space {c : Char} (hc : isSpace c = true) (foreign : Bool) (cs : List Char) :
    Lexer.step .markup foreign c cs = ⟨[.char c], .markup, cs⟩ := by
  have hne {d : Char} (hd : isSpace d = false) : (c == d) = false :=
    beq_false_of_ne fun heq ↦ by rw [heq, hd] at hc; cases hc
  unfold Lexer.step
  dsimp only
  rw [hne (by decide), hne (by decide)]
  rfl

/-- A text opens and closes nothing. -/
theorem Follows.reads_text (h : Follows s kind n) (hcs : IsText cs) (hrest : EndsText rest)
    (hstands : ∀ c ∈ cs, n.Allows c) :
    ∃ s₁, Reads kind (cs ++ rest) s kind rest s₁ ∧ Follows s₁ kind n := by
  induction hlength : cs.length using Nat.strongRecOn generalizing cs s with
  | ind length ih =>
    subst hlength
    cases cs with
    | nil => exact ⟨s, .refl _ _ _, h⟩
    | cons c cs =>
      -- in parts of tables there is only white space, which stands for itself
      obtain ⟨shown, left, hstep, hleft, hshown⟩ : ∃ shown left : List Char,
          Lexer.step kind (!s.currentElement.isHtml) c (cs ++ rest) =
            ⟨shown.map Token.char, kind, left ++ rest⟩ ∧ left <:+ cs ∧ ∀ d ∈ shown, n.Allows d := by
        by_cases hparts : ∃ outer ∈ n.names.head?, HoldsParts outer
        · obtain ⟨outer, houter, hholds⟩ := hparts
          have hnone : ∀ name ∈ textNames, ¬HoldsParts name := by decide
          obtain rfl := h.markup_of_head fun name hname htext ↦ hnone name htext
            (Option.some.inj (hname.symm.trans houter) ▸ hholds)
          have hc := hstands c List.mem_cons_self
          exact ⟨[c], cs, step_of_space (hc outer houter hholds) _ _,
            List.suffix_rfl, List.forall_mem_singleton.2 hc⟩
        · obtain ⟨shown, left, hstep, hleft⟩ := Lexer.step_of_isText hrest hcs h.isTextKind _
          exact ⟨shown, left, hstep, hleft,
            fun d _ outer houter hholds ↦ absurd ⟨outer, houter, hholds⟩ hparts⟩
      obtain ⟨s₁, hreceive, hfollows⟩ := h.chars hshown
      have hle := hleft.length_le
      have hreads := reads_step hstep
        (by rw [List.length_append, List.length_append]; omega) hreceive
      obtain ⟨s₂, hreads₂, hfollows⟩ := ih left.length
        (by rw [List.length_cons]; omega) hfollows
        (hcs.of_suffix (hleft.trans (List.suffix_cons c cs)))
        (fun d hd ↦ hstands d (List.mem_cons_of_mem c (hleft.subset hd))) rfl
      exact ⟨s₂, hreads.trans hreads₂, hfollows⟩

/-! ### Tags -/

section

variable (rest) {name attributes gap : List Char} {selfClosing : Bool}
  {read : List (String × String)}
  (htag : IsTag name attributes gap selfClosing read)

include htag

/-- A written opening tag draws its element. -/
theorem Follows.reads_opening (h : Follows s .markup n)
    (hstand : Tag.StandsIn n.elements ⟨lowered name, read.foldl addAttribute [], selfClosing⟩) :
    ∃ s₁ kind, Reads .markup ('<' :: (name ++ (attributes ++ tagEnd gap selfClosing rest))) s
        kind rest s₁ ∧
      Follows s₁ kind (n.opening ⟨lowered name, read.foldl addAttribute [], selfClosing⟩) := by
  obtain ⟨s₁, kind, hreceive, hfollows⟩ := h.opening hstand
  exact ⟨s₁, _, reads_step (Lexer.step_opening htag.name htag.tag?_eq _)
    (Lexer.length_tagEnd ..) (receiveAll_one hreceive), hfollows⟩

/-- A written closing tag finishes the innermost element. -/
theorem Follows.reads_closing {e : Element} {inner before : List Node}
    {around : List (Element × List Node)} (h : Follows s kind ⟨inner, (e, before) :: around⟩)
    (hname : lowered name = e.closedBy) :
    ∃ s₁, Reads kind ('<' :: '/' :: (name ++ (attributes ++ tagEnd gap selfClosing rest))) s
        .markup rest s₁ ∧
      Follows s₁ .markup ⟨before ++ [.element e.name e.attributes inner], around⟩ := by
  obtain ⟨s₁, hreceive, hfollows⟩ := h.closing
  have hstep : Lexer.step kind (!s.currentElement.isHtml) '<'
      ('/' :: (name ++ (attributes ++ tagEnd gap selfClosing rest))) =
        ⟨[.closing (lowered name)], .markup, rest⟩ := by
    rcases h.endsWith with rfl | hends
    · exact Lexer.step_closing htag.name htag.tag?_eq _
    · rw [← hname] at hends
      obtain ⟨bare, hattributes, -⟩ := htag.attributes
      have hfollow := (hattributes.follows (Lexer.follows_tagEnd htag.gap selfClosing rest)).exists_ends
      exact Lexer.step_ownClosing htag.name hfollow htag.tag?_eq hends _
  rw [hname] at hstep
  exact ⟨s₁, reads_step hstep
    (Nat.le_succ_of_le (Lexer.length_tagEnd ..)) (receiveAll_one hreceive), hfollows⟩

/-- The closing tag of an element that holds nothing is read over. -/
theorem Follows.reads_stray (h : Follows s .markup n) (hname : lowered name ∈ emptyNames)
    (hbr : lowered name ≠ "br") (hgroup : n.names.head? = some "colgroup" → lowered name = "col")
    (himage : ClosesNoImage n.elements (lowered name)) :
    ∃ s₁, Reads .markup ('<' :: '/' :: (name ++ (attributes ++ tagEnd gap selfClosing rest))) s
        .markup rest s₁ ∧ Follows s₁ .markup n := by
  obtain ⟨s₁, hreceive, hfollows⟩ := h.stray hname hbr hgroup himage
  exact ⟨s₁, reads_step (Lexer.step_closing htag.name htag.tag?_eq _)
    (Nat.le_succ_of_le (Lexer.length_tagEnd ..)) (receiveAll_one hreceive), hfollows⟩

end

end

/-! ### Whole texts -/

/-- If all that is written is closed, the content of the page is what has been written. -/
theorem contentOf_eq {cs : List Char} {s : State} {inner : List Node}
    (hreads : Reads .markup (Lexer.normalized cs) .start .markup [] s)
    (h : Follows s .markup ⟨inner, []⟩) : textlessAll (contentOf cs) = inner := by
  obtain ⟨s₁, b, r, hreceive, hfits, hb, hr, rfl⟩ := h.eof
  obtain ⟨fuel, hfuel, hread⟩ := hreads ((Lexer.normalized cs).length + 1) (Nat.lt_succ_self _)
  obtain ⟨fuel, rfl⟩ := Nat.exists_eq_add_one_of_ne_zero (Nat.ne_of_gt hfuel)
  have hdone : readText (fuel + 1) .markup [] s = ((), s₁) := by
    rw [readText]
    · exact discard_eq hreceive
    · exact Nat.succ_ne_zero fuel
  have harena : ofText cs = s₁.arena := by
    unfold ofText
    change (readText ((Lexer.normalized cs).length + 1) .markup (Lexer.normalized cs) .start).2.arena = _
    rw [hread, hdone]
  unfold contentOf
  dsimp only
  rw [harena]
  exact hfits.content_eq hb hr

end Nodecraft.Markup.Build
