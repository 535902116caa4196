import Nodecraft.Proofs.Markup.Closing

/-!
# Pages and their tables

Between tags, the open elements in the body of a page are those of the written elements, each where it may
stand (`OnPage`), and the mode is the one that goes with their names (`Standing`). Processing a token takes
the builder from one such state to another (`Takes`). In a table, an opening tag of a part opens it right in
the element that holds it (`opensPart`), and its closing tag goes back there (`closesPart`).
-/

set_option autoImplicit false

namespace Nodecraft.Markup.Build

/-- The frames of written elements in the body of a page, each where it may stand. -/
inductive OnPage : List Frame → Prop
  | body {b root : Frame} : b.element.label = "body" → root.element.label = "html" → OnPage [b, root]
  | html {f : Frame} {frames : List Frame} : f.element.space = .html →
    MayStand (namesOf frames) f.element.label → f.element.label ∉ textNames →
    f.element.label ∉ emptyNames → OnPage frames → OnPage (f :: frames)
  | foreign {f : Frame} {frames : List Frame} : f.element.space ≠ .html → "select" ∉ namesOf frames →
    (∀ outer ∈ (namesOf frames).head?, ¬HoldsParts outer) →
    f.element.closedBy ∉ ["p", "html", "head", "body"] ++ voidNames → OnPage frames →
    OnPage (f :: frames)

/-- A state between tokens, when the given elements are open in the body. -/
structure Standing (s : State) (frames : List Frame) : Prop where
  fits : Fits s frames
  onPage : OnPage frames
  mode : s.mode = modeOf (namesOf frames)

section

variable {s : State} {f g : Frame} {frames outer : List Frame} {tag : Tag}

/-- Finished content does not change where the page is. -/
theorem OnPage.withNode (h : OnPage (f :: outer)) (n : Node) : OnPage (f.withNode n :: outer) := by
  cases h with
  | body hname hroot => exact .body hname hroot
  | html hspace hstand htext hvoid hrest => exact .html hspace hstand htext hvoid hrest
  | foreign hspace hselect hholds hvoid hrest => exact .foreign hspace hselect hholds hvoid hrest

/-- Around every element but the body there is the rest of the page. -/
theorem OnPage.tail (h : OnPage (f :: frames)) (hf : f.element.label ≠ "body") : OnPage frames := by
  cases h with
  | body hname _ => exact absurd hname hf
  | html _ _ _ _ hrest => exact hrest
  | foreign _ _ _ _ hrest => exact hrest

theorem OnPage.ne_nil (h : OnPage frames) : ∃ f outer, frames = f :: outer := by
  cases h with
  | body => exact ⟨_, _, rfl⟩
  | html => exact ⟨_, _, rfl⟩
  | foreign => exact ⟨_, _, rfl⟩

/-- The body is never alone: it stands in the page's root. -/
theorem OnPage.one_lt_length (h : OnPage frames) : 1 < frames.length := by
  induction h with
  | body => exact Nat.one_lt_two
  | html _ _ _ _ _ ih => exact Nat.lt_succ_of_lt ih
  | foreign _ _ _ _ _ ih => exact Nat.lt_succ_of_lt ih

/-- At the outside of a page, there are its body and its root. -/
theorem OnPage.page (h : OnPage [f, g]) : f.element.label = "body" ∧ g.element.label = "html" := by
  cases h with
  | body hname hroot => exact ⟨hname, hroot⟩
  | html _ _ _ _ hrest => exact absurd hrest.one_lt_length (Nat.lt_irrefl 1)
  | foreign _ _ _ _ hrest => exact absurd hrest.one_lt_length (Nat.lt_irrefl 1)

/-! ### Modes -/

/-- Inside of a list of choices the mode is its own, or that of one in a table. -/
theorem modeOf_select {around : List String} (h : OnPage frames) (haround : namesOf frames = around)
    (hselect : "select" ∈ around) : modeOf around = .inSelect ∨ modeOf around = .inSelectInTable := by
  subst haround
  induction h with
  | body hb hr =>
    rw [namesOf, List.map_cons, List.map_cons, hb, hr] at hselect
    exact absurd hselect (by decide)
  | @foreign f frames hspace hnone _ _ _ _ =>
    refine absurd ((List.mem_cons.1 hselect).resolve_left fun heq ↦ ?_) hnone
    exact Element.label_ne hspace (by decide) heq.symm
  | @html f frames _ hstand _ _ _ ih =>
    change "select" ∈ f.element.label :: namesOf frames at hselect
    change modeOf (f.element.label :: namesOf frames) = _ ∨
      modeOf (f.element.label :: namesOf frames) = _
    by_cases hf : f.element.label = "select"
    · rw [hf, modeOf]
      split
      · exact .inl rfl
      · exact .inr rfl
    · have houter := (List.mem_cons.1 hselect).resolve_left (Ne.symm hf)
      have hname : f.element.label ∈ ["option", "optgroup", "script"] := by
        rcases hstand.select houter with ⟨heq, -⟩ | ⟨heq, -⟩ | heq
        all_goals
          rw [heq]
          decide
      have hplain : ∀ n ∈ ["option", "optgroup", "script"], n ∉ modedNames := by decide
      rw [modeOf_cons (hplain _ hname)]
      exact ih houter

/-- Where text may stand outside of selections, content is read as in a body. -/
theorem modeOf_flow (h : OnPage frames) (hselect : "select" ∉ namesOf frames)
    (hholds : ∀ outer ∈ (namesOf frames).head?, ¬HoldsParts outer) :
    modeOf (namesOf frames) ∈ flowModes := by
  induction h with
  | body hb hr =>
    rw [namesOf, List.map_cons, List.map_cons, hb, hr]
    decide
  | @foreign f frames hspace hnone hparts _ _ ih =>
    have hmoded : f.element.label ∉ modedNames := Element.label_not_mem hspace (by decide)
    change modeOf (f.element.label :: namesOf frames) ∈ flowModes
    rw [modeOf_cons hmoded]
    exact ih hnone hparts
  | @html f frames _ hstand htext hvoid _ ih =>
    change "select" ∉ f.element.label :: namesOf frames at hselect
    obtain ⟨hf, houter⟩ := not_or.1 (mt List.mem_cons.2 hselect)
    have hholdsf := hholds f.element.label rfl
    change modeOf (f.element.label :: namesOf frames) ∈ flowModes
    by_cases hmoded : f.element.label ∈ modedNames
    · have hcells : ∀ n ∈ modedNames, n = "select" ∨ HoldsParts n ∨ n = "td" ∨ n = "th" ∨
          n = "caption" := by decide
      rcases hcells _ hmoded with heq | hparts | heq | heq | heq
      · exact absurd heq.symm hf
      · exact absurd hparts hholdsf
      all_goals
        rw [heq, modeOf]
        decide
    · rw [modeOf_cons hmoded]
      refine ih houter fun outer hhead hparts ↦ ?_
      have hsplit : ∀ n ∈ tablePartNames ++ ["script", "style"],
          n ∈ modedNames ∨ n ∈ textNames ∨ n ∈ emptyNames := by decide
      rcases hsplit _ (hstand.of_holdsParts hhead hparts) with hmem | hmem | hmem
      · exact hmoded hmem
      · exact htext hmem
      · exact hvoid hmem

/-- The mode that is chosen anew when an element has been closed. -/
theorem OnPage.modeFor_eq (h : OnPage frames)
    (helement : ∀ f ∈ frames, s.arena.element f.node = f.element)
    (hselect : "select" ∉ namesOf frames) :
    modeFor s (frames.map Frame.node) = modeOf (namesOf frames) := by
  induction h with
  | @body b root hb hr =>
    have hbody : s.arena.element b.node = b.element := helement b List.mem_cons_self
    have hhtml : b.element.space = .html := Element.space_of_label (by rw [hb]; decide)
    have hspace : b.element.isHtml = true := beq_iff_eq.2 hhtml
    have hname : b.element.name = "body" := (Element.label_of_html hhtml).symm.trans hb
    have hmode : modeOf (namesOf [b, root]) = .inBody := by
      rw [namesOf, List.map_cons, List.map_cons, hb, hr]
      rfl
    rw [List.map_cons, modeFor, hbody, hspace, hname, hmode]
    rfl
  | @foreign f frames hspace hnone _ _ honPage ih =>
    obtain ⟨hf, helement⟩ := List.forall_mem_cons.1 helement
    have hmoded : f.element.label ∉ modedNames := Element.label_not_mem hspace (by decide)
    change modeFor s (f.node :: frames.map Frame.node) = modeOf (f.element.label :: namesOf frames)
    rw [modeFor, hf, Element.isHtml_eq_false hspace, if_pos (by decide), modeOf_cons hmoded]
    exact ih helement hnone
  | @html f frames hspace hstand _ _ honPage ih =>
    obtain ⟨hf, helement⟩ := List.forall_mem_cons.1 helement
    rw [Element.label_of_html hspace] at hstand
    have hisHtml : f.element.isHtml = true := beq_iff_eq.2 hspace
    change "select" ∉ f.element.label :: namesOf frames at hselect
    obtain ⟨hnotSelect, houter⟩ := not_or.1 (mt List.mem_cons.2 hselect)
    have hrest := ih helement houter
    have hnonempty : (frames.map Frame.node).isEmpty = false := by
      obtain ⟨g, outer, rfl⟩ := honPage.ne_nil
      rfl
    change modeFor s (f.node :: frames.map Frame.node) = modeOf (f.element.label :: namesOf frames)
    rw [Element.label_of_html hspace] at hnotSelect ⊢
    rw [modeFor, hf, hisHtml, if_neg (by decide)]
    by_cases hmoded : f.element.name ∈ modedNames
    · simp only [modedNames, List.mem_cons, List.not_mem_nil, or_false] at hmoded
      rcases hmoded with heq | heq | heq | heq | heq | heq | heq | heq | heq | heq
      · exact absurd heq.symm hnotSelect
      all_goals
        rw [heq, modeOf]
        first | rfl | exact if_neg (Bool.eq_false_iff.1 hnonempty)
    · have hne {n : String} (hn : n ∈ strayNames ++ modedNames) : f.element.name ≠ n := by
        rintro rfl
        exact (List.mem_append.1 hn).elim hstand.notStray hmoded
      rw [modeOf_cons hmoded, ← hrest]
      split
      all_goals first
        | rfl
        | exact absurd ‹f.element.name = _› (hne (by decide))

/-! ### Receiving a token -/

/-- The state in which a token is processed. -/
def State.awake (s : State) : State := { s with skipsLineFeed := false }

theorem Fits.awake (h : Fits s frames) : Fits s.awake frames :=
  h.with_flags s.mode s.returnMode s.framesetAllowed false

theorem Standing.awake (h : Standing s frames) : Standing s.awake frames :=
  ⟨h.fits.awake, h.onPage, h.mode⟩

/-- With fuel for so many rounds, processing a token comes to an end in a state, and tells what the
text behind it is read as. -/
def Takes (rounds : Nat) (t : Token) (s : State) (kind : Option TextMode) (s₁ : State) : Prop :=
  ∀ fuel, process t (fuel + rounds) s = (kind, s₁)

/-- What a mode does with a token that no foreign element asks for. -/
theorem Gives.takes {t : Token} {mode : Mode} (h : Gives (inMode s.mode t) s frames mode)
    (hforeign : isForeign s t = false) :
    ∃ s₁, Takes 1 t s none s₁ ∧ Fits s₁ frames ∧ s₁.mode = mode := by
  obtain ⟨s₁, heq, hrest⟩ := h
  exact ⟨s₁, fun _ ↦ process_done hforeign heq, hrest⟩

/-- Tags and the end of the text are processed as they come. -/
theorem Takes.receive {rounds : Nat} {t : Token} {kind : Option TextMode} {s₁ : State}
    (h : Takes rounds t s.awake kind s₁) (hrounds : rounds ≤ 32)
    (ht : t = .eof ∨ (∃ tag, t = .opening tag) ∨ ∃ name, t = .closing name) :
    receive t s = (kind, s₁) := by
  have hfuel : 4 * s.opened.length + 32 = 4 * s.opened.length + (32 - rounds) + rounds := by omega
  have hreceive : process t (4 * s.opened.length + 32) s.awake = (kind, s₁) := by
    rw [hfuel]
    exact h _
  rcases ht with rfl | ⟨tag, rfl⟩ | ⟨name, rfl⟩
  · exact hreceive
  · exact hreceive
  · exact hreceive

/-- A character is left out or processed. -/
theorem Takes.receive_char {rounds : Nat} {c : Char} {s₁ : State}
    (h : Takes rounds (.char c) s.awake none s₁) (hrounds : rounds ≤ 32) :
    Build.receive (.char c) s = (none, s.awake) ∨ Build.receive (.char c) s = (none, s₁) := by
  have hfuel : 4 * s.opened.length + 32 = 4 * s.opened.length + (32 - rounds) + rounds := by omega
  have hreceive : Build.receive (.char c) s = (if s.skipsLineFeed && c == '\n' then pure none
      else process (.char c) (4 * s.opened.length + 32) : Building (Option TextMode)) s.awake := rfl
  rw [hreceive, hfuel]
  cases s.skipsLineFeed && c == '\n' with
  | true => exact .inl rfl
  | false => exact .inr (h _)

/-! ### Selections -/

/-- In a list of choices, choices and groups of them open. -/
theorem openingInSelect_gives (h : Fits s (f :: outer))
    (htag : (tag.name = "option" ∧ (f.element.label = "select" ∨ f.element.label = "optgroup")) ∨
      (tag.name = "optgroup" ∧ f.element.label = "select")) :
    Gives (openingInSelect tag) s (AfterOpening s (f :: outer) tag) s.mode := by
  have hcurrent (name : String) (hword : IsWord name) (hne : f.element.label ≠ name) :
      currentNamed name s = (false, s) := by
    have heq := currentIs_eq h (Element.named name)
    rwa [Element.named_eq hword, beq_eq_false_iff_ne.2 hne] at heq
  have hnotOption : f.element.label ≠ "option" := by
    rintro heq
    rw [heq] at htag
    rcases htag with ⟨-, h | h⟩ | ⟨-, h⟩
    all_goals exact absurd h (by decide)
  obtain ⟨name, attributes, selfClosing⟩ := tag
  have hopens (hname : IsPlain name) :
      Gives (do openTag ⟨name, attributes, selfClosing⟩; Build.done) s
        (AfterOpening s (f :: outer) ⟨name, attributes, selfClosing⟩) s.mode := by
    obtain ⟨hopen, hfits⟩ := @openTag_gives s (f :: outer) ⟨name, attributes, selfClosing⟩ h hname
    exact .bind hopen ⟨_, rfl, hfits, rfl⟩
  rcases htag with ⟨rfl, -⟩ | ⟨rfl, hf⟩
  · exact .bind (hcurrent "option" (by decide) hnotOption) (hopens (by decide))
  · have hnotGroup : f.element.label ≠ "optgroup" := by
      rw [hf]
      decide
    exact .bind (hcurrent "option" (by decide) hnotOption) (.bind (hcurrent "optgroup" (by decide) hnotGroup)
      (hopens (by decide)))

/-- Options and their groups close in a list of choices. -/
theorem closingInSelect_gives (h : Fits s (f :: g :: outer))
    (hplace : (f.element.label = "option" ∧
        (g.element.label = "select" ∨ g.element.label = "optgroup")) ∨
      (f.element.label = "optgroup" ∧ g.element.label = "select")) :
    Gives (closingInSelect f.element.label) s (AfterClosing f g outer) s.mode := by
  have hcurrent (name : String) (hword : IsWord name) :
      currentNamed name s = (f.element.label == name, s) := by
    have heq := currentIs_eq h (Element.named name)
    rwa [Element.named_eq hword] at heq
  have hpop (hplain : f.element.label ∉ notedNames) :
      Gives (do pop; Build.done) s (AfterClosing f g outer) s.mode :=
    .bind rfl ⟨_, rfl, h.pop_plain hplain, rfl⟩
  rcases hplace with ⟨hf, -⟩ | ⟨hf, -⟩
  · have hoption := hcurrent "option" (by decide)
    have hplain : f.element.label ∉ notedNames := by
      rw [hf]
      decide
    rw [hf] at hoption ⊢
    exact .bind hoption (hpop hplain)
  · have hgroup := hcurrent "optgroup" (by decide)
    have hplain : f.element.label ∉ notedNames := by
      rw [hf]
      decide
    have hnotOption : (s.arena.element f.node).named "option" = false := by
      rw [h.element_eq List.mem_cons_self, Element.named_eq (by decide), hf]
      rfl
    rw [hf] at hgroup ⊢
    change Gives closeGroup _ _ _
    unfold closeGroup
    refine .bind (t := s) rfl ?_
    rw [h.opened, List.map_cons, List.map_cons]
    dsimp only
    rw [hnotOption]
    exact .bind hgroup (hpop hplain)

/-- The closing tag of a selection goes back to the content around it. -/
theorem closeSelect_gives (h : Standing s (f :: g :: outer)) (hf : f.element.label = "select")
    (houter : "select" ∉ namesOf (g :: outer)) :
    Gives (closingInSelect "select") s (AfterClosing f g outer) (modeOf (namesOf (g :: outer))) := by
  have hhtml : f.element.space = .html := Element.space_of_label (by rw [hf]; decide)
  have hscope := inScope_eq_true h.fits Element.endsSelectScope (Element.named_label hhtml)
  have hthrough := popThrough_eq h.fits (Element.named_label hhtml)
  have hfits := h.fits.pop_plain (by rw [hf]; decide)
  rw [hf] at hscope hthrough
  have honPage : OnPage (AfterClosing f g outer) :=
    (h.onPage.tail (by rw [hf]; decide)).withNode _
  have hmode := honPage.modeFor_eq (fun f hf ↦ hfits.element_eq hf) houter
  rw [← hfits.opened] at hmode
  exact .bind hscope (.bind hthrough (.bind rfl ⟨_, rfl,
    hfits.with_flags _ s.returnMode s.framesetAllowed s.skipsLineFeed, hmode⟩))

/-! ### Opening tags -/

/-- An HTML element is asked for by its name. -/
theorem oneOf_of_mem {e : Element} {names : List String} (hnames : ∀ n ∈ names, IsWord n)
    (he : e.label ∈ names) : e.oneOf names = true := by
  rw [Element.oneOf_eq hnames]
  exact List.contains_iff_mem.2 he

/-- The tag of a part, right in the element that it belongs to. -/
theorem openTablePart_gives (h : Fits s (f :: outer)) (hf : f.element.label = "table")
    (htag : IsPlain tag.name) (mode : Mode) :
    Gives (openTablePart tag mode) s (AfterOpening s (f :: outer) tag) mode := by
  obtain ⟨hopen, hfits⟩ := openTag_gives h htag
  have hroot : isTableRoot f.element = true := oneOf_of_mem (by decide) (by rw [hf]; decide)
  exact .bind (popTo_eq h hroot) (.bind hopen (.bind rfl
    ⟨_, rfl, hfits.with_flags mode s.returnMode s.framesetAllowed s.skipsLineFeed, rfl⟩))

/-- The element of a tag is the innermost one, and formatting starts afresh in it. -/
theorem Fits.push_marked (h : Fits s (f :: outer)) (hname : tag.name ∈ markedElements) :
    Fits { s.withOpened (f :: outer) tag.element with formatting := .marker :: s.formatting }
      (AfterOpening s (f :: outer) tag) := by
  obtain ⟨hword, htemplate, hform⟩ := word_of_mem (by decide) hname
  have hfits := h.push hword htemplate (.marker (f := s.arena.nextFrame tag.element) hname h.listed)
  rwa [formOf_nextFrame, if_neg hform, ← h.form] at hfits

/-- A caption opens in a table. -/
theorem openCaption_gives (h : Fits s (f :: outer)) (hf : f.element.label = "table")
    (htag : tag.name = "caption") :
    Gives (openingInTable tag) s (AfterOpening s (f :: outer) tag) .inCaption := by
  have hroot : isTableRoot f.element = true := oneOf_of_mem (by decide) (by rw [hf]; decide)
  have hmarked : tag.name ∈ markedElements := by
    rw [htag]
    decide
  have hne : tag.name ≠ "template" := by
    rw [htag]
    decide
  have hfits := h.push_marked hmarked
  have hplaced : Placed { s with formatting := .marker :: s.formatting } (f :: outer) :=
    ⟨h.opens, h.opened, h.fostering⟩
  have hopen := openTag_eq hplaced hne
  unfold openingInTable
  rw [htag]
  exact .bind (popTo_eq h hroot) (.bind rfl (.bind hopen (.bind rfl
    ⟨_, rfl, hfits.with_flags .inCaption s.returnMode s.framesetAllowed s.skipsLineFeed, rfl⟩)))

/-- A row opens in a section. -/
theorem openRow_gives (h : Fits s (f :: outer)) (hf : f.element.label ∈ ["tbody", "tfoot", "thead"])
    (htag : tag.name = "tr") :
    Gives (inTableBody (.opening tag)) s (AfterOpening s (f :: outer) tag) .inRow := by
  have hroot : isSectionRoot f.element = true := by
    unfold isSectionRoot Element.isTableSection
    rw [oneOf_of_mem (by decide) hf]
    rfl
  have hplain : IsPlain tag.name := by
    rw [htag]
    decide
  obtain ⟨hopen, hfits⟩ := openTag_gives h hplain
  have hrow : inTableBody (.opening tag) =
      (do popTo isSectionRoot; openTag tag; setMode .inRow; Build.done) := by
    unfold inTableBody
    dsimp only
    rw [htag]
    rfl
  rw [hrow]
  exact .bind (popTo_eq h hroot) (.bind hopen (.bind rfl
    ⟨_, rfl, hfits.with_flags .inRow s.returnMode s.framesetAllowed s.skipsLineFeed, rfl⟩))

/-- A cell opens in a row. -/
theorem openCell_gives (h : Fits s (f :: outer)) (hf : f.element.label = "tr")
    (htag : tag.name ∈ ["td", "th"]) :
    Gives (inRow (.opening tag)) s (AfterOpening s (f :: outer) tag) .inCell := by
  have hroot : isRowRoot f.element = true := oneOf_of_mem (by decide) (by rw [hf]; decide)
  have hmarked : ["td", "th"] ⊆ markedElements := by decide
  have hfits := h.push_marked (hmarked htag)
  have hne : tag.name ≠ "template" := by
    rintro heq
    rw [heq] at htag
    exact absurd htag (by decide)
  have hcell : inRow (.opening tag) = (do
      popTo isRowRoot
      openTag tag
      setMode .inCell
      addMarker
      Build.done) := by
    obtain heq | heq : tag.name = "td" ∨ tag.name = "th" := by simpa using htag
    all_goals
      unfold inRow
      dsimp only
      rw [heq]
      rfl
  rw [hcell]
  exact .bind (popTo_eq h hroot) (.bind (openTag_eq h.placed hne) (.bind rfl (.bind rfl
    ⟨_, rfl, hfits.with_flags .inCell s.returnMode s.framesetAllowed s.skipsLineFeed, rfl⟩)))

/-- The ways in which parts stand in others. -/
theorem partsOf_cases {outer name : String} (h : name ∈ partsOf outer) :
    (outer = "table" ∧ name = "caption") ∨ (outer = "table" ∧ name = "colgroup") ∨
      (outer = "table" ∧ name ∈ ["tbody", "tfoot", "thead"]) ∨
      (outer ∈ ["tbody", "tfoot", "thead"] ∧ name = "tr") ∨
      (outer = "tr" ∧ name ∈ ["td", "th"]) ∨ (outer = "colgroup" ∧ name = "col") := by
  have hall : ∀ outer ∈ "colgroup" :: partHolders, ∀ name ∈ partsOf outer,
      (outer = "table" ∧ name = "caption") ∨ (outer = "table" ∧ name = "colgroup") ∨
      (outer = "table" ∧ name ∈ ["tbody", "tfoot", "thead"]) ∨
      (outer ∈ ["tbody", "tfoot", "thead"] ∧ name = "tr") ∨
      (outer = "tr" ∧ name ∈ ["td", "th"]) ∨ (outer = "colgroup" ∧ name = "col") := by decide
  exact hall outer (mem_partsOf h).1 name h

theorem modeOf_section {name : String} (h : name ∈ ["tbody", "tfoot", "thead"])
    (outer : List String) : modeOf (name :: outer) = .inTableBody := by
  obtain rfl | rfl | rfl : name = "tbody" ∨ name = "tfoot" ∨ name = "thead" := by simpa using h
  all_goals rfl

theorem modeOf_cell {name : String} (h : name ∈ ["td", "th"]) (outer : List String) :
    modeOf (name :: outer) = .inCell := by
  obtain rfl | rfl : name = "td" ∨ name = "th" := by simpa using h
  all_goals rfl

theorem namesOf_cons (f : Frame) (outer : List Frame) :
    namesOf (f :: outer) = f.element.label :: namesOf outer := rfl

/-- Parts are opened in the elements that hold them. -/
theorem opensPart (h : Fits s (f :: outer)) (hmode : s.mode = modeOf (namesOf (f :: outer)))
    (hpart : tag.name ∈ partsOf f.element.label) (hcol : tag.name ≠ "col") :
    Gives (inMode s.mode (.opening tag)) s (AfterOpening s (f :: outer) tag)
      (modeOf (tag.name :: namesOf (f :: outer))) := by
  rw [hmode, namesOf_cons]
  rcases partsOf_cases hpart with ⟨hf, htag⟩ | ⟨hf, htag⟩ | ⟨hf, htag⟩ | ⟨hf, htag⟩ | ⟨hf, htag⟩ |
    ⟨-, htag⟩
  · rw [hf, htag]
    exact openCaption_gives h hf htag
  · have hplain : IsPlain tag.name := by
      rw [htag]
      decide
    have hgives := openTablePart_gives h hf hplain .inColumnGroup
    have hopening : openingInTable tag = openTablePart tag .inColumnGroup := by
      unfold openingInTable
      rw [htag]
      rfl
    rw [hf, htag]
    rw [← hopening] at hgives
    exact hgives
  · have hplain : ∀ n ∈ ["tbody", "tfoot", "thead"], IsPlain n := by
      decide
    have hgives := openTablePart_gives h hf (hplain _ htag) .inTableBody
    have hopening : openingInTable tag = openTablePart tag .inTableBody := by
      unfold openingInTable
      obtain heq | heq | heq : tag.name = "tbody" ∨ tag.name = "tfoot" ∨ tag.name = "thead" := by
        simpa using htag
      all_goals
        rw [heq]
        rfl
    rw [hf, modeOf_section htag]
    rw [← hopening] at hgives
    exact hgives
  · rw [modeOf_section hf, htag]
    exact openRow_gives h hf htag
  · rw [hf, modeOf_cell htag]
    exact openCell_gives h hf htag
  · exact absurd htag hcol

/-! ### Closing tags -/

/-- The innermost element is in the scope of tables, and is closed by its name. -/
theorem table_scope_of_label (h : Fits s (f :: outer)) {name : String} (hword : IsWord name)
    (hf : f.element.label = name) :
    namedInScope Element.endsTableScope name s = (true, s) ∧
      popNamed name s = ((), { s with opened := s.opened.tail }) := by
  subst hf
  have hnamed := Element.named_label (Element.space_of_label hword)
  exact ⟨inScope_eq_true h Element.endsTableScope hnamed, popThrough_eq h hnamed⟩

/-- A caption closes. -/
theorem closeCaption_gives (h : Fits s (f :: g :: outer)) (hf : f.element.label = "caption") :
    Gives (inCaption (.closing "caption")) s (AfterClosing f g outer) .inTable := by
  obtain ⟨rest, hclear, hfits⟩ := h.pop_marked (by rw [hf]; decide)
  obtain ⟨hscope, hnamed⟩ := table_scope_of_label h (by decide) hf
  have hclose : closeCaption s = (true, { s with opened := s.opened.tail, formatting := rest }) := by
    unfold closeCaption
    exact bind_eq hscope (bind_eq (popEnding_eq h (by rw [hf]; decide)) (bind_eq hnamed
      (bind_eq hclear rfl)))
  exact .bind hclose (.bind rfl
    ⟨_, rfl, hfits.with_flags .inTable s.returnMode s.framesetAllowed s.skipsLineFeed, rfl⟩)

/-- A group of columns closes. -/
theorem closeColumns_gives (h : Fits s (f :: g :: outer)) (hf : f.element.label = "colgroup") :
    Gives (inColumnGroup (.closing "colgroup")) s (AfterClosing f g outer) .inTable := by
  have hcurrent := currentIs_eq h (Element.named "colgroup")
  rw [Element.named_eq (by decide), hf] at hcurrent
  have hfits := h.pop_plain (by rw [hf]; decide)
  exact .bind hcurrent (.bind rfl (.bind rfl
    ⟨_, rfl, hfits.with_flags .inTable s.returnMode s.framesetAllowed s.skipsLineFeed, rfl⟩))

/-- A section closes. -/
theorem closeSection_gives (h : Fits s (f :: g :: outer))
    (hf : f.element.label ∈ ["tbody", "tfoot", "thead"]) :
    Gives (inTableBody (.closing f.element.label)) s (AfterClosing f g outer) .inTable := by
  have hroot : isSectionRoot f.element = true := by
    unfold isSectionRoot Element.isTableSection
    rw [oneOf_of_mem (by decide) hf]
    rfl
  have hplain : ∀ n ∈ ["tbody", "tfoot", "thead"], IsWord n ∧ n ∉ notedNames := by decide
  have hfits := h.pop_plain (hplain _ hf).2
  have hscope := (table_scope_of_label h (hplain _ hf).1 rfl).1
  have hclose : closeSection s = ((), { s with opened := s.opened.tail }) :=
    popThrough_eq h hroot
  have hgives : Gives (do
      if ← namedInScope Element.endsTableScope f.element.label then
        closeSection
        setMode .inTable
      Build.done) s (AfterClosing f g outer) .inTable :=
    .bind hscope (.bind hclose (.bind rfl
      ⟨_, rfl, hfits.with_flags .inTable s.returnMode s.framesetAllowed s.skipsLineFeed, rfl⟩))
  obtain heq | heq | heq : f.element.label = "tbody" ∨ f.element.label = "tfoot" ∨
      f.element.label = "thead" := by simpa using hf
  all_goals
    rw [heq] at hgives ⊢
    exact hgives

/-- A row closes. -/
theorem closeRow_gives (h : Fits s (f :: g :: outer)) (hf : f.element.label = "tr") :
    Gives (inRow (.closing "tr")) s (AfterClosing f g outer) .inTableBody := by
  have hroot : isRowRoot f.element = true := oneOf_of_mem (by decide) (by rw [hf]; decide)
  have hfits := h.pop_plain (by rw [hf]; decide)
  have hclose : closeRow s = (true, { s with opened := s.opened.tail }) := by
    unfold closeRow
    exact bind_eq (table_scope_of_label h (by decide) hf).1 (bind_eq (popTo_eq h hroot) rfl)
  exact .bind hclose (.bind rfl
    ⟨_, rfl, hfits.with_flags .inTableBody s.returnMode s.framesetAllowed s.skipsLineFeed, rfl⟩)

/-- A cell closes. -/
theorem closeCell_gives (h : Fits s (f :: g :: outer)) (hf : f.element.label ∈ ["td", "th"]) :
    Gives (inCell (.closing f.element.label)) s (AfterClosing f g outer) .inRow := by
  have hmarked : ["td", "th"] ⊆ markedElements := by decide
  have hplain : ∀ n ∈ ["td", "th"], IsWord n ∧ n ∉ impliedNames := by decide
  obtain ⟨rest, hclear, hfits⟩ := h.pop_marked (hmarked hf)
  obtain ⟨hscope, hnamed⟩ := table_scope_of_label h (hplain _ hf).1 rfl
  have hgives : Gives (do
      if ← namedInScope Element.endsTableScope f.element.label then
        popImplied Element.endsByItself
        popNamed f.element.label
        clearToMarker
        setMode .inRow
      Build.done) s (AfterClosing f g outer) .inRow :=
    .bind hscope (.bind (popEnding_eq h (hplain _ hf).2) (.bind hnamed (.bind hclear (.bind rfl
      ⟨_, rfl, hfits.with_flags .inRow s.returnMode s.framesetAllowed s.skipsLineFeed, rfl⟩))))
  obtain heq | heq : f.element.label = "td" ∨ f.element.label = "th" := by simpa using hf
  all_goals
    rw [heq] at hgives ⊢
    exact hgives

/-- The closing tag of a part goes back to the element that holds it. -/
theorem closesPart (h : Fits s (f :: g :: outer)) (hmode : s.mode = modeOf (namesOf (f :: g :: outer)))
    (hpart : f.element.label ∈ partsOf g.element.label) (hcol : f.element.label ≠ "col") :
    Gives (inMode s.mode (.closing f.element.label)) s (AfterClosing f g outer)
      (modeOf (namesOf (g :: outer))) := by
  rw [hmode, namesOf_cons, namesOf_cons]
  rcases partsOf_cases hpart with ⟨hg, hf⟩ | ⟨hg, hf⟩ | ⟨hg, hf⟩ | ⟨hg, hf⟩ | ⟨hg, hf⟩ | ⟨-, hf⟩
  · rw [hg, hf]
    exact closeCaption_gives h hf
  · rw [hg, hf]
    exact closeColumns_gives h hf
  · rw [hg, modeOf_section hf]
    exact closeSection_gives h hf
  · rw [modeOf_section hg, hf]
    exact closeRow_gives h hf
  · rw [hg, modeOf_cell hf]
    exact closeCell_gives h hf
  · exact absurd hf hcol

/-- The closing tag of a table goes back to what is around it. -/
theorem closeTable_gives (h : Standing s (f :: g :: outer)) (hf : f.element.label = "table")
    (houter : "select" ∉ namesOf (g :: outer)) :
    Gives (closingInTable "table") s (AfterClosing f g outer) (modeOf (namesOf (g :: outer))) := by
  obtain ⟨hscope, hthrough⟩ := table_scope_of_label h.fits (by decide) hf
  have hfits := h.fits.pop_plain (by rw [hf]; decide)
  have honPage : OnPage (AfterClosing f g outer) :=
    (h.onPage.tail (by rw [hf]; decide)).withNode _
  have hmode := honPage.modeFor_eq (fun f hf ↦ hfits.element_eq hf) houter
  rw [← hfits.opened] at hmode
  change Gives closeTable _ _ _
  unfold closeTable
  exact .bind hscope (.bind hthrough (.bind rfl ⟨_, rfl,
    hfits.with_flags _ s.returnMode s.framesetAllowed s.skipsLineFeed, hmode⟩))

/-! ### Columns, scripts and styles -/

/-- A column is put into its group. -/
theorem putColumn_gives (h : Fits s (f :: outer)) (htag : tag.name = "col") :
    Gives (inColumnGroup (.opening tag)) s (AfterVoid s f outer tag) s.mode := by
  have hcol : inColumnGroup (.opening tag) = (do discard (putTag tag); Build.done) := by
    unfold inColumnGroup
    dsimp only
    rw [htag]
    rfl
  rw [hcol]
  exact putTag_gives h (by rw [htag]; decide)

/-- Scripts and styles may stand between the parts of tables. -/
theorem opensText_in_table (h : Fits s (f :: outer)) (hmode : s.mode = modeOf (namesOf (f :: outer)))
    (hf : f.element.label ∈ partHolders) (htag : tag.name ∈ ["script", "style"]) :
    GivesText (inMode s.mode (.opening tag)) s (AfterOpening s (f :: outer) tag)
      (if tag.name = "script" then .script .none else .raw tag.name) s.mode := by
  obtain ⟨name, attributes, selfClosing⟩ := tag
  have hplain : ∀ n ∈ ["script", "style"], IsPlain n := by decide
  have hopens (kind : TextMode) : GivesText (openText ⟨name, attributes, selfClosing⟩ kind) s
      (AfterOpening s (f :: outer) ⟨name, attributes, selfClosing⟩) kind s.mode :=
    openText_gives h kind (hplain _ htag)
  have hmodes : s.mode = .inTable ∨ s.mode = .inTableBody ∨ s.mode = .inRow := by
    rw [hmode, namesOf_cons]
    generalize f.element.label = outerName at hf
    generalize namesOf outer = around
    simp only [partHolders, List.mem_cons, List.not_mem_nil, or_false] at hf
    rcases hf with rfl | rfl | rfl | rfl | rfl
    · exact .inl rfl
    · exact .inr (.inl rfl)
    · exact .inr (.inl rfl)
    · exact .inr (.inl rfl)
    · exact .inr (.inr rfl)
  obtain rfl | rfl : name = "script" ∨ name = "style" := by simpa using htag
  · rcases hmodes with hmode | hmode | hmode
    all_goals
      have hgives := hopens (.script .none)
      rw [hmode] at hgives ⊢
      exact hgives
  · rcases hmodes with hmode | hmode | hmode
    all_goals
      have hgives := hopens (.raw "style")
      rw [hmode] at hgives ⊢
      exact hgives

end

end Nodecraft.Markup.Build
