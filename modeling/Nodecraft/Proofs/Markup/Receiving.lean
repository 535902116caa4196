import Nodecraft.Proofs.Markup.Lexing
import Nodecraft.Proofs.Markup.Tables

/-!
# Tokens of elements that may stand where they are written

What the tokens of written elements do in the body of a page (`Standing`), whatever mode it is read
in: the opening tag of an element makes it the innermost one (`Standing.takes_opening`), its closing
tag finishes it (`Standing.takes_closing`), and void elements, texts and elements that hold nothing
but text leave the elements around them as they are. So do the closing tags of void elements
(`Standing.takes_stray`), but for the one that HTML takes for an opening tag.
-/

set_option autoImplicit false

namespace Nodecraft.Markup.Build

section

variable {s : State} {f g : Frame} {frames outer : List Frame} {tag : Tag} {mode : Mode}
  {name : String}

/-! ### Modes -/

/-- Where content flows, an opening tag that is no part of a table goes by the rules of the body. -/
theorem inMode_flow_opening (hmode : mode ∈ flowModes) (hname : tag.name ∉ tablePartNames) :
    inMode mode (.opening tag) = openingInBody tag := by
  have hpart : tablePartNames.contains tag.name = false :=
    Bool.eq_false_iff.2 fun hc ↦ hname (List.contains_iff_mem.1 hc)
  simp only [flowModes, List.mem_cons, List.not_mem_nil, or_false] at hmode
  rcases hmode with rfl | rfl | rfl
  · rfl
  · change inCell (.opening tag) = _
    unfold inCell
    dsimp only
    rw [hpart]
    rfl
  · change inCaption (.opening tag) = _
    unfold inCaption
    dsimp only
    rw [hpart]
    rfl

/-- Names whose closing tags mean more than that an element is closed, in some part of a table. -/
def outerNames : List String := "table" :: "body" :: "html" :: tablePartNames

/-- So does a closing tag that closes nothing around. -/
theorem inMode_flow_closing (hmode : mode ∈ flowModes) (hname : name ∉ outerNames) :
    inMode mode (.closing name) = closingInBody name := by
  have hnone {names : List String} (hnames : names ⊆ outerNames) : names.contains name = false :=
    Bool.eq_false_iff.2 fun hc ↦ hname (hnames (List.contains_iff_mem.1 hc))
  have hne {other : String} (hother : other ∈ outerNames) : (name == other) = false :=
    beq_false_of_ne fun heq ↦ hname (heq ▸ hother)
  simp only [flowModes, List.mem_cons, List.not_mem_nil, or_false] at hmode
  rcases hmode with rfl | rfl | rfl
  · rfl
  · change inCell (.closing name) = _
    unfold inCell
    dsimp only
    rw [hne (by decide), hne (by decide), hnone (by decide), hnone (by decide)]
    rfl
  · change inCaption (.closing name) = _
    unfold inCaption
    dsimp only
    rw [hne (by decide), hne (by decide), hnone (by decide)]
    rfl

theorem inMode_flow_char (hmode : mode ∈ flowModes) (c : Char) :
    inMode mode (.char c) = charInBody c := by
  simp only [flowModes, List.mem_cons, List.not_mem_nil, or_false] at hmode
  rcases hmode with rfl | rfl | rfl
  all_goals rfl

def selectModes : List Mode := [.inSelect, .inSelectInTable]

/-- In a list of choices its own rules hold. -/
theorem inMode_select_opening (hmode : mode ∈ selectModes) (hname : isOuterPart tag.name = false) :
    inMode mode (.opening tag) = openingInSelect tag := by
  simp only [selectModes, List.mem_cons, List.not_mem_nil, or_false] at hmode
  rcases hmode with rfl | rfl
  · rfl
  · change inSelectInTable (.opening tag) = _
    unfold inSelectInTable
    dsimp only
    rw [hname]
    rfl

theorem inMode_select_closing (hmode : mode ∈ selectModes) (hname : isOuterPart name = false) :
    inMode mode (.closing name) = closingInSelect name := by
  simp only [selectModes, List.mem_cons, List.not_mem_nil, or_false] at hmode
  rcases hmode with rfl | rfl
  · rfl
  · change inSelectInTable (.closing name) = _
    unfold inSelectInTable
    dsimp only
    rw [hname]
    rfl

theorem inMode_select_char (hmode : mode ∈ selectModes) (c : Char) :
    inMode mode (.char c) = inSelect (.char c) := by
  simp only [selectModes, List.mem_cons, List.not_mem_nil, or_false] at hmode
  rcases hmode with rfl | rfl
  all_goals rfl

/-- Modes in which a table is read between its parts. -/
def tableModes : List Mode := [.inTable, .inTableBody, .inRow]

/-- What holds parts of tables has a mode of tables. -/
theorem modeOf_partHolder (hname : name ∈ partHolders) (around : List String) :
    modeOf (name :: around) ∈ tableModes := by
  simp only [partHolders, List.mem_cons, List.not_mem_nil, or_false] at hname
  rcases hname with rfl | rfl | rfl | rfl | rfl
  all_goals
    rw [modeOf]
    decide

/-- Inside of a list of choices the mode is its own. -/
theorem OnPage.modeOf_mem_selectModes (h : OnPage frames) (hselect : "select" ∈ namesOf frames) :
    modeOf (namesOf frames) ∈ selectModes := by
  rcases modeOf_select h rfl hselect with hmode | hmode
  all_goals
    rw [hmode]
    decide

/-- The content of an open element is read in one of four ways. -/
theorem Standing.mode_cases (h : Standing s (f :: outer)) :
    ("select" ∈ namesOf (f :: outer) ∧ s.mode ∈ selectModes) ∨
      ("select" ∉ namesOf (f :: outer) ∧
        ((¬HoldsParts f.element.label ∧ s.mode ∈ flowModes) ∨
        (f.element.label ∈ partHolders ∧ s.mode ∈ tableModes) ∨
        (f.element.label = "colgroup" ∧ s.mode = .inColumnGroup))) := by
  rw [h.mode]
  by_cases hselect : "select" ∈ namesOf (f :: outer)
  · exact .inl ⟨hselect, h.onPage.modeOf_mem_selectModes hselect⟩
  refine .inr ⟨hselect, ?_⟩
  by_cases hholds : HoldsParts f.element.label
  · rcases List.mem_cons.1 hholds with hf | hf
    · refine .inr (.inr ⟨hf, ?_⟩)
      rw [namesOf_cons, hf]
      rfl
    · exact .inr (.inl ⟨hf, modeOf_partHolder hf _⟩)
  · refine .inl ⟨hholds, modeOf_flow h.onPage hselect fun name hname ↦ ?_⟩
    obtain rfl := Option.some.inj hname
    exact hholds

/-- An element stands in a selection only as a part of it. -/
theorem select_of_mayStand (hstand : MayStand (namesOf (f :: outer)) name)
    (hselect : "select" ∈ namesOf (f :: outer)) :
    (name = "option" ∧ (f.element.label = "select" ∨ f.element.label = "optgroup")) ∨
      (name = "optgroup" ∧ f.element.label = "select") ∨ name = "script" := by
  have hhead : (namesOf (f :: outer)).head? = some f.element.label := rfl
  rcases hstand.select hselect with ⟨hname, h⟩ | ⟨hname, h⟩ | hname
  · rw [hhead] at h
    exact .inl ⟨hname, h.imp Option.some.inj Option.some.inj⟩
  · rw [hhead] at h
    exact .inr (.inl ⟨hname, Option.some.inj h⟩)
  · exact .inr (.inr hname)

/-- If it is not a text, it is an option or a group of these, whose tags change no mode. -/
theorem option_of_mayStand (hstand : MayStand (namesOf (f :: outer)) name)
    (hselect : "select" ∈ namesOf (f :: outer)) (htext : name ∉ textNames) :
    ((name = "option" ∧ (f.element.label = "select" ∨ f.element.label = "optgroup")) ∨
      (name = "optgroup" ∧ f.element.label = "select")) ∧
      name ∉ modedNames ∧ isOuterPart name = false := by
  have hplain : ∀ n ∈ ["option", "optgroup"], n ∉ modedNames ∧ isOuterPart n = false := by decide
  rcases select_of_mayStand hstand hselect with hplace | hplace | hscript
  · exact ⟨.inl hplace, hplain _ (by simp [hplace.1])⟩
  · exact ⟨.inr hplace, hplain _ (by simp [hplace.1])⟩
  · rw [hscript] at htext
    exact absurd (by decide) htext

/-- An element that is neither void nor a text stands right in a part of a table only as a further
part. -/
theorem part_of_mayStand (hstand : MayStand (namesOf (f :: outer)) name)
    (hholds : HoldsParts f.element.label) (htext : name ∉ textNames) (hvoid : name ∉ emptyNames) :
    name ∈ partsOf f.element.label := by
  obtain ⟨hgroup, hholder⟩ := hstand.onlyParts f.element.label rfl
  rcases List.mem_cons.1 hholds with hf | hf
  · rw [hgroup hf] at hvoid
    exact absurd (by decide) hvoid
  · rcases List.mem_append.1 (hholder hf) with hpart | hother
    · exact hpart
    · have htexts : ["script", "style"] ⊆ textNames := by decide
      exact absurd (htexts hother) htext

/-- What may stand in flowing content is no part of a table. -/
theorem flow_of_mayStand (hstand : MayStand (namesOf (f :: outer)) name)
    (hholds : ¬HoldsParts f.element.label) : name ∉ tablePartNames := by
  refine hstand.not_part fun outer houter ↦ ?_
  obtain rfl := Option.some.inj houter
  exact hholds

/-! ### Opening tags -/

/-- Where an element may stand, its opening tag makes it the innermost one. -/
theorem Standing.takes_opening (h : Standing s (f :: outer))
    (hforeign : isForeign s (.opening tag) = false)
    (hstand : MayStand (namesOf (f :: outer)) tag.name) (hroot : tag.name ∉ foreignRoots)
    (htext : tag.name ∉ textNames) (hvoid : tag.name ∉ emptyNames) :
    ∃ s₁, Takes 1 (.opening tag) s none s₁ ∧ Standing s₁ (AfterOpening s (f :: outer) tag) := by
  have hgives : Gives (inMode s.mode (.opening tag)) s (AfterOpening s (f :: outer) tag)
      (modeOf (tag.name :: namesOf (f :: outer))) := by
    rcases h.mode_cases with ⟨hselect, hmode⟩ | ⟨-, ⟨hholds, hmode⟩ | hholds⟩
    · obtain ⟨hplace, hmoded, houter⟩ := option_of_mayStand hstand hselect htext
      rw [inMode_select_opening hmode houter, modeOf_cons hmoded, ← h.mode]
      exact openingInSelect_gives h.fits hplace
    · have hpart := flow_of_mayStand hstand hholds
      rw [inMode_flow_opening hmode hpart]
      exact opens_of_mayStand h.fits hstand hmode h.mode hroot htext hvoid hpart
    · have hparts : HoldsParts f.element.label := by
        rcases hholds with ⟨hf, -⟩ | ⟨hf, -⟩
        · exact List.mem_cons_of_mem _ hf
        · exact hf ▸ List.mem_cons_self
      refine opensPart h.fits h.mode (part_of_mayStand hstand hparts htext hvoid) ?_
      rintro hcol
      rw [hcol] at hvoid
      exact hvoid (by decide)
  obtain ⟨s₁, htakes, hfits, hmode⟩ := hgives.takes hforeign
  exact ⟨s₁, htakes, hfits, .html rfl hstand htext hvoid h.onPage, hmode⟩

/-! ### Closing tags -/

/-- Nor does its closing tag close anything around. -/
theorem notMem_outerNames (hstand : MayStand (namesOf frames) name)
    (hholds : ∀ outer ∈ (namesOf frames).head?, ¬HoldsParts outer) (htable : name ≠ "table") :
    name ∉ outerNames := by
  have hstray : ["body", "html"] ⊆ strayNames := by decide
  intro hmem
  rcases List.mem_cons.1 hmem with rfl | hmem
  · exact htable rfl
  rcases List.mem_cons.1 hmem with rfl | hmem
  · exact hstand.notStray (hstray (by decide))
  rcases List.mem_cons.1 hmem with rfl | hmem
  · exact hstand.notStray (hstray (by decide))
  · exact hstand.not_part hholds hmem

/-- The closing tag of the innermost element finishes it. -/
theorem Standing.takes_closing (h : Standing s (f :: g :: outer))
    (hstand : MayStand (namesOf (g :: outer)) f.element.label) :
    ∃ s₁, Takes 1 (.closing f.element.label) s none s₁ ∧ Standing s₁ (AfterClosing f g outer) := by
  have hhtml := Element.space_of_label hstand.word
  have hbody : f.element.label ≠ "body" := by
    intro heq
    have hstray := hstand.notStray
    rw [heq] at hstray
    exact hstray (by decide)
  obtain ⟨htext, hvoid⟩ : f.element.label ∉ textNames ∧ f.element.label ∉ emptyNames := by
    cases h.onPage with
    | body hname _ => exact absurd hname hbody
    | html _ _ htext hvoid _ => exact ⟨htext, hvoid⟩
    | foreign hspace => exact absurd hhtml hspace
  have honPage := h.onPage.tail hbody
  have hgives : Gives (inMode s.mode (.closing f.element.label)) s (AfterClosing f g outer)
      (modeOf (namesOf (g :: outer))) := by
    by_cases houter : "select" ∈ namesOf (g :: outer)
    · -- a part of a selection
      obtain ⟨hplace, hmoded, houterPart⟩ := option_of_mayStand hstand houter htext
      have hmode : s.mode = modeOf (namesOf (g :: outer)) := by
        rw [h.mode, namesOf_cons, modeOf_cons hmoded]
      have hselect : s.mode ∈ selectModes := hmode ▸ honPage.modeOf_mem_selectModes houter
      rw [inMode_select_closing hselect houterPart, ← hmode]
      exact closingInSelect_gives h.fits hplace
    by_cases hf : f.element.label = "select"
    · have hselect : s.mode ∈ selectModes := by
        have hmem : "select" ∈ namesOf (f :: g :: outer) := by
          rw [namesOf_cons, hf]
          exact List.mem_cons_self
        exact h.mode ▸ h.onPage.modeOf_mem_selectModes hmem
      rw [hf, inMode_select_closing hselect (by decide)]
      exact closeSelect_gives h hf houter
    by_cases htable : f.element.label = "table"
    · have hmode : s.mode = .inTable := by
        rw [h.mode, namesOf_cons, htable]
        rfl
      rw [hmode, htable]
      exact closeTable_gives h htable houter
    by_cases hholds : HoldsParts g.element.label
    · refine closesPart h.fits h.mode (part_of_mayStand hstand hholds htext hvoid) ?_
      rintro hcol
      rw [hcol] at hvoid
      exact hvoid (by decide)
    · have hnotHolds : ∀ name ∈ (namesOf (g :: outer)).head?, ¬HoldsParts name := fun name hname ↦ by
        obtain rfl := Option.some.inj hname
        exact hholds
      have hnames := notMem_outerNames hstand hnotHolds htable
      have hmoded : f.element.label ∉ modedNames := by
        have hsubset : ∀ n ∈ modedNames, n = "select" ∨ n ∈ outerNames := by decide
        intro hmem
        exact (hsubset _ hmem).elim hf hnames
      have hmode : s.mode = modeOf (namesOf (g :: outer)) := by
        rw [h.mode, namesOf_cons, modeOf_cons hmoded]
      have hflow : s.mode ∈ flowModes := hmode ▸ modeOf_flow honPage houter hnotHolds
      rw [inMode_flow_closing hflow hnames, ← hmode]
      exact closes_of_mayStand h.fits hhtml hstand hvoid hmoded
  obtain ⟨s₁, htakes, hfits, hmode⟩ := hgives.takes (h.fits.isForeign_eq hhtml _)
  exact ⟨s₁, htakes, hfits, honPage.withNode _, hmode⟩

/-! ### Void elements -/

section

variable {attributes : List (String × String)} {selfClosing : Bool}

theorem openingInBody_void : ∀ name ∈ ["area", "br", "embed", "img", "keygen", "wbr"],
    openingInBody ⟨name, attributes, selfClosing⟩ = putVoid ⟨name, attributes, selfClosing⟩ := by
  simp only [List.forall_mem_cons]
  and_intros
  all_goals first | rfl | exact fun _ h ↦ absurd h List.not_mem_nil

theorem openingInBody_bare : ∀ name ∈ ["base", "basefont", "bgsound", "link", "meta", "param",
      "source", "track"], openingInBody ⟨name, attributes, selfClosing⟩ =
      (do discard (putTag ⟨name, attributes, selfClosing⟩); Build.done) := by
  simp only [List.forall_mem_cons]
  and_intros
  all_goals first | rfl | exact fun _ h ↦ absurd h List.not_mem_nil

/-- A void element that may stand is put in. -/
theorem puts_of_mayStand (h : Fits s (f :: outer)) (hstand : MayStand (namesOf (f :: outer)) name)
    (hvoid : name ∈ voidNames) (hcol : name ≠ "col") :
    Gives (openingInBody ⟨name, attributes, selfClosing⟩) s
      (AfterVoid s f outer ⟨name, attributes, selfClosing⟩) s.mode := by
  have hne : ∀ n ∈ voidNames, n ≠ "template" := by decide
  have hput := @discard_putTag_eq _ _ ⟨name, attributes, selfClosing⟩ h (hne _ hvoid)
  have hfits := h.put (Tag.element ⟨name, attributes, selfClosing⟩)
  have hforbids : Gives (do forbidFrameset; Build.done)
      (s.withElement (f :: outer) (Tag.element ⟨name, attributes, selfClosing⟩))
      (AfterVoid s f outer ⟨name, attributes, selfClosing⟩) s.mode :=
    .bind rfl ⟨_, rfl, hfits.with_flags s.mode s.returnMode false s.skipsLineFeed, rfl⟩
  by_cases hnormal : name ∈ ["area", "br", "embed", "img", "keygen", "wbr"]
  · rw [openingInBody_void _ hnormal]
    exact putVoid_gives h (hne _ hvoid)
  by_cases hbare : name ∈ ["base", "basefont", "bgsound", "link", "meta", "param", "source", "track"]
  · rw [openingInBody_bare _ hbare]
    exact putTag_gives h (hne _ hvoid)
  have hothers : ∀ n ∈ voidNames, n ∉ ["area", "br", "embed", "img", "keygen", "wbr"] →
      n ∉ ["base", "basefont", "bgsound", "link", "meta", "param", "source", "track"] →
      n ≠ "col" → n = "hr" ∨ n = "input" := by decide
  obtain rfl | rfl := hothers _ hvoid hnormal hbare hcol
  · exact .bind (endParagraph_eq h (hstand.paragraph (by decide))) (.bind hput hforbids)
  · refine .bind (reconstruct_eq h) (.bind hput ?_)
    cases isHiddenInput ⟨"input", attributes, selfClosing⟩ with
    | true => exact ⟨_, rfl, hfits, rfl⟩
    | false => exact hforbids

end

/-- Where a void element may stand, its tag puts it in place. -/
theorem Standing.takes_void (h : Standing s (f :: outer))
    (hforeign : isForeign s (.opening tag) = false)
    (hstand : MayStand (namesOf (f :: outer)) tag.name) (hvoid : tag.name ∈ voidNames) :
    ∃ s₁, Takes 1 (.opening tag) s none s₁ ∧ Standing s₁ (AfterVoid s f outer tag) := by
  have hgives : Gives (inMode s.mode (.opening tag)) s (AfterVoid s f outer tag) s.mode := by
    rcases h.mode_cases with ⟨hselect, -⟩ | ⟨-, ⟨hholds, hmode⟩ | ⟨hf, -⟩ | ⟨hf, hmode⟩⟩
    · have hplain : ∀ n ∈ voidNames, n ∉ ["option", "optgroup", "script"] := by decide
      exact absurd hselect (hstand.not_select (hplain _ hvoid))
    · have hpart := flow_of_mayStand hstand hholds
      have hcol : tag.name ≠ "col" := by
        rintro heq
        rw [heq] at hpart
        exact hpart (by decide)
      rw [inMode_flow_opening hmode hpart]
      exact puts_of_mayStand h.fits hstand hvoid hcol
    · -- no void element is a part of a table, but for those of groups of columns
      have hnone : ∀ outer ∈ partHolders, ∀ n ∈ voidNames,
          n ∉ partsOf outer ++ ["script", "style"] := by decide
      exact absurd ((hstand.onlyParts _ rfl).2 hf) (hnone _ hf _ hvoid)
    · have hcol : tag.name = "col" := (hstand.onlyParts _ rfl).1 hf
      have hputs := putColumn_gives h.fits hcol
      rw [hmode] at hputs ⊢
      exact hputs
  obtain ⟨s₁, htakes, hfits, hmode⟩ := hgives.takes hforeign
  exact ⟨s₁, htakes, hfits, h.onPage.withNode _, hmode.trans h.mode⟩

/-- Where an image may stand, its tag puts the element in place that HTML has for it. -/
theorem Standing.takes_image (h : Standing s (f :: outer))
    (hforeign : isForeign s (.opening tag) = false)
    (hstand : MayStand (namesOf (f :: outer)) tag.name) (himage : tag.name = "image") :
    ∃ s₁, Takes 1 (.opening tag) s none s₁ ∧
      Standing s₁ (AfterVoid s f outer { tag with name := "img" }) := by
  have hbody : openingInBody tag = putVoid { tag with name := "img" } := by
    obtain ⟨name, attributes, selfClosing⟩ := tag
    subst himage
    rfl
  have hgives : Gives (inMode s.mode (.opening tag)) s
      (AfterVoid s f outer { tag with name := "img" }) s.mode := by
    rcases h.mode_cases with ⟨hselect, -⟩ | ⟨-, ⟨hholds, hmode⟩ | ⟨hf, -⟩ | ⟨hf, -⟩⟩
    · exact absurd hselect (hstand.not_select (by rw [himage]; decide))
    · rw [inMode_flow_opening hmode (flow_of_mayStand hstand hholds), hbody]
      exact putVoid_gives h.fits (show "img" ≠ "template" by decide)
    · have hpart := (hstand.onlyParts _ rfl).2 hf
      have hnone : ∀ outer ∈ partHolders, "image" ∉ partsOf outer ++ ["script", "style"] := by decide
      rw [himage] at hpart
      exact absurd hpart (hnone _ hf)
    · have hcol := (hstand.onlyParts _ rfl).1 hf
      rw [himage] at hcol
      exact absurd hcol (by decide)
  obtain ⟨s₁, htakes, hfits, hmode⟩ := hgives.takes hforeign
  exact ⟨s₁, htakes, hfits, h.onPage.withNode _, hmode.trans h.mode⟩

/-- Where an element that holds nothing may stand, its tag puts it in place. -/
theorem Standing.takes_empty (h : Standing s (f :: outer))
    (hforeign : isForeign s (.opening tag) = false)
    (hstand : MayStand (namesOf (f :: outer)) tag.name) (hempty : tag.name ∈ emptyNames) :
    ∃ s₁, Takes 1 (.opening tag) s none s₁ ∧
      Standing s₁ (f.withNode (s.arena.nextFrame tag.element.inPlace).closed :: outer) := by
  have hlabel : tag.element.label = tag.name := rfl
  unfold Element.inPlace
  rw [hlabel]
  rcases List.mem_cons.1 hempty with himage | hvoid
  · rw [if_pos himage]
    exact h.takes_image hforeign hstand himage
  · have himage : tag.name ≠ "image" := fun heq ↦ by
      rw [heq] at hvoid
      exact absurd hvoid (by decide)
    rw [if_neg himage]
    exact h.takes_void hforeign hstand hvoid

/-- Parts of tables are HTML elements. -/
theorem Fits.not_foreign_of_holder (h : Fits s (f :: outer)) (hf : f.element.label ∈ partHolders)
    (t : Token) : isForeign s t = false := by
  have hwords : ∀ n ∈ partHolders, IsWord n := by decide
  exact h.isForeign_eq (Element.space_of_label (hwords _ hf)) t

/-- An input that is not shown may also stand between the parts of a table. -/
theorem Standing.takes_hidden (h : Standing s (f :: outer)) (hholds : f.element.label ∈ partHolders)
    (htag : tag.name = "input") (hhidden : isHiddenInput tag = true) :
    ∃ s₁, Takes 1 (.opening tag) s none s₁ ∧ Standing s₁ (AfterVoid s f outer tag) := by
  have hmode : s.mode ∈ tableModes := by
    rw [h.mode]
    exact modeOf_partHolder hholds _
  have hopening : inMode s.mode (.opening tag) = openingInTable tag := by
    obtain ⟨name, attributes, selfClosing⟩ := tag
    subst htag
    simp only [tableModes, List.mem_cons, List.not_mem_nil, or_false] at hmode
    rcases hmode with hmode | hmode | hmode
    all_goals
      rw [hmode]
      rfl
  have hputs : openingInTable tag = (do discard (putTag tag); Build.done) := by
    unfold openingInTable
    rw [htag]
    dsimp only
    rw [hhidden]
    rfl
  have hgives : Gives (do discard (putTag tag); Build.done) s _ s.mode :=
    putTag_gives h.fits (by rw [htag]; decide)
  rw [← hputs, ← hopening] at hgives
  obtain ⟨s₁, htakes, hfits, hmode⟩ := hgives.takes (h.fits.not_foreign_of_holder hholds _)
  exact ⟨s₁, htakes, hfits, h.onPage.withNode _, hmode.trans h.mode⟩

/-- No element that holds nothing is open. -/
theorem OnPage.not_empty (h : OnPage frames) : ∀ name ∈ namesOf frames, name ∉ emptyNames := by
  induction h with
  | body hname hroot =>
    rw [namesOf_cons, namesOf_cons, hname, hroot]
    change ∀ name ∈ ["body", "html"], name ∉ emptyNames
    decide
  | html _ _ _ hvoid _ ih => exact List.forall_mem_cons.2 ⟨hvoid, ih⟩
  | foreign hspace _ _ _ _ ih =>
    exact List.forall_mem_cons.2 ⟨Element.label_not_mem hspace (by decide), ih⟩

/-! ### Closing tags of elements that hold nothing -/

/-- The closing tag of an element that holds nothing closes nothing. -/
theorem closingInBody_missing (hname : name ∈ emptyNames) (hbr : name ≠ "br")
    (hnamed : ∀ n ∈ s.opened, (s.arena.element n).named name = false) :
    closingInBody name s = (.done, s) := by
  have hruled : ∀ n ∈ emptyNames, n ≠ "br" → n ∉ ruledClosings := by decide
  rw [closingInBody_unruled (hruled _ hname hbr)]
  exact bind_eq (closeAny_missing hnamed) rfl

theorem closingInSelect_empty : ∀ n ∈ emptyNames, closingInSelect n = Build.done := by
  simp only [emptyNames, voidNames, List.forall_mem_cons]
  and_intros
  all_goals first | rfl | exact fun _ h ↦ absurd h List.not_mem_nil

theorem inTableModes_closing_empty (hmode : mode ∈ tableModes) (hname : name ∈ emptyNames) :
    inMode mode (.closing name) = closingInTable name := by
  have hsame : ∀ mode ∈ tableModes, ∀ n ∈ emptyNames,
      inMode mode (.closing n) = closingInTable n := by
    simp only [tableModes, emptyNames, voidNames, List.forall_mem_cons]
    and_intros
    all_goals first | rfl | exact fun _ h ↦ absurd h List.not_mem_nil
  exact hsame mode hmode name hname

/-- Between the parts of a table the tag is ignored or read as in a body, which it leaves as it is. -/
theorem closingInTable_missing (hname : name ∈ emptyNames) (hbr : name ≠ "br")
    (hnamed : ∀ n ∈ s.opened, (s.arena.element n).named name = false)
    (hfostering : s.fostering = false) : closingInTable name s = (.done, s) := by
  have hall : ∀ n ∈ emptyNames,
      closingInTable n = Build.done ∨ closingInTable n = foster (.closing n) := by
    simp only [emptyNames, voidNames, List.forall_mem_cons]
    and_intros
    all_goals first
      | exact .inl rfl
      | exact .inr rfl
      | exact fun _ h ↦ absurd h List.not_mem_nil
  rcases hall _ hname with heq | heq
  · rw [heq]
    rfl
  · have hclose := closingInBody_missing (s := { s with fostering := true }) hname hbr hnamed
    have hsame : { s with fostering := false } = s := by
      rw [← hfostering]
    rw [heq, foster]
    refine bind_eq (t := { s with fostering := true }) rfl (bind_eq hclose ?_)
    refine bind_eq (t := { s with fostering := false }) rfl ?_
    rw [hsame]
    rfl

/-- The closing tag of an element that holds nothing closes nothing, unless it is taken for the end of a
group of columns or for an opening tag. -/
theorem Standing.stray_eq (h : Standing s (f :: outer)) (hname : name ∈ emptyNames)
    (hbr : name ≠ "br") (hgroup : f.element.label = "colgroup" → name = "col") :
    inMode s.mode (.closing name) s = (.done, s) := by
  have hmissing : name ∉ namesOf (f :: outer) := fun hmem ↦ h.onPage.not_empty name hmem hname
  have hwords : ∀ n ∈ emptyNames, IsWord n := by decide
  have hnamed := h.fits.not_named (hwords _ hname) hmissing
  have hclose := closingInBody_missing hname hbr hnamed
  rcases h.mode_cases with ⟨-, hmode⟩ | ⟨-, ⟨-, hmode⟩ | ⟨-, hmode⟩ | ⟨hf, hmode⟩⟩
  · have hnone : ∀ n ∈ emptyNames, isOuterPart n = false := by decide
    rw [inMode_select_closing hmode (hnone _ hname), closingInSelect_empty _ hname]
    rfl
  · by_cases hcol : name = "col"
    · subst hcol
      simp only [flowModes, List.mem_cons, List.not_mem_nil, or_false] at hmode
      rcases hmode with hmode | hmode | hmode
      · rw [hmode]
        exact hclose
      · rw [hmode]
        rfl
      · rw [hmode]
        rfl
    · have houter : ∀ n ∈ emptyNames, n ≠ "col" → n ∉ outerNames := by decide
      rw [inMode_flow_closing hmode (houter _ hname hcol)]
      exact hclose
  · rw [inTableModes_closing_empty hmode hname]
    exact closingInTable_missing hname hbr hnamed h.fits.fostering
  · rw [hmode, hgroup hf]
    rfl

/-! ### Tokens that are processed again -/

/-- Processing a token goes on in another state, after so many rounds. -/
def Leads (rounds : Nat) (t : Token) (s s₁ : State) : Prop :=
  ∀ fuel, process t (fuel + rounds) s = process t fuel s₁

/-- A token is taken after it has been handed on. -/
theorem Leads.takes {t : Token} {kind : Option TextMode} {s₁ s₂ : State} {m n : Nat}
    (h : Leads m t s s₁) (htakes : Takes n t s₁ kind s₂) : Takes (n + m) t s kind s₂ := by
  intro fuel
  rw [← Nat.add_assoc, h, htakes]

/-- A token may be handed on twice. -/
theorem Leads.trans {t : Token} {s₁ s₂ : State} {m n : Nat} (h : Leads m t s s₁)
    (h₁ : Leads n t s₁ s₂) : Leads (n + m) t s s₂ := by
  intro fuel
  rw [← Nat.add_assoc, h, h₁]

/-- A mode hands a token on. -/
theorem leads_again {t : Token} {s₁ : State} (hforeign : isForeign s t = false)
    (h : inMode s.mode t s = (Outcome.again mode, s₁)) : Leads 1 t s { s₁ with mode := mode } :=
  fun _ ↦ process_again hforeign h

/-! ### Characters -/

/-- A character is put into the innermost element. -/
theorem putChar_gives (h : Fits s (f :: outer)) (c : Char) :
    Gives (do putChar c; Build.done) s (f :: outer) s.mode := by
  obtain ⟨s₁, heq, hfits, hmode, -⟩ := h.putChar c
  exact .bind heq ⟨s₁, rfl, hfits, hmode⟩

/-- A character is added to the innermost open element by the rules of the body. -/
theorem charInBody_gives (h : Fits s (f :: outer)) (c : Char) :
    Gives (charInBody c) s (f :: outer) s.mode := by
  unfold charInBody
  split
  · exact ⟨s, rfl, h, rfl⟩
  · refine .bind (reconstruct_eq h) ?_
    split
    · exact .bind rfl (putChar_gives (h.with_flags s.mode s.returnMode false s.skipsLineFeed) c)
    · exact putChar_gives h c

/-- A character is added to the innermost open element in a list of choices. -/
theorem charInSelect_gives (h : Fits s (f :: outer)) (c : Char) :
    Gives (inSelect (.char c)) s (f :: outer) s.mode := by
  unfold inSelect
  dsimp only
  cases c != '\x00' with
  | true => exact putChar_gives h c
  | false => exact ⟨s, rfl, h, rfl⟩

/-- Text may stand in an element that holds more than parts of a table. -/
theorem Standing.takes_char (h : Standing s (f :: outer)) {c : Char}
    (hforeign : isForeign s (.char c) = false) (hholds : f.element.label ∉ partHolders)
    (hc : f.element.label = "colgroup" → isSpace c = true) :
    ∃ s₁, Takes 1 (.char c) s none s₁ ∧ Standing s₁ (f :: outer) := by
  have hgives : Gives (inMode s.mode (.char c)) s (f :: outer) s.mode := by
    rcases h.mode_cases with ⟨-, hmode⟩ | ⟨-, ⟨-, hmode⟩ | ⟨hf, -⟩ | ⟨hf, hmode⟩⟩
    · rw [inMode_select_char hmode]
      exact charInSelect_gives h.fits c
    · rw [inMode_flow_char hmode]
      exact charInBody_gives h.fits c
    · exact absurd hf hholds
    · have hspace : inColumnGroup (.char c) = (do putChar c; Build.done) := by
        unfold inColumnGroup
        dsimp only
        rw [hc hf]
        rfl
      have hputs := putChar_gives h.fits c
      rw [hmode] at hputs ⊢
      change Gives (inColumnGroup (.char c)) s (f :: outer) .inColumnGroup
      rw [hspace]
      exact hputs
  obtain ⟨s₁, htakes, hfits, hmode⟩ := hgives.takes hforeign
  exact ⟨s₁, htakes, hfits, h.onPage, hmode.trans h.mode⟩

/-- A state in which white space right in a part of a table has been read and is not yet placed. -/
structure Spacing (s : State) (f : Frame) (outer : List Frame) : Prop where
  fits : Fits s (f :: outer)
  onPage : OnPage (f :: outer)
  holds : f.element.label ∈ partHolders
  mode : s.mode = .inTableText
  returnMode : s.returnMode = modeOf (namesOf (f :: outer))

theorem Spacing.awake (h : Spacing s f outer) : Spacing s.awake f outer :=
  ⟨h.fits.awake, h.onPage, h.holds, h.mode, h.returnMode⟩

theorem Fits.with_tableText (h : Fits s frames) {text : List Char} (htext : text.all isSpace = true) :
    Fits { s with tableText := text } frames :=
  ⟨h.opens, h.opened, h.words, h.noTemplate, h.listed, h.form, h.templates, h.fostering, h.lenient,
    htext⟩

/-- White space between parts of a table is gathered. -/
theorem Spacing.takes_char (h : Spacing s f outer) {c : Char} (hc : isSpace c = true) :
    ∃ s₁, Takes 1 (.char c) s none s₁ ∧ Spacing s₁ f outer := by
  have hne : c ≠ '\x00' := by
    rintro rfl
    exact absurd hc (by decide)
  have hgives : inMode s.mode (.char c) s =
      (Outcome.done, { s with tableText := s.tableText ++ [c] }) := by
    have hmode : inMode s.mode (.char c) = inTableText (.char c) := by
      rw [h.mode]
      rfl
    rw [hmode]
    unfold inTableText
    dsimp only
    rw [if_pos (by simpa using hne)]
    rfl
  have htext : (s.tableText ++ [c]).all isSpace = true := by
    rw [List.all_append, h.fits.tableText]
    simpa using hc
  exact ⟨_, fun _ ↦ process_done (h.fits.not_foreign_of_holder h.holds _) hgives,
    h.fits.with_tableText htext, h.onPage, h.holds, h.mode, h.returnMode⟩

/-- The first white space sets the gathering off. -/
theorem Standing.takes_space (h : Standing s (f :: outer)) (hholds : f.element.label ∈ partHolders)
    {c : Char} (hc : isSpace c = true) :
    ∃ s₁, Takes 2 (.char c) s none s₁ ∧ Spacing s₁ f outer := by
  have hmode : s.mode ∈ tableModes := by
    rw [h.mode]
    exact modeOf_partHolder hholds _
  have hchar : ∀ mode ∈ tableModes, inMode mode (.char c) = charInTable c := by
    simp only [tableModes, List.forall_mem_cons]
    and_intros
    all_goals first | rfl | exact fun _ h ↦ absurd h List.not_mem_nil
  have hpart : f.element.isTablePart = true := oneOf_of_mem (by decide) hholds
  have hcurrent := currentIs_eq h.fits Element.isTablePart
  rw [hpart] at hcurrent
  have hagain : inMode s.mode (.char c) s =
      (.again .inTableText, { s with returnMode := s.mode }) := by
    rw [hchar _ hmode]
    exact bind_eq hcurrent rfl
  have hleads := leads_again (h.fits.not_foreign_of_holder hholds _) hagain
  have hspacing : Spacing { s with returnMode := s.mode, mode := .inTableText } f outer :=
    ⟨h.fits.with_flags _ _ s.framesetAllowed s.skipsLineFeed, h.onPage, hholds, rfl, h.mode⟩
  obtain ⟨s₁, htakes, hspacing⟩ := hspacing.takes_char hc
  exact ⟨s₁, hleads.takes htakes, hspacing⟩

/-- Gathered white space is put in at last. -/
theorem putChars_eq (h : Fits s (f :: outer)) (cs : List Char) :
    ∃ s₁, putChars cs s = ((), s₁) ∧ Fits s₁ (f :: outer) ∧ s₁.returnMode = s.returnMode := by
  induction cs generalizing s with
  | nil => exact ⟨s, rfl, h, rfl⟩
  | cons c cs ih =>
    obtain ⟨s₁, hput, hfits, -, hreturn⟩ := h.putChar c
    obtain ⟨s₂, hputs, hfits, hreturn'⟩ := ih hfits
    exact ⟨s₂, bind_eq hput hputs, hfits, hreturn'.trans hreturn⟩

/-- Before a tag, the white space is placed. -/
theorem Spacing.leads (h : Spacing s f outer) {t : Token} (ht : ∀ c, t ≠ .char c) :
    ∃ s₁, Leads 1 t s s₁ ∧ Standing s₁ (f :: outer) := by
  obtain ⟨s₁, hputs, hfits, hreturn⟩ :=
    putChars_eq (h.fits.with_tableText (List.all_nil (f := isSpace))) s.tableText
  have hagain : inMode s.mode t s = (.again s₁.returnMode, s₁) := by
    rw [h.mode]
    change inTableText t s = _
    unfold inTableText
    split
    · exact absurd rfl (ht _)
    · refine bind_eq (t := s) rfl (bind_eq (t := { s with tableText := [] }) rfl ?_)
      rw [if_pos h.fits.tableText]
      exact bind_eq hputs rfl
  refine ⟨_, leads_again (h.fits.not_foreign_of_holder h.holds _) hagain,
    hfits.with_flags _ s₁.returnMode s₁.framesetAllowed s₁.skipsLineFeed, h.onPage, ?_⟩
  exact hreturn.trans h.returnMode

/-! ### Elements of text -/

/-- What the text in an element is read as. -/
def textKind (name : String) : TextMode :=
  if name = "title" ∨ name = "textarea" then .references name
  else if name = "script" then .script .none
  else .raw name

theorem endsWith_textKind (name : String) : Lexer.EndsWith name (textKind name) := by
  unfold textKind
  split
  · exact .references
  · split
    · exact .script ‹_›
    · exact .raw

theorem textNames_plain : ∀ n ∈ textNames, IsPlain n ∧ n ∉ notedNames := by decide

section

variable {attributes : List (String × String)} {selfClosing : Bool}

/-- The text of an element is read as its name asks for. -/
theorem opensText_of_mayStand (h : Fits s (f :: outer))
    (hstand : MayStand (namesOf (f :: outer)) name) (htext : name ∈ textNames) :
    GivesText (openingInBody ⟨name, attributes, selfClosing⟩) s
      (AfterOpening s (f :: outer) ⟨name, attributes, selfClosing⟩) (textKind name) s.mode := by
  have hopens {s₁ : State} (h₁ : Fits s₁ (f :: outer)) :=
    @openText_gives _ _ ⟨name, attributes, selfClosing⟩ h₁ (textKind name)
      (textNames_plain _ htext).1
  have hforbids := hopens (h.with_flags s.mode s.returnMode false s.skipsLineFeed)
  have hskips := hopens (h.with_flags s.mode s.returnMode false true)
  have hsight := fun hparagraph ↦ endParagraph_eq h (hstand.paragraph hparagraph)
  simp only [textNames, List.mem_cons, List.not_mem_nil, or_false] at htext
  rcases htext with rfl | rfl | rfl | rfl | rfl | rfl | rfl | rfl | rfl
  · exact hopens h
  · exact hopens h
  · exact hopens h
  · exact hopens h
  · exact .bind rfl (.bind rfl hskips)
  · exact .bind (hsight (by decide)) (.bind (reconstruct_eq h) (.bind rfl hforbids))
  · exact .bind rfl hforbids
  · exact hopens h
  · exact hopens h

end

/-- A state in the text of the innermost element, with the mode to go back to. -/
structure Texting (s : State) (frames : List Frame) (back : Mode) : Prop where
  fits : Fits s frames
  mode : s.mode = .text
  returnMode : s.returnMode = back

variable {back : Mode}

theorem Texting.awake (h : Texting s frames back) : Texting s.awake frames back :=
  ⟨h.fits.awake, h.mode, h.returnMode⟩

/-- The tag of an element of text is taken, and its content is read as text. -/
theorem GivesText.takes {kind : TextMode}
    (h : GivesText (inMode s.mode (.opening tag)) s frames kind back)
    (hforeign : isForeign s (.opening tag) = false) :
    ∃ s₁, Takes 1 (.opening tag) s (some kind) s₁ ∧ Texting s₁ frames back := by
  obtain ⟨s₁, heq, hfits, hmode, hreturn⟩ := h
  exact ⟨s₁, fun _ ↦ process_reads hforeign heq, hfits, hmode, hreturn⟩

/-- Where an element of text may stand, its tag makes it the innermost one. -/
theorem Standing.takes_text (h : Standing s (f :: outer))
    (hforeign : isForeign s (.opening tag) = false)
    (hstand : MayStand (namesOf (f :: outer)) tag.name) (htext : tag.name ∈ textNames) :
    ∃ s₁, Takes 1 (.opening tag) s (some (textKind tag.name)) s₁ ∧
      Texting s₁ (AfterOpening s (f :: outer) tag) (modeOf (namesOf (f :: outer))) := by
  refine GivesText.takes ?_ hforeign
  rw [← h.mode]
  rcases h.mode_cases with ⟨hselect, hmode⟩ | ⟨-, ⟨hholds, hmode⟩ | hholds⟩
  · have hscript : tag.name = "script" := by
      rcases select_of_mayStand hstand hselect with ⟨heq, -⟩ | ⟨heq, -⟩ | heq
      · rw [heq] at htext
        exact absurd htext (by decide)
      · rw [heq] at htext
        exact absurd htext (by decide)
      · exact heq
    have hopens := @openText_gives _ _ tag h.fits (.script .none)
      (by rw [hscript]; decide)
    have hopening : openingInSelect tag = openText tag (.script .none) := by
      unfold openingInSelect headTag?
      rw [hscript]
      rfl
    have hkind : textKind tag.name = .script .none := by
      rw [hscript]
      rfl
    rw [inMode_select_opening hmode (by rw [hscript]; decide), hopening, hkind]
    exact hopens
  · rw [inMode_flow_opening hmode (flow_of_mayStand hstand hholds)]
    exact opensText_of_mayStand h.fits hstand htext
  · have hnotCol : tag.name ≠ "col" := by
      rintro heq
      rw [heq] at htext
      exact absurd htext (by decide)
    have hf : f.element.label ∈ partHolders := by
      rcases hholds with ⟨hf, -⟩ | ⟨hf, -⟩
      · exact hf
      · exact absurd ((hstand.onlyParts _ rfl).1 hf) hnotCol
    have htag : tag.name ∈ ["script", "style"] := by
      have hnone : ∀ outer ∈ partHolders, ∀ n ∈ textNames, n ∉ partsOf outer := by decide
      exact (List.mem_append.1 ((hstand.onlyParts _ rfl).2 hf)).resolve_left (hnone _ hf _ htext)
    have hkind : textKind tag.name =
        if tag.name = "script" then .script .none else .raw tag.name := by
      obtain heq | heq : tag.name = "script" ∨ tag.name = "style" := by simpa using htag
      all_goals
        rw [heq]
        rfl
    rw [hkind]
    exact opensText_in_table h.fits h.mode hf htag

/-- Elements of text are HTML elements. -/
theorem Texting.not_foreign (h : Texting s (f :: outer) back) (htext : f.element.label ∈ textNames)
    (t : Token) : isForeign s t = false :=
  h.fits.isForeign_eq (Element.space_of_label (textNames_plain _ htext).1.1) t

/-- Characters of the text are put in. -/
theorem Texting.takes_char (h : Texting s (f :: outer) back) (htext : f.element.label ∈ textNames)
    (c : Char) :
    ∃ s₁, Takes 1 (.char c) s none s₁ ∧ Texting s₁ (f :: outer) back := by
  obtain ⟨s₁, heq, hfits, hmode, hreturn⟩ := h.fits.putChar c
  have hdone : inMode s.mode (.char c) s = (Outcome.done, s₁) := by
    rw [h.mode]
    exact bind_eq heq rfl
  exact ⟨s₁, fun _ ↦ process_done (h.not_foreign htext _) hdone, hfits, hmode.trans h.mode,
    hreturn.trans h.returnMode⟩

/-- The closing tag goes back to what the element is in. -/
theorem Texting.takes_closing (h : Texting s (f :: g :: outer) back)
    (htext : f.element.label ∈ textNames) (name : String) :
    ∃ s₁, Takes 1 (.closing name) s none s₁ ∧ Fits s₁ (AfterClosing f g outer) ∧ s₁.mode = back := by
  have hfits := h.fits.pop_plain (textNames_plain _ htext).2
  refine Gives.takes ?_ (h.not_foreign htext _)
  rw [h.mode]
  exact .bind rfl (.bind rfl (.bind rfl
    ⟨_, rfl, hfits.with_flags _ s.returnMode s.framesetAllowed s.skipsLineFeed, h.returnMode⟩))

end

end Nodecraft.Markup.Build
