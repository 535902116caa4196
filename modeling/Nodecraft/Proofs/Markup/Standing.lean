import Mathlib.Tactic.MkIffOfInductiveProp
import Nodecraft.Proofs.Markup.OpenElements

/-!
# Elements that stay where they are written

Where an element may be written so that HTML opens it right there, closing, moving and leaving out
nothing (`MayStand`). In a state that fits what is open, such an element is opened in the innermost
one, in the mode that goes with it (`Build.opens_of_mayStand`); each kind of element has its lemma
on what its opening tag gives.
-/

set_option autoImplicit false

namespace Nodecraft.Markup

/-! ### Where elements may stand -/

/-- Elements that have no place of their own in a body, or that take in all that follows. -/
def strayNames : List String :=
  ["html", "head", "body", "frameset", "frame", "template", "plaintext"]

/-- HTML goes over to another vocabulary in these. -/
def foreignRoots : List String := ["svg", "math"]

/-- Elements that hold nothing but text. -/
def textNames : List String :=
  ["title", "noframes", "style", "script", "textarea", "xmp", "iframe", "noembed", "noscript"]

def headingNames : List String := ["h1", "h2", "h3", "h4", "h5", "h6"]

/-- Elements that a paragraph does not hold. -/
def paragraphEnds : List String :=
  Build.blockNames ++ headingNames ++ ["pre", "listing", "form", "li", "dd", "dt", "hr", "xmp"]

/-- Elements that others end without being told to. -/
def impliedNames : List String :=
  ["dd", "dt", "li", "option", "optgroup", "p", "rb", "rp", "rt", "rtc"]

/-- Items end the list items before them. -/
def endsItems (siblings : List String) (name : String) : Bool :=
  siblings.contains name ||
    (Element.specialNames.contains name && !(["address", "div", "p"].contains name))

/-- The parts of tables that an element holds. -/
def partsOf : String → List String
  | "table" => ["caption", "colgroup", "tbody", "tfoot", "thead"]
  | "colgroup" => ["col"]
  | "tbody" => ["tr"]
  | "tfoot" => ["tr"]
  | "thead" => ["tr"]
  | "tr" => ["td", "th"]
  | _ => []

/-- Elements that hold nothing but parts of tables, and scripts and styles between these. -/
def partHolders : List String := ["table", "tbody", "tfoot", "thead", "tr"]

/-- Elements that are put in place and not opened. -/
def voidNames : List String :=
  ["area", "base", "basefont", "bgsound", "br", "col", "embed", "hr", "img", "input", "keygen",
    "link", "meta", "param", "source", "track", "wbr"]

/-- Elements that hold nothing. An image is put in place as well, under another name. -/
def emptyNames : List String := "image" :: voidNames

open Build

/-- An element of a name may be written in others, whose names are given from the inside out: HTML
has no rule for it there that closes, moves or leaves out an element. -/
@[mk_iff]
structure MayStand (around : List String) (name : String) : Prop where
  word : IsWord name
  notStray : name ∉ strayNames
  notInText : ∀ outer ∈ around.head?, outer ∉ textNames
  notInEmpty : ∀ outer ∈ around.head?, outer ∉ emptyNames
  /-- Parts of tables stand right in the elements that hold them. -/
  part : name ∈ tablePartNames → ∃ outer ∈ around.head?, name ∈ partsOf outer
  onlyParts : ∀ outer ∈ around.head?, (outer = "colgroup" → name = "col") ∧
    (outer ∈ partHolders → name ∈ partsOf outer ++ ["script", "style"])
  /-- Selections hold options, groups of them, and scripts. -/
  select : "select" ∈ around →
    (name = "option" ∧ (around.head? = some "select" ∨ around.head? = some "optgroup")) ∨
      (name = "optgroup" ∧ around.head? = some "select") ∨ name = "script"
  paragraph : name ∈ paragraphEnds → "p" ∉ inSight ("button" :: scopeLabels) around
  heading : name ∈ headingNames → ∀ outer ∈ around.head?, outer ∉ headingNames
  link : name = "a" → "a" ∉ inSight markedElements around
  unbroken : name ∈ ["nobr", "button"] → name ∉ inSight scopeLabels around
  form : name = "form" → "form" ∉ around
  /-- Between an item and the items around it is a list. -/
  item : name = "li" → ∀ outer ∈ around.find? (endsItems ["li"]), outer ∉ ["li"]
  entry : name ∈ ["dd", "dt"] → ∀ outer ∈ around.find? (endsItems ["dd", "dt"]),
    outer ∉ ["dd", "dt"]
  option : name ∈ ["option", "optgroup"] → around.head? ≠ some "option"
  ruby : name ∈ ["rb", "rp", "rt", "rtc"] → "ruby" ∈ around →
    ∀ outer ∈ around.head?, outer ∈ impliedNames → outer = "rtc" ∧ name ∈ ["rp", "rt"]

set_option synthInstance.maxSize 400 in
instance (around : List String) (name : String) : Decidable (MayStand around name) :=
  decidable_of_iff' _ (mayStand_iff around name)

/-- Nothing else stands in selections. -/
theorem MayStand.not_select {around : List String} {name : String} (h : MayStand around name)
    (hname : name ∉ ["option", "optgroup", "script"]) : "select" ∉ around := by
  intro hselect
  rcases h.select hselect with ⟨rfl, -⟩ | ⟨rfl, -⟩ | rfl
  all_goals exact hname (by decide)

/-- Parts of tables stand in what holds them. -/
theorem mem_partsOf {outer name : String} (h : name ∈ partsOf outer) :
    outer ∈ "colgroup" :: partHolders ∧ name ∈ tablePartNames := by
  unfold partsOf at h
  split at h
  all_goals first
    | exact absurd h List.not_mem_nil
    | exact ⟨by decide, by revert name; decide⟩

/-- Whether a name is of an element that holds parts of tables and no text. -/
def HoldsParts (name : String) : Prop := name ∈ "colgroup" :: partHolders

instance (name : String) : Decidable (HoldsParts name) :=
  inferInstanceAs (Decidable (name ∈ "colgroup" :: partHolders))

/-- What stands right in an element that holds parts of tables. -/
theorem MayStand.of_holdsParts {around : List String} {name outer : String}
    (h : MayStand around name) (houter : outer ∈ around.head?) (hholds : HoldsParts outer) :
    name ∈ tablePartNames ++ ["script", "style"] := by
  obtain ⟨hgroup, hholder⟩ := h.onlyParts outer houter
  rcases List.mem_cons.1 hholds with heq | hmem
  · rw [hgroup heq]
    decide
  · rcases List.mem_append.1 (hholder hmem) with hpart | hother
    · exact List.mem_append_left _ (mem_partsOf hpart).2
    · exact List.mem_append_right _ hother

/-- Elsewhere there are no parts of tables. -/
theorem MayStand.not_part {around : List String} {name : String} (h : MayStand around name)
    (hholds : ∀ outer ∈ around.head?, ¬HoldsParts outer) : name ∉ tablePartNames := by
  intro hpart
  obtain ⟨outer, houter, hmem⟩ := h.part hpart
  exact hholds outer houter (mem_partsOf hmem).1

namespace Build

/-- The mode in which what is right in the innermost element is read. -/
def modeOf : List String → Mode
  | [] => .inBody
  | name :: outer =>
    match name with
    | "select" => if modeOf outer = .inBody then .inSelect else .inSelectInTable
    | "td" => .inCell
    | "th" => .inCell
    | "tr" => .inRow
    | "tbody" => .inTableBody
    | "tfoot" => .inTableBody
    | "thead" => .inTableBody
    | "caption" => .inCaption
    | "colgroup" => .inColumnGroup
    | "table" => .inTable
    | _ => modeOf outer

/-- Elements whose content is read in a mode of its own. -/
def modedNames : List String :=
  ["select", "td", "th", "tr", "tbody", "tfoot", "thead", "caption", "colgroup", "table"]

/-- An element without a mode of its own leaves the mode as it is. -/
theorem modeOf_cons {name : String} (hname : name ∉ modedNames) (outer : List String) :
    modeOf (name :: outer) = modeOf outer := by
  have hne {other : String} (hother : other ∈ modedNames) : name ≠ other :=
    fun heq ↦ hname (heq ▸ hother)
  rw [modeOf]
  all_goals exact hne (by decide)

/-- Modes in which content is read as it is in a body. -/
def flowModes : List Mode := [.inBody, .inCell, .inCaption]

/-! ### Scopes -/

section

variable {s : State} {frames outer : List Frame} {f g : Frame}

/-- What is not in sight is not in scope. -/
theorem inScopeOf_eq_false {a : Arena} {ends : Element → Bool} {wanted : NodeId → Bool}
    {enders : List String} {name : String} (hends : ∀ f ∈ frames,
      ends (a.element f.node) = enders.contains f.element.label)
    (hwanted : ∀ f ∈ frames, wanted f.node = (f.element.label == name)) (hname : name ∉ enders)
    (hsight : name ∉ inSight enders (namesOf frames)) :
    inScopeOf a ends wanted (frames.map Frame.node) = false := by
  induction frames with
  | nil => rfl
  | cons f frames ih =>
    obtain ⟨hf, hends⟩ := List.forall_mem_cons.1 hends
    obtain ⟨hf', hwanted⟩ := List.forall_mem_cons.1 hwanted
    have hne : f.element.label ≠ name := by
      intro heq
      refine hsight ?_
      unfold inSight namesOf
      rw [List.map_cons, heq, List.takeWhile_cons_of_pos (by simpa using hname)]
      exact List.mem_cons_self
    rw [List.map_cons]
    unfold inScopeOf
    rw [hf, hf', beq_eq_false_iff_ne.2 hne, Bool.false_or]
    cases hender : enders.contains f.element.label with
    | true => rfl
    | false =>
      refine ih hends hwanted fun hmem ↦ hsight ?_
      unfold inSight namesOf
      rw [List.map_cons, List.takeWhile_cons_of_pos (by rw [hender]; rfl)]
      exact List.mem_cons_of_mem _ hmem

/-- The same for the name of an element. -/
theorem namedInScope_eq_false (h : Fits s frames) {ends : Element → Bool} {enders : List String}
    (hends : ∀ e : Element, (e.space = .html → IsWord e.name) → ends e = enders.contains e.label)
    {name : String} (hword : IsWord name) (hname : name ∉ enders)
    (hsight : name ∉ inSight enders (namesOf frames)) : namedInScope ends name s = (false, s) := by
  have hscope : inScopeOf s.arena ends (fun n ↦ (s.arena.element n).named name)
      (frames.map Frame.node) = false :=
    inScopeOf_eq_false (fun f hf ↦ by rw [h.element_eq hf, hends _ (h.words f hf)])
      (fun f hf ↦ by rw [h.element_eq hf, Element.named_eq hword]) hname hsight
  rw [← h.opened] at hscope
  change (inScopeOf s.arena ends (fun n ↦ (s.arena.element n).named name) s.opened, s) = _
  rw [hscope]

theorem contains_map_append {names : List String} (start name : String) :
    (names.map (start ++ ·)).contains (start ++ name) = names.contains name := by
  refine Bool.eq_iff_iff.2 ?_
  rw [List.contains_iff_mem, List.contains_iff_mem, List.mem_map]
  refine ⟨fun ⟨n, hn, heq⟩ ↦ ?_, fun hname ↦ ⟨name, hname, rfl⟩⟩
  rw [← (String.append_right_inj start).1 heq]
  exact hn

theorem contains_map_eq_false {names : List String} {start name : String}
    (h : ¬start.toList <+: name.toList) : (names.map (start ++ ·)).contains name = false := by
  refine Bool.eq_false_iff.2 fun hc ↦ h ?_
  obtain ⟨n, -, rfl⟩ := List.mem_map.1 (List.contains_iff_mem.1 hc)
  rw [String.toList_append]
  exact List.prefix_append _ _

/-- Foreign elements that hold HTML end scopes, as certain HTML elements do. -/
theorem endsScope_eq {e : Element} (hword : e.space = .html → IsWord e.name) :
    e.endsScope = scopeLabels.contains e.label := by
  have hscope : e.oneOf scopeNames = scopeNames.contains e.label := Element.oneOf_eq (by decide)
  have hsplit : scopeLabels.contains e.label =
      (scopeNames.contains e.label || integrationLabels.contains e.label) := List.contains_append
  suffices hforeign : (e.holdsMathText || e.holdsHtml) = integrationLabels.contains e.label by
    unfold Element.endsScope
    change (e.oneOf scopeNames || _ || _) = _
    rw [hscope, hsplit, Bool.or_assoc, hforeign]
  unfold Element.holdsMathText Element.holdsHtml integrationLabels Element.label
  rw [List.contains_append]
  cases hspace : e.space with
  | html =>
    have hword := hword hspace
    rw [contains_map_eq_false fun hstart ↦ (hword ' ' (hstart.subset (by decide))).1 rfl,
      contains_map_eq_false fun hstart ↦ (hword ' ' (hstart.subset (by decide))).1 rfl]
    rfl
  | svg =>
    dsimp only
    rw [contains_map_append, contains_map_eq_false fun hstart ↦ ?_]
    · rfl
    · rw [String.toList_append] at hstart
      obtain ⟨rest, heq⟩ := hstart
      exact absurd (List.cons.inj heq).1 (by decide)
  | mathml =>
    dsimp only
    rw [contains_map_append, contains_map_eq_false fun hstart ↦ ?_]
    · exact (Bool.or_false _).trans (Bool.or_false _).symm
    · rw [String.toList_append] at hstart
      obtain ⟨rest, heq⟩ := hstart
      exact absurd (List.cons.inj heq).1 (by decide)

theorem endsButtonScope_eq {e : Element} (hword : e.space = .html → IsWord e.name) :
    e.endsButtonScope = ("button" :: scopeLabels).contains e.label := by
  unfold Element.endsButtonScope
  rw [endsScope_eq hword, Element.named_eq (by decide), List.contains_cons, Bool.or_comm]

/-! ### Nothing to close, nothing to open again -/

/-- With no paragraph in sight there is none to close. -/
theorem endParagraph_eq (h : Fits s frames)
    (hsight : "p" ∉ inSight ("button" :: scopeLabels) (namesOf frames)) :
    endParagraph s = ((), s) := by
  unfold endParagraph
  exact bind_eq (namedInScope_eq_false h (fun _ ↦ endsButtonScope_eq) (by decide) (by decide) hsight)
    rfl

/-- With all formatting elements open there is none to open again. -/
theorem reconstruct_eq (h : Fits s frames) : reconstruct s = ((), s) := by
  have hopen : ∀ n tag, .element n tag ∈ s.formatting → s.opened.contains n = true := by
    intro n tag hmem
    obtain ⟨f, hf, rfl, -⟩ := h.listed.mem_of_element hmem
    rw [h.opened, List.contains_iff_mem]
    exact List.mem_map_of_mem hf
  clear h
  cases s with
  | mk arena mode returnMode templateModes opened formatting =>
    unfold reconstruct
    refine bind_eq (t := ⟨arena, mode, returnMode, templateModes, opened, formatting, _, _, _, _, _,
      _, _⟩) rfl ?_
    cases formatting with
    | nil => rfl
    | cons e es =>
      cases e with
      | marker => rfl
      | element n tag =>
        have hn : opened.contains n = true := hopen n tag List.mem_cons_self
        dsimp only
        rw [List.takeWhile_cons_of_neg (by simpa using hn)]
        rfl

/-- An action is done with a token, and leaves the given elements open and a mode. -/
def Gives (x : Building Outcome) (s : State) (frames : List Frame) (mode : Mode) : Prop :=
  ∃ s₁, x s = (.done, s₁) ∧ Fits s₁ frames ∧ s₁.mode = mode

/-- What a rule does first may leave another state. -/
theorem Gives.bind {α : Type} {x : Building α} {f : α → Building Outcome} {a : α}
    {t : State} {mode : Mode} (hx : x s = (a, t)) (hf : Gives (f a) t frames mode) :
    Gives (x >>= f) s frames mode := by
  obtain ⟨s₂, heq, hfits, hmode⟩ := hf
  exact ⟨s₂, bind_eq hx heq, hfits, hmode⟩

/-- Flags are set at the end. -/
theorem Gives.flags {x : Building Unit} {mode : Mode} {allowed skips : Bool} (h : Fits s frames)
    (hx : x s = ((), { s with mode := mode, framesetAllowed := allowed, skipsLineFeed := skips })) :
    Gives (do x; Build.done) s frames mode :=
  ⟨_, bind_eq hx rfl, h.with_flags mode s.returnMode allowed skips, rfl⟩

variable {tag : Tag}

/-! ### Opening tags -/

/-- The element of a tag is the innermost one. -/
abbrev AfterOpening (s : State) (frames : List Frame) (tag : Tag) : List Frame :=
  s.arena.nextFrame tag.element :: frames

/-- An opened element is on top, and what was built fits again. -/
theorem openTag_gives (h : Fits s frames) (htag : IsPlain tag.name) :
    openTag tag s = ((), s.withOpened frames tag.element) ∧
      Fits (s.withOpened frames tag.element) (AfterOpening s frames tag) :=
  ⟨openTag_eq h.placed (List.ne_of_not_mem_cons htag.2).symm.symm,
    h.push_plain (e := tag.element) (fun _ ↦ htag.1) htag.2⟩

/-- A block opens where no paragraph is in sight. -/
theorem openBlock_gives (h : Fits s frames) (htag : IsPlain tag.name)
    (hsight : "p" ∉ inSight ("button" :: scopeLabels) (namesOf frames)) :
    Gives (openBlock tag) s (AfterOpening s frames tag) s.mode := by
  obtain ⟨hopen, hfits⟩ := openTag_gives h htag
  exact .bind (endParagraph_eq h hsight) (.bind hopen ⟨_, rfl, hfits, rfl⟩)

/-- Everything without a rule of its own opens as it is. -/
theorem openInline_gives (h : Fits s frames)
    (htag : IsPlain tag.name) :
    Gives (openInline tag) s (AfterOpening s frames tag) s.mode := by
  obtain ⟨hopen, hfits⟩ := openTag_gives h htag
  exact .bind (reconstruct_eq h) (.bind hopen ⟨_, rfl, hfits, rfl⟩)

theorem openPreformatted_gives (h : Fits s frames)
    (htag : IsPlain tag.name)
    (hsight : "p" ∉ inSight ("button" :: scopeLabels) (namesOf frames)) :
    Gives (openPreformatted tag) s (AfterOpening s frames tag) s.mode := by
  obtain ⟨hopen, hfits⟩ := openTag_gives h htag
  exact .bind (endParagraph_eq h hsight) (.bind hopen (.bind rfl (.bind rfl
    ⟨_, rfl, hfits.with_flags s.mode s.returnMode false true, rfl⟩)))

theorem currentIs_eq (h : Fits s (f :: outer)) (p : Element → Bool) :
    currentIs p s = (p f.element, s) := by
  change (p s.currentElement, s) = _
  rw [h.currentElement_eq]

/-- A heading opens outside of headings. -/
theorem openHeading_gives (h : Fits s (f :: outer))
    (htag : IsPlain tag.name)
    (hsight : "p" ∉ inSight ("button" :: scopeLabels) (namesOf (f :: outer)))
    (hf : f.element.label ∉ headingNames) :
    Gives (openHeading tag) s (AfterOpening s (f :: outer) tag) s.mode := by
  obtain ⟨hopen, hfits⟩ := openTag_gives h htag
  have hheading : f.element.isHeading = false := by
    unfold Element.isHeading
    rw [Element.oneOf_eq (by decide)]
    exact Bool.eq_false_iff.2 fun hc ↦ hf (List.contains_iff_mem.1 hc)
  have hcurrent := currentIs_eq h Element.isHeading
  rw [hheading] at hcurrent
  exact .bind (endParagraph_eq h hsight) (.bind hcurrent (.bind hopen ⟨_, rfl, hfits, rfl⟩))

/-- A button opens outside of buttons. -/
theorem openButton_gives (h : Fits s frames)
    (htag : IsPlain tag.name)
    (hsight : "button" ∉ inSight scopeLabels (namesOf frames)) :
    Gives (openButton tag) s (AfterOpening s frames tag) s.mode := by
  obtain ⟨hopen, hfits⟩ := openTag_gives h htag
  exact .bind (namedInScope_eq_false h (fun _ ↦ endsScope_eq) (by decide) (by decide) hsight)
    (.bind (reconstruct_eq h) (.bind hopen (.bind rfl
      ⟨_, rfl, hfits.with_flags s.mode s.returnMode false s.skipsLineFeed, rfl⟩)))

/-- Names of HTML elements that are not forms. -/
theorem word_of_mem {names : List String}
    (hnames : ∀ n ∈ names, IsWord n ∧ n ≠ "template" ∧ n ≠ "form") (htag : tag.name ∈ names) :
    (tag.element.space = .html → IsWord tag.element.name) ∧ tag.element.label ≠ "template" ∧
      ¬(tag.element.label == "form") = true := by
  obtain ⟨hword, htemplate, hform⟩ := hnames _ htag
  exact ⟨fun _ ↦ hword, htemplate, Bool.eq_false_iff.1 (beq_false_of_ne hform)⟩

theorem openObject_gives (h : Fits s frames) (htag : tag.name ∈ markedElements) :
    Gives (openObject tag) s (AfterOpening s frames tag) s.mode := by
  obtain ⟨hword, htemplate, hform⟩ := word_of_mem (by decide) htag
  have hfits := h.push hword htemplate (.marker (f := s.arena.nextFrame tag.element) htag h.listed)
  rw [formOf_nextFrame, if_neg hform, ← h.form] at hfits
  exact .bind (reconstruct_eq h) (.bind (openTag_eq h.placed htemplate) (.bind rfl (.bind rfl
    ⟨_, rfl, hfits.with_flags s.mode s.returnMode false s.skipsLineFeed, rfl⟩)))

/-- A formatting element opens and is noted as one. -/
theorem openFormatting_gives (h : Fits s frames) (htag : tag.name ∈ formattingElements) :
    Gives (do openFormatting tag; Build.done) s (AfterOpening s frames tag) s.mode := by
  obtain ⟨hword, htemplate, hform⟩ := word_of_mem (by decide) htag
  have hroom : Fits { s with formatting := withRoom tag s.formatting } frames :=
    ⟨h.opens, h.opened, h.words, h.noTemplate, h.listed.withRoom tag, h.form, h.templates,
      h.fostering, h.lenient, h.tableText⟩
  have hlisted : Listed (s.arena.nextFrame tag.element :: frames)
      (.element ⟨s.arena.cells.size⟩ tag :: withRoom tag s.formatting) :=
    .entry rfl htag hroom.listed
  have hfits := hroom.push hword htemplate hlisted
  rw [formOf_nextFrame, if_neg hform, ← hroom.form] at hfits
  have hopen := openElement_eq (e := tag.element) hroom.placed htemplate
  have hformatting : openFormatting tag s = ((), { s.withOpened frames tag.element with
      formatting := .element ⟨s.arena.cells.size⟩ tag :: withRoom tag s.formatting }) :=
    bind_eq (t := { s with formatting := withRoom tag s.formatting }) rfl (bind_eq hopen rfl)
  exact .bind hformatting ⟨_, rfl, hfits, rfl⟩

theorem isOpen_eq_false (h : Fits s frames) {name : String} (hword : IsWord name)
    (hname : name ∉ namesOf frames) : isOpen name s = (false, s) := by
  have hany : s.opened.any (fun n ↦ (s.arena.element n).named name) = false := by
    rw [h.opened, List.any_map, List.any_eq_false]
    intro f hf hnamed
    change (s.arena.element f.node).named name = true at hnamed
    rw [h.element_eq hf, Element.named_eq hword] at hnamed
    exact hname (List.mem_map.2 ⟨f, hf, eq_of_beq hnamed⟩)
  change (s.opened.any fun n ↦ (s.arena.element n).named name, s) = _
  rw [hany]

theorem Fits.template_not_mem (h : Fits s frames) : "template" ∉ namesOf frames := by
  intro hmem
  obtain ⟨f, hf, hname⟩ := List.mem_map.1 hmem
  exact h.noTemplate f hf hname

/-- Outside of forms no form is noted. -/
theorem formOf_eq_none (hname : "form" ∉ namesOf frames) : formOf frames = none := by
  unfold formOf
  rw [Option.map_eq_none_iff, List.find?_eq_none]
  intro f hf hform
  exact hname (List.mem_map.2 ⟨f, hf, eq_of_beq hform⟩)

/-- A form opens outside of forms. -/
theorem openForm_gives (h : Fits s frames) (htag : tag.name = "form")
    (hform : "form" ∉ namesOf frames)
    (hsight : "p" ∉ inSight ("button" :: scopeLabels) (namesOf frames)) :
    Gives (openForm tag) s (AfterOpening s frames tag) s.mode := by
  obtain ⟨hword, hne, hmarked⟩ : IsWord tag.name ∧ tag.name ≠ "template" ∧
      tag.name ∉ markedElements := by
    rw [htag]
    decide
  have hfits := h.push (e := tag.element) (fun _ ↦ hword) hne
    (.plain (f := s.arena.nextFrame tag.element) hmarked h.listed)
  rw [formOf_nextFrame, if_pos (beq_iff_eq.2 (show tag.element.label = "form" from htag))] at hfits
  unfold openForm
  refine .bind (isOpen_eq_false h (by decide) h.template_not_mem) (.bind (t := s) rfl ?_)
  rw [h.form, formOf_eq_none hform, if_neg (by simp)]
  exact .bind (endParagraph_eq h hsight) (.bind (openElement_eq (e := tag.element) h.placed hne)
    (.bind rfl ⟨_, rfl, hfits, rfl⟩))

theorem isListBarrier_eq {e : Element} : e.isListBarrier =
    (Element.specialNames.contains e.label && !(["address", "div", "p"].contains e.label)) := by
  unfold Element.isListBarrier Element.isSpecial
  rw [Element.oneOf_eq (by decide +kernel), Element.oneOf_eq (by decide)]

/-- Searching the open elements is searching the frames. -/
theorem find?_opened (h : Fits s frames) {p : Element → Bool} {q : String → Bool}
    (hpq : ∀ e : Element, p e = q e.label) :
    s.opened.find? (fun n ↦ p (s.arena.element n)) =
      (frames.find? fun f ↦ q f.element.label).map Frame.node := by
  have helement := fun f hf ↦ h.element_eq (f := f) hf
  rw [h.opened]
  clear h
  induction frames with
  | nil => rfl
  | cons f frames ih =>
    have hf : p (s.arena.element f.node) = q f.element.label := by
      rw [helement f List.mem_cons_self, hpq]
    rw [List.map_cons, List.find?_cons, List.find?_cons, hf]
    cases q f.element.label with
    | true => rfl
    | false =>
      exact ih fun g hg ↦ helement g (List.mem_cons_of_mem f hg)

/-- An item opens unless one of its siblings would be closed for it. -/
theorem openItem_gives (h : Fits s frames) {siblings : List String}
    (hsiblings : ∀ n ∈ siblings, IsWord n) (htag : IsPlain tag.name)
    (hitem : ∀ outer ∈ (namesOf frames).find? (endsItems siblings), outer ∉ siblings)
    (hsight : "p" ∉ inSight ("button" :: scopeLabels) (namesOf frames)) :
    Gives (openItem tag siblings) s (AfterOpening s frames tag) s.mode := by
  have hflag : Fits { s with framesetAllowed := false } frames :=
    h.with_flags s.mode s.returnMode false s.skipsLineFeed
  have hblock := openBlock_gives hflag htag hsight
  have hfind := find?_opened hflag (p := fun e ↦ e.oneOf siblings || e.isListBarrier)
    (q := endsItems siblings)
    fun e ↦ by rw [Element.oneOf_eq hsiblings, isListBarrier_eq, endsItems]
  unfold openItem
  refine .bind (t := { s with framesetAllowed := false }) rfl
    (.bind (t := { s with framesetAllowed := false }) rfl ?_)
  rw [hfind]
  cases hfound : frames.find? fun f ↦ endsItems siblings f.element.label with
  | none => exact hblock
  | some f =>
    have hf : f.element.label ∉ siblings := by
      refine hitem _ ?_
      unfold namesOf
      rw [List.find?_map]
      exact Option.mem_map_of_mem _ hfound
    have hnone : f.element.oneOf siblings = false := by
      rw [Element.oneOf_eq hsiblings]
      exact Bool.eq_false_iff.2 fun hc ↦ hf (List.contains_iff_mem.1 hc)
    have helement : ({ s with framesetAllowed := false } : State).arena.element f.node = f.element :=
      h.element_eq (List.mem_of_find?_eq_some hfound)
    dsimp only [Option.map_some]
    rw [helement, hnone]
    exact hblock

/-- Entries since the latest marker are of elements in sight. -/
theorem Listed.mem_inSight {es : List Entry} (h : Listed frames es) {n : NodeId} {tag : Tag}
    (hn : .element n tag ∈ sinceMarker es) :
    ∃ f ∈ frames, f.node = n ∧ f.element.label ∈ inSight markedElements (namesOf frames) := by
  have hcons {f : Frame} {frames : List Frame} (hf : f.element.label ∉ markedElements) :
      inSight markedElements (namesOf (f :: frames)) =
        f.element.label :: inSight markedElements (namesOf frames) := by
    unfold inSight namesOf
    rw [List.map_cons, List.takeWhile_cons_of_pos]
    simpa using hf
  induction h with
  | nil => cases hn
  | plain hname _ ih =>
    obtain ⟨g, hg, hnode, hsight⟩ := ih hn
    exact ⟨g, List.mem_cons_of_mem _ hg, hnode, hcons hname ▸ List.mem_cons_of_mem _ hsight⟩
  | @entry f _ _ _ _ hname _ ih =>
    have hmarked := not_mem_markedElements hname
    rw [hcons hmarked]
    unfold sinceMarker at hn
    rw [List.takeWhile_cons_of_pos rfl] at hn
    rcases List.mem_cons.1 hn with heq | hn
    · obtain ⟨rfl, -⟩ := Entry.element.inj heq
      exact ⟨f, List.mem_cons_self, rfl, List.mem_cons_self⟩
    · obtain ⟨g, hg, hnode, hsight⟩ := ih hn
      exact ⟨g, List.mem_cons_of_mem _ hg, hnode, List.mem_cons_of_mem _ hsight⟩
  | marker _ _ _ =>
    unfold sinceMarker at hn
    rw [List.takeWhile_cons_of_neg (by simp [Entry.isMarker])] at hn
    cases hn

/-- With no link in sight there is none to close. -/
theorem closeLink_eq (h : Fits s frames) (hsight : "a" ∉ inSight markedElements (namesOf frames)) :
    closeLink s = ((), s) := by
  unfold closeLink
  refine bind_eq (t := s) rfl ?_
  have hnone (p : Entry → Bool) (hp : ∀ n tag, p (.element n tag) = true →
      (s.arena.element n).named "a" = true) (hmarker : p .marker = false) :
      (sinceMarker s.formatting).find? p = none := by
    rw [List.find?_eq_none]
    intro e he hpe
    cases e with
    | marker => exact Bool.noConfusion (hpe.symm.trans hmarker)
    | element n tag =>
      obtain ⟨f, hf, rfl, hname⟩ := h.listed.mem_inSight he
      have hnamed := hp _ tag hpe
      rw [h.element_eq hf, Element.named_eq (by decide)] at hnamed
      exact hsight (eq_of_beq hnamed ▸ hname)
  rw [hnone _ (fun n tag hpe ↦ hpe) rfl]
  rfl

/-- A link opens outside of links. -/
theorem openLink_gives (h : Fits s frames) (htag : tag.name = "a")
    (hsight : "a" ∉ inSight markedElements (namesOf frames)) :
    Gives (do closeLink; reconstruct; openFormatting tag; Build.done) s
      (AfterOpening s frames tag) s.mode :=
  .bind (closeLink_eq h hsight) (.bind (reconstruct_eq h)
    (openFormatting_gives h (by rw [htag]; decide)))

theorem openUnbroken_gives (h : Fits s frames) (htag : tag.name = "nobr")
    (hsight : "nobr" ∉ inSight scopeLabels (namesOf frames)) :
    Gives (openUnbroken tag) s (AfterOpening s frames tag) s.mode :=
  .bind (reconstruct_eq h) (.bind
    (namedInScope_eq_false h (fun _ ↦ endsScope_eq) (by decide) (by decide) hsight)
    (openFormatting_gives h (by rw [htag]; decide)))

/-- A list of choices opens and takes its mode. -/
theorem openSelect_gives (h : Fits s frames) (htag : tag.name = "select")
    (hmode : s.mode ∈ flowModes) :
    Gives (openSelect tag) s (AfterOpening s frames tag)
      (if s.mode = .inBody then .inSelect else .inSelectInTable) := by
  have hplain : IsPlain tag.name := by
    rw [htag]
    decide
  obtain ⟨hopen, hfits⟩ := openTag_gives h hplain
  refine .bind (reconstruct_eq h) (.bind hopen (.bind rfl
    ⟨_, rfl, hfits.with_flags _ s.returnMode false s.skipsLineFeed, ?_⟩))
  change (if List.contains _ s.mode then _ else _) = _
  generalize s.mode = mode at hmode
  revert mode
  decide

/-- A table does not end a paragraph, since no document type is declared. -/
theorem openTable_gives (h : Fits s frames) (htag : tag.name = "table") :
    Gives (openTable tag) s (AfterOpening s frames tag) .inTable := by
  have hplain : IsPlain tag.name := by
    rw [htag]
    decide
  obtain ⟨hopen, hfits⟩ := openTag_gives h hplain
  refine .bind (t := s) rfl ?_
  rw [h.lenient]
  exact .bind hopen (.bind rfl (.bind rfl
    ⟨_, rfl, hfits.with_flags _ s.returnMode false s.skipsLineFeed, rfl⟩))

/-- A choice opens outside of choices. -/
theorem openOption_gives (h : Fits s (f :: outer))
    (htag : IsPlain tag.name) (hf : f.element.label ≠ "option") :
    Gives (openOption tag) s (AfterOpening s (f :: outer) tag) s.mode := by
  have hcurrent := currentIs_eq h (Element.named "option")
  rw [Element.named_eq (by decide), beq_eq_false_iff_ne.2 hf] at hcurrent
  exact .bind hcurrent (openInline_gives h htag)

/-- With nothing implied on top, nothing is closed. -/
theorem popImplied_eq (h : Fits s (f :: outer)) {p : Element → Bool} (hp : p f.element = false) :
    popImplied p s = ((), s) := by
  have hdrop : (s.opened.dropWhile fun n ↦ p (s.arena.element n)) = s.opened := by
    rw [h.opened, List.map_cons, List.dropWhile_cons_of_neg]
    rw [h.element_eq List.mem_cons_self, hp]
    exact Bool.false_ne_true
  change ((), { s with opened := s.opened.dropWhile fun n ↦ p (s.arena.element n) }) = _
  rw [hdrop]

/-- Annotations end those before them only within an annotated text. -/
theorem openRuby_gives (h : Fits s (f :: outer)) {implied : Element → Bool}
    (htag : IsPlain tag.name)
    (hruby : "ruby" ∈ namesOf (f :: outer) → implied f.element = false) :
    Gives (openRuby tag implied) s (AfterOpening s (f :: outer) tag) s.mode := by
  obtain ⟨hopen, hfits⟩ := openTag_gives h htag
  have hopens : Gives (do openTag tag; Build.done) s (AfterOpening s (f :: outer) tag) s.mode :=
    .bind hopen ⟨_, rfl, hfits, rfl⟩
  unfold openRuby
  by_cases hmem : "ruby" ∈ namesOf (f :: outer)
  · refine .bind (t := s) (a := (namedInScope Element.endsScope "ruby" s).1) rfl ?_
    cases (namedInScope Element.endsScope "ruby" s).1 with
    | true => exact .bind (popImplied_eq h (hruby hmem)) hopens
    | false => exact hopens
  · refine .bind (namedInScope_eq_false h (fun _ ↦ endsScope_eq) (by decide) (by decide)
      fun hsight ↦ ?_) hopens
    exact hmem ((List.takeWhile_sublist _).subset hsight)

/-! ### Void elements and elements of text -/

/-- The innermost element holds one more that is empty. -/
abbrev AfterVoid (s : State) (f : Frame) (outer : List Frame) (tag : Tag) : List Frame :=
  f.withNode (s.arena.nextFrame tag.element).closed :: outer

theorem discard_putTag_eq (h : Fits s frames) (htag : tag.name ≠ "template") :
    (discard (putTag tag) : Building Unit) s = ((), s.withElement frames tag.element) :=
  discard_eq (putTag_eq h.placed htag)

/-- A void element is put in and not left open. -/
theorem putVoid_gives (h : Fits s (f :: outer)) (htag : tag.name ≠ "template") :
    Gives (putVoid tag) s (AfterVoid s f outer tag) s.mode :=
  .bind (reconstruct_eq h) (.bind (discard_putTag_eq h htag) (.bind rfl
    ⟨_, rfl, (h.put tag.element).with_flags s.mode s.returnMode false s.skipsLineFeed, rfl⟩))

theorem putTag_gives (h : Fits s (f :: outer)) (htag : tag.name ≠ "template") :
    Gives (do discard (putTag tag); Build.done) s (AfterVoid s f outer tag) s.mode :=
  .bind (discard_putTag_eq h htag) ⟨_, rfl, h.put tag.element, rfl⟩

/-- An element that holds nothing but text is the innermost one. -/
def GivesText (x : Building Outcome) (s : State) (frames : List Frame) (kind : TextMode)
    (mode : Mode) : Prop :=
  ∃ s₁, x s = (.reads kind, s₁) ∧ Fits s₁ frames ∧ s₁.mode = .text ∧ s₁.returnMode = mode

/-- The same for elements whose content is read as text. -/
theorem GivesText.bind {α : Type} {x : Building α} {y : α → Building Outcome} {a : α}
    {t : State} {kind : TextMode} {mode : Mode} (hx : x s = (a, t))
    (hy : GivesText (y a) t frames kind mode) : GivesText (x >>= y) s frames kind mode := by
  obtain ⟨s₂, heq, hrest⟩ := hy
  exact ⟨s₂, bind_eq hx heq, hrest⟩

/-- An element of text opens and its content is read as text. -/
theorem openText_gives (h : Fits s frames) (kind : TextMode)
    (htag : IsPlain tag.name) :
    GivesText (openText tag kind) s (AfterOpening s frames tag) kind s.mode := by
  obtain ⟨hopen, hfits⟩ := openTag_gives h htag
  exact .bind hopen (.bind rfl ⟨_, rfl, hfits.with_flags .text s.mode s.framesetAllowed
    s.skipsLineFeed, rfl, rfl⟩)

end

/-! ### Tags in a body -/

section

variable {s : State} {f : Frame} {outer : List Frame} {tag : Tag}

/-- Names that rules are made for. -/
def ruledNames : List String :=
  strayNames ++ (foreignRoots ++ (textNames ++ (emptyNames ++ (tablePartNames ++ (blockNames ++
    (formattingNames ++ (headingNames ++ (objectNames ++ (["pre", "listing"] ++ (["dd", "dt"] ++
      (["option", "optgroup"] ++ (["rb", "rp", "rt", "rtc"] ++ (["select", "table"] ++
        ["form", "button", "a", "nobr", "li"])))))))))))))

section

variable (attributes : List (String × String)) (selfClosing : Bool)

theorem openingInBody_block : ∀ name ∈ blockNames,
    openingInBody ⟨name, attributes, selfClosing⟩ = openBlock ⟨name, attributes, selfClosing⟩ := by
  simp only [blockNames, List.forall_mem_cons]
  and_intros
  all_goals first | rfl | exact fun _ h ↦ absurd h List.not_mem_nil

theorem openingInBody_formatting : ∀ name ∈ formattingNames,
    openingInBody ⟨name, attributes, selfClosing⟩ =
      (do reconstruct; openFormatting ⟨name, attributes, selfClosing⟩; Build.done) := by
  simp only [formattingNames, List.forall_mem_cons]
  and_intros
  all_goals first | rfl | exact fun _ h ↦ absurd h List.not_mem_nil

theorem openingInBody_heading : ∀ name ∈ headingNames,
    openingInBody ⟨name, attributes, selfClosing⟩ =
      openHeading ⟨name, attributes, selfClosing⟩ := by
  simp only [headingNames, List.forall_mem_cons]
  and_intros
  all_goals first | rfl | exact fun _ h ↦ absurd h List.not_mem_nil

theorem openingInBody_object : ∀ name ∈ objectNames,
    openingInBody ⟨name, attributes, selfClosing⟩ = openObject ⟨name, attributes, selfClosing⟩ := by
  simp only [objectNames, List.forall_mem_cons]
  and_intros
  all_goals first | rfl | exact fun _ h ↦ absurd h List.not_mem_nil

end

/-- A name without a rule of its own is opened as it is. -/
theorem openingInBody_unruled (h : tag.name ∉ ruledNames) : openingInBody tag = openInline tag := by
  have hne {name : String} (hname : name ∈ ruledNames) : tag.name ≠ name :=
    fun heq ↦ h (heq ▸ hname)
  have hnone {names : List String} (hnames : names ⊆ ruledNames) :
      names.contains tag.name = false :=
    Bool.eq_false_iff.2 fun hc ↦ h (hnames (List.contains_iff_mem.1 hc))
  unfold openingInBody
  dsimp only
  rw [if_neg (by simpa using hne (by decide)), hnone (by decide), if_neg Bool.false_ne_true,
    hnone (by decide), if_neg Bool.false_ne_true, hnone (by decide), if_neg Bool.false_ne_true]
  split
  all_goals first
    | rfl
    | exact absurd ‹tag.name = _› (hne (by decide))

/-- Where an element may stand, its tag makes it the innermost one. -/
abbrev OpensIn (s : State) (frames : List Frame) (tag : Tag) : Prop :=
  Gives (openingInBody tag) s (AfterOpening s frames tag) s.mode

section

variable {name : String} {attributes : List (String × String)} {selfClosing : Bool}
  (h : Fits s (f :: outer)) (hstand : MayStand (namesOf (f :: outer)) name)

include h hstand

/-- Blocks. -/
theorem opens_block (hname : name ∈ blockNames) :
    OpensIn s (f :: outer) ⟨name, attributes, selfClosing⟩ := by
  have hplain : ∀ n ∈ blockNames, IsPlain n := by decide
  have hparagraph : blockNames ⊆ paragraphEnds := by decide
  unfold OpensIn
  rw [openingInBody_block _ _ _ hname]
  exact openBlock_gives h (hplain _ hname) (hstand.paragraph (hparagraph hname))

/-- Headings. -/
theorem opens_heading (hname : name ∈ headingNames) :
    OpensIn s (f :: outer) ⟨name, attributes, selfClosing⟩ := by
  have hplain : ∀ n ∈ headingNames, IsPlain n := by decide
  have hparagraph : headingNames ⊆ paragraphEnds := by decide
  unfold OpensIn
  rw [openingInBody_heading _ _ _ hname]
  exact openHeading_gives h (hplain _ hname) (hstand.paragraph (hparagraph hname))
    (hstand.heading hname _ rfl)

/-- Preformatted blocks. -/
theorem opens_preformatted (hname : name ∈ ["pre", "listing"]) :
    OpensIn s (f :: outer) ⟨name, attributes, selfClosing⟩ := by
  have hsight := fun hparagraph ↦ hstand.paragraph hparagraph
  obtain rfl | rfl : name = "pre" ∨ name = "listing" := by simpa using hname
  · exact openPreformatted_gives h (by decide : IsPlain "pre") (hsight (by decide))
  · exact openPreformatted_gives h (by decide : IsPlain "listing") (hsight (by decide))

/-- Entries of definition lists. -/
theorem opens_entry (hname : name ∈ ["dd", "dt"]) :
    OpensIn s (f :: outer) ⟨name, attributes, selfClosing⟩ := by
  have hitem := hstand.entry hname
  have hsight := fun hparagraph ↦ hstand.paragraph hparagraph
  obtain rfl | rfl : name = "dd" ∨ name = "dt" := by simpa using hname
  · exact openItem_gives h (by decide) (by decide : IsPlain "dd") hitem (hsight (by decide))
  · exact openItem_gives h (by decide) (by decide : IsPlain "dt") hitem (hsight (by decide))

/-- Choices. -/
theorem opens_option (hname : name ∈ ["option", "optgroup"]) :
    OpensIn s (f :: outer) ⟨name, attributes, selfClosing⟩ := by
  have hf : f.element.label ≠ "option" := fun heq ↦ hstand.option hname (congrArg some heq)
  obtain rfl | rfl : name = "option" ∨ name = "optgroup" := by simpa using hname
  · exact openOption_gives h (by decide : IsPlain "option") hf
  · exact openOption_gives h (by decide : IsPlain "optgroup") hf

/-- Annotations of readings. -/
theorem opens_annotation (hname : name ∈ ["rb", "rp", "rt", "rtc"]) :
    OpensIn s (f :: outer) ⟨name, attributes, selfClosing⟩ := by
  have hruby (hmem : "ruby" ∈ namesOf (f :: outer)) (himplied : f.element.endsByItself = true) :
      f.element.label = "rtc" ∧ name ∈ ["rp", "rt"] := by
    unfold Element.endsByItself at himplied
    rw [Element.oneOf_eq (by decide)] at himplied
    exact hstand.ruby hname hmem _ rfl (List.contains_iff_mem.1 himplied)
  have hnone (hother : name ∉ ["rp", "rt"]) (hmem : "ruby" ∈ namesOf (f :: outer)) :
      f.element.endsByItself = false :=
    Bool.eq_false_iff.2 fun himplied ↦ hother (hruby hmem himplied).2
  have hgroup (hmem : "ruby" ∈ namesOf (f :: outer)) :
      (f.element.endsByItself && !f.element.named "rtc") = false := by
    cases himplied : f.element.endsByItself with
    | false => rfl
    | true =>
      rw [Element.named_eq (by decide), (hruby hmem himplied).1]
      rfl
  obtain rfl | rfl | rfl | rfl : name = "rb" ∨ name = "rp" ∨ name = "rt" ∨ name = "rtc" := by
    simpa using hname
  · exact openRuby_gives h (by decide : IsPlain "rb") (hnone (by decide))
  · exact openRuby_gives h (by decide : IsPlain "rp") hgroup
  · exact openRuby_gives h (by decide : IsPlain "rt") hgroup
  · exact openRuby_gives h (by decide : IsPlain "rtc") (hnone (by decide))

/-- An element that is not void, holds more than text and is no part of a table is opened where it
may stand. -/
theorem opens_of_mayStand (hflow : s.mode ∈ flowModes)
    (hmode : s.mode = modeOf (namesOf (f :: outer))) (hroot : name ∉ foreignRoots)
    (htext : name ∉ textNames) (hvoid : name ∉ emptyNames) (hpart : name ∉ tablePartNames) :
    Gives (openingInBody ⟨name, attributes, selfClosing⟩) s
      (AfterOpening s (f :: outer) ⟨name, attributes, selfClosing⟩)
      (modeOf (name :: namesOf (f :: outer))) := by
  by_cases hselect : name = "select"
  · subst hselect
    rw [modeOf, ← hmode]
    exact openSelect_gives h rfl hflow
  by_cases htable : name = "table"
  · subst htable
    exact openTable_gives h rfl
  have hmoded : name ∉ modedNames := by
    have hsubset : ∀ n ∈ modedNames, n = "select" ∨ n = "table" ∨ n ∈ tablePartNames := by decide
    intro hmem
    rcases hsubset _ hmem with rfl | rfl | hmem
    · exact hselect rfl
    · exact htable rfl
    · exact hpart hmem
  rw [modeOf_cons hmoded, ← hmode]
  by_cases hblock : name ∈ blockNames
  · exact opens_block h hstand hblock
  by_cases hformatting : name ∈ formattingNames
  · rw [openingInBody_formatting _ _ _ hformatting]
    exact .bind (reconstruct_eq h) (openFormatting_gives h (List.mem_append_left _ hformatting))
  by_cases hheading : name ∈ headingNames
  · exact opens_heading h hstand hheading
  by_cases hobject : name ∈ objectNames
  · rw [openingInBody_object _ _ _ hobject]
    exact openObject_gives h (List.mem_append_left _ hobject)
  by_cases hpre : name ∈ ["pre", "listing"]
  · exact opens_preformatted h hstand hpre
  by_cases hentry : name ∈ ["dd", "dt"]
  · exact opens_entry h hstand hentry
  by_cases hoption : name ∈ ["option", "optgroup"]
  · exact opens_option h hstand hoption
  by_cases hannotation : name ∈ ["rb", "rp", "rt", "rtc"]
  · exact opens_annotation h hstand hannotation
  by_cases hrest : name ∈ ["form", "button", "a", "nobr", "li"]
  · obtain rfl | rfl | rfl | rfl | rfl :
        name = "form" ∨ name = "button" ∨ name = "a" ∨ name = "nobr" ∨ name = "li" := by
      simpa using hrest
    · exact openForm_gives h rfl (hstand.form rfl) (hstand.paragraph (by decide))
    · exact openButton_gives h (by decide : IsPlain "button") (hstand.unbroken (by decide))
    · exact openLink_gives h rfl (hstand.link rfl)
    · exact openUnbroken_gives h rfl (hstand.unbroken (by decide))
    · exact openItem_gives h (by decide) (by decide : IsPlain "li") (hstand.item rfl)
        (hstand.paragraph (by decide))
  have hunruled : name ∉ ruledNames := by
    have hspecial : name ∉ ["select", "table"] := by simp [hselect, htable]
    simp only [ruledNames, List.mem_append, not_or]
    exact ⟨hstand.notStray, hroot, htext, hvoid, hpart, hblock, hformatting, hheading, hobject, hpre,
      hentry, hoption, hannotation, hspecial, hrest⟩
  have hplain : "template" :: "form" :: markedElements ⊆ ruledNames := by decide
  rw [openingInBody_unruled hunruled]
  exact openInline_gives h ⟨hstand.word, fun hmem ↦ hunruled (hplain hmem)⟩

end

end

end Build

end Nodecraft.Markup
