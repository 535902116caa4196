import Nodecraft.Proofs.Markup.Receiving

/-!
# Where a page begins

Before anything is written that has a place in a page, nothing is open (`Unopened`). The first token
that has one opens the root element and the head (`Unopened.leads`), and the first one that the head
has no place for closes the head and opens the body (`InHead.leads`). So what is written at the
beginning of a page may be in its head (`InHead.takes_void`, `InHead.takes_text`), and all else is in
its body.
-/

set_option autoImplicit false

namespace Nodecraft.Markup.Build

section

variable {s : State} {t : Token} {tag : Tag} {h r : Frame}

/-- Tokens that have a place in a page. -/
inductive Begins : Token → Prop
  | char {c : Char} : isSpace c = false → Begins (.char c)
  | opening {tag : Tag} : tag.name ∉ strayNames → Begins (.opening tag)
  | eof : Begins .eof

/-! ### Nothing is open -/

/-- A state in which nothing has been opened. -/
structure Unopened (s : State) : Prop where
  fits : Fits { s with lenient := true } []
  mode : s.mode = .initial ∨ (s.mode = .beforeHtml ∧ s.lenient = true)

theorem unopened_start : Unopened .start where
  fits :=
    ⟨.document rfl, rfl, fun _ hf ↦ absurd hf List.not_mem_nil,
      fun _ hf ↦ absurd hf List.not_mem_nil, .nil, rfl, rfl, rfl, rfl, rfl⟩
  mode := .inl rfl

theorem Unopened.awake (hs : Unopened s) : Unopened s.awake :=
  ⟨hs.fits.with_flags s.mode s.returnMode s.framesetAllowed false, hs.mode⟩

/-- With nothing open, nothing is foreign. -/
theorem Fits.not_foreign (hs : Fits s []) (t : Token) : isForeign s t = false := by
  have hnone : s.opened.isEmpty = true := by
    rw [hs.opened]
    rfl
  unfold isForeign
  dsimp only
  rw [hnone]
  rfl

theorem Unopened.not_foreign (hs : Unopened s) (t : Token) : isForeign s t = false :=
  hs.fits.not_foreign t

/-- Without a document type, the lenient rules hold. -/
theorem Unopened.leads_lenient (hs : Unopened s) (ht : Begins t ∨ ∃ name, t = .closing name) :
    ∃ s₁ n, n ≤ 1 ∧ Leads n t s s₁ ∧ Fits s₁ [] ∧ s₁.mode = .beforeHtml := by
  rcases hs.mode with hmode | ⟨hmode, hlenient⟩
  · have hagain : inMode s.mode t s = (.again .beforeHtml, { s with lenient := true }) := by
      have hinitial : inMode s.mode t = initial t := by
        rw [hmode]
        rfl
      rw [hinitial]
      rcases ht with ht | ⟨name, rfl⟩
      · cases ht with
        | char hc =>
          unfold initial
          dsimp only
          rw [hc]
          rfl
        | opening => rfl
        | eof => rfl
      · rfl
    exact ⟨_, 1, Nat.le_refl 1, leads_again (hs.not_foreign t) hagain,
      hs.fits.with_flags .beforeHtml s.returnMode s.framesetAllowed s.skipsLineFeed, rfl⟩
  · have hsame : { s with lenient := true } = s := by rw [← hlenient]
    have hfits := hs.fits
    rw [hsame] at hfits
    exact ⟨s, 0, Nat.zero_le 1, fun _ ↦ rfl, hfits, hmode⟩

/-- White space does not begin a page. -/
theorem Unopened.takes_space (hs : Unopened s) {c : Char} (hc : isSpace c = true) :
    Takes 1 (.char c) s none s := by
  have hdone : inMode s.mode (.char c) s = (Outcome.done, s) := by
    rcases hs.mode with hmode | ⟨hmode, -⟩
    · rw [hmode]
      change initial (.char c) s = _
      unfold initial
      dsimp only
      rw [hc]
      rfl
    · rw [hmode]
      change beforeHtml (.char c) s = _
      unfold beforeHtml
      dsimp only
      rw [hc]
      rfl
  exact fun _ ↦ process_done (hs.not_foreign _) hdone

/-- Nor does the closing tag of a void element. -/
theorem Unopened.takes_stray (hs : Unopened s) {name : String} (hname : opensContent name = false) :
    ∃ s₁, Takes 2 (.closing name) s none s₁ ∧ Unopened s₁ := by
  obtain ⟨s₁, n, hn, hleads, hfits, hmode⟩ := hs.leads_lenient (.inr ⟨name, rfl⟩)
  have hdone : inMode s₁.mode (.closing name) s₁ = (Outcome.done, s₁) := by
    rw [hmode]
    change beforeHtml (.closing name) s₁ = _
    unfold beforeHtml
    dsimp only
    rw [hname]
    rfl
  have htakes : Takes 1 (.closing name) s₁ none s₁ :=
    fun _ ↦ process_done (hfits.not_foreign _) hdone
  have hlenient : { s₁ with lenient := true } = s₁ := by rw [← hfits.lenient]
  refine ⟨s₁, ?_, by rwa [hlenient], .inr ⟨hmode, hfits.lenient⟩⟩
  have hall := hleads.takes htakes
  intro fuel
  have hfuel : fuel + 2 = fuel + (1 - n) + (1 + n) := by omega
  rw [hfuel]
  exact hall _

/-- The root element is opened. -/
theorem Fits.leads_root (hs : Fits s []) (hmode : s.mode = .beforeHtml) (ht : Begins t) :
    ∃ s₁ root, Leads 1 t s s₁ ∧ Fits s₁ [root] ∧ root.element.label = "html" ∧ root.nodes = [] ∧
      s₁.mode = .beforeHead := by
  have hroot : openRoot [] s = ((), s.withOpened [] (Tag.element ⟨"html", [], false⟩)) := by
    unfold openRoot
    exact bind_eq (newElement_eq (e := Tag.element ⟨"html", [], false⟩) (by decide) s)
      (bind_eq (t := s.withElement [] (Tag.element ⟨"html", [], false⟩)) rfl rfl)
  have hagain : inMode s.mode t s =
      (.again .beforeHead, s.withOpened [] (Tag.element ⟨"html", [], false⟩)) := by
    have hbegins : inMode s.mode t = (do openRoot []; return .again .beforeHead) := by
      rw [hmode]
      change beforeHtml t = _
      unfold beforeHtml
      cases ht with
      | char hc =>
        dsimp only
        rw [hc]
        rfl
      | @opening tag hname =>
        have hne : (tag.name == "html") = false :=
          beq_false_of_ne fun heq ↦ hname (heq ▸ by decide)
        dsimp only
        rw [hne]
        rfl
      | eof => rfl
    rw [hbegins]
    exact bind_eq hroot rfl
  have hfits := hs.push_plain (e := Tag.element ⟨"html", [], false⟩) (by decide) (by decide)
  exact ⟨_, _, leads_again (hs.not_foreign t) hagain,
    hfits.with_flags .beforeHead s.returnMode s.framesetAllowed s.skipsLineFeed, rfl, rfl, rfl⟩

/-! ### The head -/

/-- A state in the head of a page. -/
structure InHead (s : State) (h r : Frame) : Prop where
  fits : Fits s [h, r]
  head : h.element.label = "head"
  root : r.element.label = "html"
  mode : s.mode = .inHead

/-- Between the tags of the head, an HTML element is open. -/
theorem InHead.not_foreign (hs : InHead s h r) (t : Token) : isForeign s t = false :=
  hs.fits.isForeign_eq (Element.space_of_label (by rw [hs.head]; decide)) t

theorem InHead.awake (hs : InHead s h r) : InHead s.awake h r :=
  ⟨hs.fits.awake, hs.head, hs.root, hs.mode⟩

/-- The head is opened. -/
theorem Fits.leads_head (hs : Fits s [r]) (hr : r.element.label = "html") (hmode : s.mode = .beforeHead)
    (ht : Begins t) : ∃ s₁ h, Leads 1 t s s₁ ∧ InHead s₁ h r ∧ h.nodes = [] := by
  have hopen : openHead [] s = ((), { s.withOpened [r] (Tag.element ⟨"head", [], false⟩) with
      head := some ⟨s.arena.cells.size⟩ }) := by
    unfold openHead
    exact bind_eq (openElement_eq (e := Tag.element ⟨"head", [], false⟩) hs.placed (by decide)) rfl
  have hagain : inMode s.mode t s = (.again .inHead,
      { s.withOpened [r] (Tag.element ⟨"head", [], false⟩) with
        head := some ⟨s.arena.cells.size⟩ }) := by
    have hbegins : inMode s.mode t = (do openHead []; return .again .inHead) := by
      rw [hmode]
      change beforeHead t = _
      unfold beforeHead
      cases ht with
      | char hc =>
        dsimp only
        rw [hc]
        rfl
      | @opening tag hname =>
        have hne {n : String} (hn : n ∈ strayNames) : (tag.name == n) = false :=
          beq_false_of_ne fun heq ↦ hname (heq ▸ hn)
        dsimp only
        rw [hne (by decide), hne (by decide)]
        rfl
      | eof => rfl
    rw [hbegins]
    exact bind_eq hopen rfl
  have hfits := hs.push_plain (e := Tag.element ⟨"head", [], false⟩) (by decide) (by decide)
  refine ⟨_, s.arena.nextFrame (Tag.element ⟨"head", [], false⟩),
    leads_again (hs.isForeign_eq (Element.space_of_label (by rw [hr]; decide)) t) hagain,
    ⟨?_, rfl, hr, rfl⟩, rfl⟩
  exact ⟨hfits.opens, hfits.opened, hfits.words, hfits.noTemplate, hfits.listed, hfits.form,
    hfits.templates, hfits.fostering, hfits.lenient, hfits.tableText⟩

/-- The first token that has a place in a page is read in its head. -/
theorem Unopened.leads (hs : Unopened s) (ht : Begins t) :
    ∃ s₁ h r n, n ≤ 3 ∧ Leads n t s s₁ ∧ InHead s₁ h r ∧ h.nodes = [] ∧ r.nodes = [] := by
  obtain ⟨s₁, n, hn, hleads, hfits, hmode⟩ := hs.leads_lenient (.inl ht)
  obtain ⟨s₂, r, hroot, hfits, hr, hnodes, hmode⟩ := hfits.leads_root hmode ht
  obtain ⟨s₃, h, hhead, hinHead, hnone⟩ := hfits.leads_head hr hmode ht
  exact ⟨s₃, h, r, 1 + (1 + n), by omega, (hleads.trans hroot).trans hhead, hinHead, hnone, hnodes⟩

/-- White space stays in the head. -/
theorem InHead.takes_space (hs : InHead s h r) {c : Char} (hc : isSpace c = true) :
    ∃ s₁, Takes 1 (.char c) s none s₁ ∧ InHead s₁ h r := by
  have hspace : inMode s.mode (.char c) = (do putChar c; Build.done) := by
    rw [hs.mode]
    change inHead (.char c) = _
    unfold inHead
    dsimp only
    rw [hc]
    rfl
  have hgives := putChar_gives hs.fits c
  rw [← hspace] at hgives
  obtain ⟨s₁, htakes, hfits, hmode⟩ := hgives.takes (hs.not_foreign _)
  exact ⟨s₁, htakes, hfits, hs.head, hs.root, hmode.trans hs.mode⟩

/-- The closing tag of an element that holds nothing does nothing in the head. -/
theorem InHead.takes_stray (hs : InHead s h r) {name : String} (hname : name ∈ emptyNames)
    (hbr : name ≠ "br") : Takes 1 (.closing name) s none s := by
  have hnone : ∀ n ∈ emptyNames, n ≠ "br" → n ≠ "head" ∧ n ≠ "template" ∧ opensContent n = false := by
    decide
  obtain ⟨hhead, htemplate, hopens⟩ := hnone _ hname hbr
  have hdone : inMode s.mode (.closing name) s = (Outcome.done, s) := by
    rw [hs.mode]
    change inHead (.closing name) s = _
    unfold inHead
    dsimp only
    rw [beq_false_of_ne hhead, beq_false_of_ne htemplate, hopens]
    rfl
  exact fun _ ↦ process_done (hs.not_foreign _) hdone

/-- Void elements that describe a page. -/
def headVoids : List String := ["base", "basefont", "bgsound", "link", "meta"]

/-- Elements of text that describe a page. -/
def headTexts : List String := ["title", "noframes", "style", "noscript", "script"]

/-- A void element of the head stays there. -/
theorem InHead.takes_void (hs : InHead s h r) (hname : tag.name ∈ headVoids) :
    ∃ s₁, Takes 1 (.opening tag) s none s₁ ∧
      InHead s₁ (h.withNode (s.arena.nextFrame tag.element).closed) r := by
  have hplain : ∀ n ∈ headVoids, n ≠ "template" := by decide
  have hputs : inMode s.mode (.opening tag) = (do discard (putTag tag); Build.done) := by
    rw [hs.mode]
    change inHead (.opening tag) = _
    obtain ⟨name, attributes, selfClosing⟩ := tag
    simp only [headVoids, List.mem_cons, List.not_mem_nil, or_false] at hname
    rcases hname with rfl | rfl | rfl | rfl | rfl
    all_goals rfl
  have hgives := @putTag_gives _ _ _ tag hs.fits (hplain _ hname)
  rw [← hputs] at hgives
  obtain ⟨s₁, htakes, hfits, hmode⟩ := hgives.takes (hs.not_foreign _)
  exact ⟨s₁, htakes, hfits, hs.head, hs.root, hmode.trans hs.mode⟩

/-- So does an element of text of the head. -/
theorem InHead.takes_text (hs : InHead s h r) (hname : tag.name ∈ headTexts) :
    ∃ s₁, Takes 1 (.opening tag) s (some (textKind tag.name)) s₁ ∧
      Texting s₁ (AfterOpening s [h, r] tag) .inHead := by
  have hplain : ∀ n ∈ headTexts, IsPlain n := by decide
  have hopens : inMode s.mode (.opening tag) = openText tag (textKind tag.name) := by
    rw [hs.mode]
    change inHead (.opening tag) = _
    obtain ⟨name, attributes, selfClosing⟩ := tag
    simp only [headTexts, List.mem_cons, List.not_mem_nil, or_false] at hname
    rcases hname with rfl | rfl | rfl | rfl | rfl
    all_goals rfl
  have hgives := @openText_gives _ _ tag hs.fits (textKind tag.name) (hplain _ hname)
  rw [← hopens, hs.mode] at hgives
  refine GivesText.takes ?_ (hs.not_foreign _)
  rw [hs.mode]
  exact hgives

/-! ### The body -/

/-- Tokens that the head has no place for. -/
inductive Leaves : Token → Prop
  | char {c : Char} : isSpace c = false → Leaves (.char c)
  | opening {tag : Tag} : tag.name ∉ strayNames → tag.name ∉ headVoids → tag.name ∉ headTexts →
    Leaves (.opening tag)
  | eof : Leaves .eof

/-- Any other tag begins the body. -/
theorem headTag?_eq_none (hstray : tag.name ∉ strayNames) (hvoid : tag.name ∉ headVoids)
    (htext : tag.name ∉ headTexts) : headTag? tag = none := by
  have hvoids : ["base", "basefont", "bgsound", "link", "meta"].contains tag.name = false :=
    Bool.eq_false_iff.2 fun hc ↦ hvoid (List.contains_iff_mem.1 hc)
  have hnone {names : List String} (hnames : names ⊆ headTexts) : names.contains tag.name = false :=
    Bool.eq_false_iff.2 fun hc ↦ htext (hnames (List.contains_iff_mem.1 hc))
  have hne {n : String} (hn : n ∈ headTexts) : (tag.name == n) = false :=
    beq_false_of_ne fun heq ↦ htext (heq ▸ hn)
  have htemplate : (tag.name == "template") = false :=
    beq_false_of_ne fun heq ↦ hstray (heq ▸ by decide)
  unfold headTag?
  rw [hvoids, hne (by decide), hnone (by decide), hne (by decide), htemplate]
  rfl

/-- In the body content flows. -/
theorem modeOf_body {b : Frame} (hb : b.element.label = "body") (hr : r.element.label = "html") :
    modeOf (namesOf [b, r]) = .inBody := by
  rw [namesOf_cons, namesOf_cons, hb, hr]
  rfl

/-- The head is closed, and the body is opened. -/
theorem InHead.leads (hs : InHead s h r) (ht : Leaves t) : ∃ s₁ b, Leads 2 t s s₁ ∧
    Standing s₁ [b, r.withNode h.closed] ∧ b.element.label = "body" ∧ b.nodes = [] := by
  have hleaves : inMode s.mode t s =
      (.again .afterHead, { s with opened := s.opened.tail }) := by
    have hleave : inMode s.mode t = (do pop; return .again .afterHead) := by
      rw [hs.mode]
      change inHead t = _
      unfold inHead
      cases ht with
      | char hc =>
        dsimp only
        rw [hc]
        rfl
      | @opening tag hstray hvoid htext =>
        have hne {n : String} (hn : n ∈ strayNames) : (tag.name == n) = false :=
          beq_false_of_ne fun heq ↦ hstray (heq ▸ hn)
        dsimp only
        rw [hne (by decide), hne (by decide), headTag?_eq_none hstray hvoid htext]
        rfl
      | eof => rfl
    rw [hleave]
    rfl
  have hafter := leads_again (hs.not_foreign t) hleaves
  have hclosed := (hs.fits.pop_plain (by rw [hs.head]; decide)).with_flags .afterHead s.returnMode
    s.framesetAllowed s.skipsLineFeed
  obtain ⟨hopen, hfits⟩ := @openTag_gives _ _ ⟨"body", [], false⟩ hclosed (by decide)
  have hbegins : afterHead t = (do openNamed "body"; return .again .inBody) := by
    unfold afterHead
    cases ht with
    | char hc =>
      dsimp only
      rw [hc]
      rfl
    | @opening tag hstray hvoid htext =>
      have hne {n : String} (hn : n ∈ strayNames) : (tag.name == n) = false :=
        beq_false_of_ne fun heq ↦ hstray (heq ▸ hn)
      have hnames : ∀ n ∈ headNames, n ∈ headVoids ∨ n ∈ headTexts ∨ n ∈ strayNames := by decide
      have hnone : headNames.contains tag.name = false := by
        refine Bool.eq_false_iff.2 fun hc ↦ ?_
        rcases hnames _ (List.contains_iff_mem.1 hc) with hmem | hmem | hmem
        · exact hvoid hmem
        · exact htext hmem
        · exact hstray hmem
      dsimp only
      rw [hne (by decide), hne (by decide), hne (by decide), hnone, hne (by decide)]
      rfl
    | eof => rfl
  have hagain : afterHead t { s with opened := s.opened.tail, mode := .afterHead } =
      (.again .inBody, ({ s with opened := s.opened.tail, mode := .afterHead } : State).withOpened
        [r.withNode h.closed] (Tag.element ⟨"body", [], false⟩)) := by
    rw [hbegins]
    exact bind_eq hopen rfl
  have hbody := leads_again (s := { s with opened := s.opened.tail, mode := .afterHead })
    (hclosed.isForeign_eq (Element.space_of_label
      (by rw [show (r.withNode h.closed).element = r.element from rfl, hs.root]; decide)) t) hagain
  have hmode : modeOf (namesOf (AfterOpening { s with opened := s.opened.tail, mode := .afterHead }
      [r.withNode h.closed] ⟨"body", [], false⟩)) = .inBody := modeOf_body rfl hs.root
  exact ⟨_, _, hafter.trans hbody,
    ⟨hfits.with_flags .inBody s.returnMode s.framesetAllowed s.skipsLineFeed, .body rfl hs.root,
      hmode.symm⟩, rfl, rfl⟩

/-! ### The end -/

/-- Nothing is left to do at the end of a text. -/
theorem Standing.takes_eof {b : Frame} (hs : Standing s [b, r]) (hb : b.element.label = "body")
    (hr : r.element.label = "html") : Takes 1 .eof s none s := by
  have hdone : inMode s.mode .eof s = (Outcome.done, s) := by
    rw [hs.mode, modeOf_body hb hr]
    change endOfText s = _
    unfold endOfText
    refine bind_eq (t := s) rfl ?_
    rw [hs.fits.templates]
    rfl
  exact fun _ ↦ process_done (hs.fits.isForeign_eq (Element.space_of_label (by rw [hb]; decide)) _) hdone

end

end Nodecraft.Markup.Build
