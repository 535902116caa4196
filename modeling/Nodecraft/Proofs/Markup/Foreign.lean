import Nodecraft.Proofs.Markup.Receiving

/-!
# Elements of other vocabularies

An element of SVG or MathML is put where it is written, if its tag does not break out of such content
(`StaysForeign`) and the element around it takes it in (`Standing.takes_foreign_opening`,
`Standing.takes_foreign_empty`). Its closing tag finishes it (`Standing.takes_foreign_closing`), and text
and closing tags of void elements leave the elements around them as they are.
-/

set_option autoImplicit false

namespace Nodecraft.Markup

open Build

/-! ### Vocabularies -/

/-- Whether an element of a name is read in the vocabulary of the foreign element around it. Some foreign
elements hold HTML, and annotations of formulas hold pictures. -/
def Element.keepsForeign (e : Element) (name : String) : Bool :=
  !e.isHtml && !((e.holdsMathText && !(["mglyph", "malignmark"].contains name)) || e.holdsHtml ||
    (e.isAnnotation && name == "svg") || e.isHtmlAnnotation)

/-- The vocabulary of an element of a name right in another one. -/
def Element.spaceWithin (outer : Element) (name : String) : Space :=
  if outer.keepsForeign name then outer.space
  else if name = "svg" then .svg
  else if name = "math" then .mathml
  else .html

/-- The element of a tag in a vocabulary other than HTML, under the name of the tag. -/
def Tag.foreignElement (tag : Tag) (space : Space) : Element :=
  ⟨space, tag.name, tag.attributes.map fun a ↦ (foreignAttribute space a.1, a.2)⟩

/-- A tag with the proper spelling of its name. -/
def Tag.respelled (tag : Tag) (space : Space) : Tag :=
  if space == .svg then { tag with name := Build.respelled svgElementNames tag.name } else tag

/-- The element of a tag in a vocabulary. -/
def Tag.elementOf (tag : Tag) (space : Space) : Element :=
  if space = .html then tag.element else (tag.respelled space).foreignElement space

/-- The element of a tag right in another element. -/
def Tag.elementIn (tag : Tag) (outer : Element) : Element :=
  tag.elementOf (outer.spaceWithin tag.name)

theorem Tag.space_elementOf (tag : Tag) (space : Space) : (tag.elementOf space).space = space := by
  cases space <;> rfl

/-- Where HTML is read, the vocabulary does not depend on the element around. -/
theorem Element.spaceWithin_congr {outer other : Element} {name : String}
    (h : outer.keepsForeign name = false) (h' : other.keepsForeign name = false) :
    outer.spaceWithin name = other.spaceWithin name := by
  unfold spaceWithin
  rw [h, h']
  rfl

/-- HTML elements keep nothing in another vocabulary. -/
theorem Element.keepsForeign_of_html {e : Element} (he : e.space = .html) (name : String) :
    e.keepsForeign name = false := by
  unfold keepsForeign isHtml
  rw [he]
  rfl

/-- What is kept in another vocabulary is no HTML. -/
theorem Element.space_elementIn_of_keeps {e : Element} {tag : Tag} (h : e.keepsForeign tag.name = true) :
    (tag.elementIn e).space ≠ .html := by
  unfold Tag.elementIn spaceWithin
  rw [Tag.space_elementOf, if_pos h]
  intro heq
  rw [keepsForeign_of_html heq] at h
  cases h

/-- Outside of foreign content only its roots leave HTML. -/
theorem Element.spaceWithin_of_not_root {e : Element} {name : String}
    (h : e.keepsForeign name = false) (hname : name ∉ foreignRoots) : e.spaceWithin name = .html := by
  obtain ⟨hsvg, hmath⟩ : name ≠ "svg" ∧ name ≠ "math" := by simpa [foreignRoots] using hname
  unfold spaceWithin
  rw [h, if_neg Bool.false_ne_true, if_neg hsvg, if_neg hmath]

/-- A root of foreign content is foreign. -/
theorem Element.spaceWithin_root {e : Element} {name : String} (hname : name ∈ foreignRoots) :
    e.spaceWithin name ≠ .html := by
  unfold spaceWithin
  split
  · rename_i h
    intro heq
    rw [keepsForeign_of_html heq] at h
    cases h
  · have hroots : ∀ n ∈ foreignRoots,
        (if n = "svg" then Space.svg else if n = "math" then .mathml else .html) ≠ .html := by decide
    exact hroots _ hname

/-- The element of such a root is no HTML. -/
theorem Element.space_elementIn_of_root {e : Element} {tag : Tag} (h : tag.name ∈ foreignRoots) :
    (tag.elementIn e).space ≠ .html := by
  unfold Tag.elementIn
  rw [Tag.space_elementOf]
  exact spaceWithin_root h

/-- A tag that stays in foreign content, and whose element is put under its name. It is the tag of an
empty element if and only if it says so. -/
@[mk_iff]
structure StaysForeign (tag : Tag) : Prop where
  stays : breaksOut tag = false
  notStray : tag.name ∉ ["html", "template"]
  word : IsWord tag.name
  empty : tag.name ∈ voidNames ↔ tag.selfClosing = true

instance (tag : Tag) : Decidable (StaysForeign tag) := decidable_of_iff' _ (staysForeign_iff tag)

/-- What stays foreign breaks nothing off. -/
theorem StaysForeign.not_breaking {tag : Tag} (h : StaysForeign tag) : tag.name ∉ breakingNames := by
  intro hmem
  have hstays := h.stays
  unfold breaksOut at hstays
  rw [List.contains_iff_mem.2 hmem] at hstays
  cases hstays

theorem IsWord.map_toLower {name : String} (h : IsWord name) : name.map Char.toLower = name := by
  rw [← String.toList_inj, String.toList_map]
  exact (List.map_congr_left fun c hc ↦ (h c hc).2).trans (List.map_id _)

/-- A name spelled in its own way is the same in small letters. -/
theorem map_toLower_respelled {name : String} (hname : IsWord name) (names : List String) :
    (respelled names name).map Char.toLower = name := by
  unfold respelled
  cases hfound : names.find? fun n : String ↦ n.map Char.toLower == name with
  | none => exact hname.map_toLower
  | some n => exact eq_of_beq (@List.find?_some _ (fun n : String ↦ n.map Char.toLower == name) _ _ hfound)

/-- Whatever an element is called, its closing tag bears the name of its opening tag. -/
theorem Tag.closedBy_elementOf {tag : Tag} (hname : IsWord tag.name) (space : Space) :
    (tag.elementOf space).closedBy = tag.name := by
  cases space with
  | svg => exact map_toLower_respelled hname svgElementNames
  | html => exact hname.map_toLower
  | mathml => exact hname.map_toLower

namespace Build

section

variable {s : State} {f g : Frame} {outer : List Frame} {tag : Tag} {e : Element}

/-! ### Opening tags -/

/-- An opening tag goes by the foreign rules where the innermost element keeps it. -/
theorem isForeign_opening (h : Fits s (f :: outer)) (tag : Tag) :
    isForeign s (.opening tag) = f.element.keepsForeign tag.name := by
  have hopen : s.opened.isEmpty = false := by
    rw [h.opened]
    rfl
  unfold isForeign Element.keepsForeign
  rw [h.currentElement_eq, hopen]
  dsimp only
  cases f.element.isHtml <;> rfl

/-- What foreign content does with a token. -/
theorem Gives.takes_foreign {t : Token} {frames : List Frame} {mode : Mode}
    (h : Gives (inForeign t) s frames mode) (hforeign : isForeign s t = true) :
    ∃ s₁, Takes 1 t s none s₁ ∧ Fits s₁ frames ∧ s₁.mode = mode := by
  obtain ⟨s₁, heq, hrest⟩ := h
  refine ⟨s₁, fun fuel ↦ ?_, hrest⟩
  rw [process]
  refine bind_eq (t := s) rfl ?_
  rw [if_pos hforeign]
  exact bind_eq heq rfl

/-- A foreign element is put in place, and opened unless it closes itself. -/
theorem putForeign_eq {frames : List Frame} (h : Placed s frames) {space : Space} (hspace : space ≠ .html) :
    putForeign space tag s = ((), if tag.selfClosing = true then
      s.withElement frames (tag.foreignElement space)
      else s.withOpened frames (tag.foreignElement space)) := by
  have htemplate : (tag.foreignElement space).label ≠ "template" :=
    Element.label_ne hspace (by decide)
  unfold putForeign
  refine bind_eq (newElement_eq htemplate s) (bind_eq (put_new h _) ?_)
  cases tag.selfClosing <;> rfl

/-- A foreign element opens, or is finished at once where its tag says so. -/
theorem openForeign_gives (h : Fits s (f :: outer)) {space : Space} (hspace : space ≠ .html) :
    Gives (openForeign space tag) s
      (if tag.selfClosing = true then
        f.withNode (s.arena.nextFrame (tag.foreignElement space)).closed :: outer
      else s.arena.nextFrame (tag.foreignElement space) :: f :: outer) s.mode := by
  have hplain : (tag.foreignElement space).label ∉ "template" :: "form" :: markedElements :=
    Element.label_not_mem hspace (by decide)
  refine .bind (putForeign_eq h.placed hspace) ?_
  cases tag.selfClosing with
  | true => exact ⟨_, rfl, h.put _, rfl⟩
  | false => exact ⟨_, rfl, h.push_plain (fun heq ↦ absurd heq hspace) hplain, rfl⟩

/-- Right in a foreign element. -/
theorem openingInForeign_gives (h : Fits s (f :: outer)) (hspace : f.element.space ≠ .html)
    (htag : breaksOut tag = false) :
    Gives (openingInForeign tag) s
      (if tag.selfClosing = true then
        f.withNode (s.arena.nextFrame (tag.elementOf f.element.space)).closed :: outer
      else s.arena.nextFrame (tag.elementOf f.element.space) :: f :: outer) s.mode := by
  have hgives : Gives (openForeign f.element.space (tag.respelled f.element.space)) s _ s.mode :=
    openForeign_gives h hspace
  have hself : (tag.respelled f.element.space).selfClosing = tag.selfClosing := by
    unfold Tag.respelled
    split <;> rfl
  have helement : tag.elementOf f.element.space =
      (tag.respelled f.element.space).foreignElement f.element.space := if_neg hspace
  rw [hself, ← helement] at hgives
  unfold openingInForeign
  rw [htag, if_neg Bool.false_ne_true]
  refine .bind (t := s) rfl ?_
  rw [h.currentElement_eq]
  exact hgives

/-- At the beginning of foreign content. -/
theorem openingRoot_gives (h : Fits s (f :: outer)) (htag : tag.name ∈ foreignRoots) {e : Element}
    (he : e.keepsForeign tag.name = false) :
    Gives (openingInBody tag) s
      (if tag.selfClosing = true then
        f.withNode (s.arena.nextFrame (tag.elementIn e)).closed :: outer
      else s.arena.nextFrame (tag.elementIn e) :: f :: outer) s.mode := by
  have hspace : e.spaceWithin tag.name =
      if tag.name = "svg" then .svg else if tag.name = "math" then .mathml else .html := by
    unfold Element.spaceWithin
    rw [he]
    rfl
  unfold Tag.elementIn
  rw [hspace]
  obtain ⟨name, attributes, selfClosing⟩ := tag
  obtain rfl | rfl : name = "svg" ∨ name = "math" := by simpa [foreignRoots] using htag
  · have helement : Tag.elementOf ⟨"svg", attributes, selfClosing⟩ .svg =
        Tag.foreignElement ⟨"svg", attributes, selfClosing⟩ .svg := by
      have hname : Build.respelled svgElementNames "svg" = "svg" := by decide +kernel
      change Tag.foreignElement ⟨Build.respelled svgElementNames "svg", attributes, selfClosing⟩ .svg = _
      rw [hname]
    have hgives := @openForeign_gives _ _ _ ⟨"svg", attributes, selfClosing⟩ h .svg (by decide)
    rw [← helement] at hgives
    exact hgives
  · exact @openForeign_gives _ _ _ ⟨"math", attributes, selfClosing⟩ h .mathml (by decide)

/-- An element of another vocabulary may stand where its tag is not taken for a part of a table. -/
theorem OnPage.foreign_of_root {frames : List Frame} (h : OnPage frames)
    (hstand : MayStand (namesOf frames) tag.name) (htag : tag.name ∈ foreignRoots) {f : Frame}
    (hspace : f.element.space ≠ .html) (hclosed : f.element.closedBy = tag.name) :
    OnPage (f :: frames) := by
  have hplain : ∀ n ∈ foreignRoots, n ∉ ["option", "optgroup", "script"] ∧
      n ∉ tablePartNames ++ ["script", "style"] ∧ n ∉ ["p", "html", "head", "body"] ++ voidNames := by
    decide
  obtain ⟨hoption, hpart, hstray⟩ := hplain _ htag
  exact .foreign hspace (hstand.not_select hoption)
    (fun outer houter hholds ↦ hpart (hstand.of_holdsParts houter hholds)) (hclosed ▸ hstray) h

/-- A foreign element that stays is on the page. -/
theorem OnPage.foreign_of_stays (h : OnPage (g :: outer)) (hg : g.element.space ≠ .html)
    (hstays : StaysForeign tag) (hself : tag.selfClosing = false) {f : Frame}
    (hspace : f.element.space ≠ .html) (hclosed : f.element.closedBy = tag.name) :
    OnPage (f :: g :: outer) := by
  have hselect : "select" ∉ namesOf (g :: outer) := by
    cases h with
    | body hname _ => exact absurd (Element.space_of_label (by rw [hname]; decide)) hg
    | html hspace => exact absurd hspace hg
    | foreign _ hselect _ _ _ =>
      exact fun hmem ↦ (List.mem_cons.1 hmem).elim
        (fun heq ↦ Element.label_ne hg (by decide) heq.symm) hselect
  refine .foreign hspace hselect (fun name hname ↦ ?_) ?_ h
  · obtain rfl := Option.some.inj hname
    exact Element.label_not_mem hg (by decide)
  · have hsplit : ∀ n ∈ ["p", "html", "head", "body"], n ∈ breakingNames ∨ n ∈ ["html", "template"] := by
      decide
    rw [hclosed, List.mem_append]
    rintro (hmem | hmem)
    · exact (hsplit _ hmem).elim hstays.not_breaking hstays.notStray
    · rw [hstays.empty.1 hmem] at hself
      cases hself

/-- A root of foreign content opens where it stands. -/
theorem Standing.takes_root (h : Standing s (f :: outer)) (hforeign : f.element.keepsForeign tag.name = false)
    (hstand : MayStand (namesOf (f :: outer)) tag.name) (hroot : tag.name ∈ foreignRoots)
    (hself : tag.selfClosing = false) {e : Element} (he : e.keepsForeign tag.name = false) :
    ∃ s₁, Takes 1 (.opening tag) s none s₁ ∧
      Standing s₁ (s.arena.nextFrame (tag.elementIn e) :: f :: outer) := by
  have hplain : ∀ n ∈ foreignRoots, n ∉ ["option", "optgroup", "script"] ∧
      n ∉ tablePartNames ++ ["script", "style"] := by decide
  obtain ⟨hoption, hpart⟩ := hplain _ hroot
  have hspace : (tag.elementIn e).space ≠ .html := Element.space_elementIn_of_root hroot
  have hholds : ¬HoldsParts f.element.label := fun hholds ↦ hpart (hstand.of_holdsParts rfl hholds)
  have hflow : s.mode ∈ flowModes := by
    rw [h.mode]
    refine modeOf_flow h.onPage (hstand.not_select hoption) fun outer houter ↦ ?_
    obtain rfl := Option.some.inj houter
    exact hholds
  have hgives := openingRoot_gives h.fits hroot he
  rw [if_neg (Bool.eq_false_iff.1 hself), ← inMode_flow_opening hflow (flow_of_mayStand hstand hholds)]
    at hgives
  obtain ⟨s₁, htakes, hfits, hmode⟩ := hgives.takes ((isForeign_opening h.fits tag).trans hforeign)
  refine ⟨s₁, htakes, hfits,
    h.onPage.foreign_of_root hstand hroot hspace (Tag.closedBy_elementOf hstand.word _), ?_⟩
  rw [hmode, h.mode]
  exact (modeOf_cons (Element.label_not_mem hspace (by decide)) _).symm

section

variable (h : Standing s (f :: outer)) (hforeign : f.element.keepsForeign tag.name = true)

include h hforeign

/-- What stays foreign opens in foreign content. -/
theorem takes_foreign (hstays : StaysForeign tag) :
    ∃ s₁, Takes 1 (.opening tag) s none s₁ ∧
      Fits s₁ (if tag.selfClosing = true then
        f.withNode (s.arena.nextFrame (tag.elementIn f.element)).closed :: outer
      else s.arena.nextFrame (tag.elementIn f.element) :: f :: outer) ∧ s₁.mode = s.mode := by
  have hspace : f.element.space ≠ .html := fun heq ↦ by
    rw [Element.keepsForeign_of_html heq] at hforeign
    cases hforeign
  have hgives := openingInForeign_gives h.fits hspace hstays.stays
  have hwithin : f.element.spaceWithin tag.name = f.element.space := if_pos hforeign
  rw [← hwithin] at hgives
  exact Gives.takes_foreign hgives ((isForeign_opening h.fits tag).trans hforeign)

/-- Right in an element of another vocabulary, an element of this vocabulary is opened. -/
theorem Standing.takes_foreign_opening (hstays : StaysForeign tag) (hself : tag.selfClosing = false) :
    ∃ s₁, Takes 1 (.opening tag) s none s₁ ∧
      Standing s₁ (s.arena.nextFrame (tag.elementIn f.element) :: f :: outer) := by
  have hspace : f.element.space ≠ .html := fun heq ↦ by
    rw [Element.keepsForeign_of_html heq] at hforeign
    cases hforeign
  have hwithin : (tag.elementIn f.element).space = f.element.space :=
    (Tag.space_elementOf _ _).trans (if_pos hforeign)
  obtain ⟨s₁, htakes, hfits, hmode⟩ := takes_foreign h hforeign hstays
  rw [if_neg (Bool.eq_false_iff.1 hself)] at hfits
  refine ⟨s₁, htakes, hfits, h.onPage.foreign_of_stays hspace hstays hself (hwithin ▸ hspace)
    (Tag.closedBy_elementOf hstays.word _), ?_⟩
  rw [hmode, h.mode]
  exact (modeOf_cons (Element.label_not_mem (hwithin ▸ hspace) (by decide)) _).symm

/-- It is put in place if its tag says that it is empty. -/
theorem Standing.takes_foreign_empty (hstays : StaysForeign tag) (hself : tag.selfClosing = true) :
    ∃ s₁, Takes 1 (.opening tag) s none s₁ ∧
      Standing s₁ (f.withNode (s.arena.nextFrame (tag.elementIn f.element)).closed :: outer) := by
  obtain ⟨s₁, htakes, hfits, hmode⟩ := takes_foreign h hforeign hstays
  rw [if_pos hself] at hfits
  exact ⟨s₁, htakes, hfits, h.onPage.withNode _, hmode.trans h.mode⟩

end

/-! ### Closing tags -/

/-- One element on the way to the one that a foreign closing tag closes. -/
theorem closeForeign_cons (name : String) (mode : Mode) (isFirst : Bool) (n m : NodeId)
    (outer : List NodeId) (s : State) : closeForeign name mode isFirst (n :: m :: outer) s =
      if !isFirst && (s.arena.element n).isHtml then inMode mode (.closing name) s
      else if (s.arena.element n).closedBy == name then
        (Outcome.done, { s with opened := m :: outer })
      else closeForeign name mode false (m :: outer) s := by
  unfold Element.closedBy
  rw [closeForeign]
  · refine bind_eq (t := s) (a := s.arena.element n) rfl ?_
    split
    · rfl
    · split
      · rfl
      · rfl
  · simp

/-- The closing tag of an element of another vocabulary finishes it. -/
theorem Standing.takes_foreign_closing (h : Standing s (f :: g :: outer))
    (hspace : f.element.space ≠ .html) :
    ∃ s₁, Takes 1 (.closing f.element.closedBy) s none s₁ ∧ Standing s₁ (AfterClosing f g outer) := by
  have hnotHtml := Element.isHtml_eq_false hspace
  have hforeign : isForeign s (.closing f.element.closedBy) = true := by
    unfold isForeign
    rw [h.fits.currentElement_eq, h.fits.opened]
    dsimp only
    rw [hnotHtml]
    rfl
  have hbody : f.element.label ≠ "body" := Element.label_ne hspace (by decide)
  have hname : f.element.closedBy ∉ ["p", "html", "head", "body"] ++ voidNames := by
    cases h.onPage with
    | body heq _ => exact absurd heq hbody
    | html heq => exact absurd heq hspace
    | foreign _ _ _ hname _ => exact hname
  have hne {name : String} (hmem : name ∈ ["p", "html", "head", "body"] ++ voidNames) :
      (f.element.closedBy == name) = false := beq_false_of_ne fun heq ↦ hname (heq.symm ▸ hmem)
  have hcloses : inForeign (.closing f.element.closedBy) s =
      (Outcome.done, { s with opened := s.opened.tail }) := by
    unfold inForeign
    dsimp only
    rw [hne (by decide), hne (by decide), if_neg (by decide)]
    refine bind_eq (t := s) rfl ?_
    rw [h.fits.opened, List.map_cons, List.map_cons, closeForeign_cons,
      h.fits.element_eq List.mem_cons_self, hnotHtml, Bool.and_false, if_neg Bool.false_ne_true,
      if_pos (beq_self_eq_true _)]
    rfl
  have hfits := h.fits.pop_plain (Element.label_not_mem hspace (by decide))
  obtain ⟨s₁, htakes, hfits, hmode⟩ := Gives.takes_foreign ⟨_, hcloses, hfits, rfl⟩ hforeign
  refine ⟨s₁, htakes, hfits, (h.onPage.tail hbody).withNode _, ?_⟩
  rw [hmode]
  exact h.mode.trans (modeOf_cons (Element.label_not_mem hspace (by decide)) _)

/-- The body of a page and its root are HTML elements. -/
theorem space_of_page {b r : Frame} (hb : b.element.label = "body") (hr : r.element.label = "html") :
    ∀ f ∈ [b, r], f.element.space = .html := by
  refine List.forall_mem_cons.2 ⟨Element.space_of_label ?_, List.forall_mem_singleton.2
    (Element.space_of_label ?_)⟩
  · rw [hb]
    decide
  · rw [hr]
    decide

/-- No element of another vocabulary has the name of a void element. -/
theorem OnPage.closedBy_ne {frames : List Frame} (h : OnPage frames) {name : String}
    (hname : name ∈ voidNames) :
    ∀ f ∈ frames, f.element.space ≠ .html → f.element.closedBy ≠ name := by
  induction h with
  | body hb hr => exact fun f hf hne ↦ absurd (space_of_page hb hr f hf) hne
  | html hspace _ _ _ _ ih => exact List.forall_mem_cons.2 ⟨fun hne ↦ absurd hspace hne, ih⟩
  | foreign _ _ _ hclosed _ ih =>
    exact List.forall_mem_cons.2
      ⟨fun _ heq ↦ hclosed (List.mem_append_right _ (heq.symm ▸ hname)), ih⟩

/-- A closing tag that is for none of the elements of other vocabularies goes by the mode. -/
theorem closeForeign_missing {frames : List Frame} {name : String} {mode : Mode}
    (h : OnPage frames) (helement : ∀ f ∈ frames, s.arena.element f.node = f.element)
    (hothers : ∀ f ∈ frames, f.element.space ≠ .html → f.element.closedBy ≠ name) {isFirst : Bool}
    (hfirst : isFirst = true → ∀ f ∈ frames.head?, f.element.space ≠ .html) :
    closeForeign name mode isFirst (frames.map Frame.node) s = inMode mode (.closing name) s := by
  have hhtml {f g : Frame} {outer : List Frame} (hf : s.arena.element f.node = f.element)
      (hspace : f.element.space = .html) {isFirst : Bool} (hfirst : isFirst = false) :
      closeForeign name mode isFirst ((f :: g :: outer).map Frame.node) s =
        inMode mode (.closing name) s := by
    have hisHtml : f.element.isHtml = true := beq_iff_eq.2 hspace
    rw [List.map_cons, List.map_cons, closeForeign_cons, hf, hisHtml, hfirst]
    rfl
  induction h generalizing isFirst with
  | @body b root hb =>
    have hspace : b.element.space = .html := Element.space_of_label (by rw [hb]; decide)
    refine hhtml (helement b List.mem_cons_self) hspace ?_
    exact Bool.eq_false_iff.2 fun heq ↦ hfirst heq b rfl hspace
  | @html f frames hspace _ _ _ honPage _ =>
    obtain ⟨g, outer, rfl⟩ := honPage.ne_nil
    refine hhtml (helement f List.mem_cons_self) hspace ?_
    exact Bool.eq_false_iff.2 fun heq ↦ hfirst heq f rfl hspace
  | @foreign f frames hspace _ _ _ honPage ih =>
    obtain ⟨g, outer, rfl⟩ := honPage.ne_nil
    obtain ⟨hf, helement⟩ := List.forall_mem_cons.1 helement
    obtain ⟨hne, hothers⟩ := List.forall_mem_cons.1 hothers
    have hother : (f.element.closedBy == name) = false := beq_false_of_ne (hne hspace)
    rw [List.map_cons, List.map_cons, closeForeign_cons, hf, Element.isHtml_eq_false hspace,
      Bool.and_false, if_neg Bool.false_ne_true, hother, if_neg Bool.false_ne_true]
    refine ih helement hothers ?_
    exact fun hfirst ↦ absurd hfirst Bool.false_ne_true

/-- The closing tag of an element that holds nothing closes nothing. -/
theorem Standing.takes_stray (h : Standing s (f :: outer)) {name : String} (hname : name ∈ emptyNames)
    (hbr : name ≠ "br") (hgroup : f.element.label = "colgroup" → name = "col")
    (hothers : ∀ e ∈ f :: outer, e.element.space ≠ .html → e.element.closedBy ≠ name) :
    Takes 1 (.closing name) s none s := by
  have hdone := h.stray_eq hname hbr hgroup
  cases hforeign : isForeign s (.closing name) with
  | false => exact fun fuel ↦ process_done hforeign hdone
  | true =>
    have hspace : f.element.space ≠ .html := fun heq ↦ by
      rw [h.fits.isForeign_eq heq] at hforeign
      cases hforeign
    have hp : name ≠ "p" := by
      rintro rfl
      exact absurd hname (by decide)
    have hcloses : inForeign (.closing name) s = (Outcome.done, s) := by
      unfold inForeign
      dsimp only
      rw [beq_false_of_ne hbr, beq_false_of_ne hp, if_neg (by decide)]
      refine bind_eq (t := s) rfl ?_
      rw [h.fits.opened, closeForeign_missing h.onPage (fun f hf ↦ h.fits.element_eq hf) hothers]
      · exact hdone
      · intro _ f' hf
        obtain rfl := Option.some.inj hf
        exact hspace
    intro fuel
    rw [process]
    refine bind_eq (t := s) rfl ?_
    rw [if_pos hforeign]
    exact bind_eq hcloses rfl

/-! ### Characters -/

/-- Text may stand in any element of another vocabulary. -/
theorem Standing.takes_foreign_char (h : Standing s (f :: outer)) {c : Char}
    (hforeign : isForeign s (.char c) = true) :
    ∃ s₁, Takes 1 (.char c) s none s₁ ∧ Standing s₁ (f :: outer) := by
  have hgives : Gives (inForeign (.char c)) s (f :: outer) s.mode := by
    unfold inForeign
    dsimp only
    split
    · exact putChar_gives h.fits _
    · split
      · exact .bind rfl
          (putChar_gives (h.fits.with_flags s.mode s.returnMode false s.skipsLineFeed) c)
      · exact putChar_gives h.fits c
  obtain ⟨s₁, htakes, hfits, hmode⟩ := hgives.takes_foreign hforeign
  exact ⟨s₁, htakes, hfits, h.onPage, hmode.trans h.mode⟩

end

end Build

end Nodecraft.Markup
