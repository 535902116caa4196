import Nodecraft.Proofs.Markup.Standing

/-!
# Closing tags of the innermost element

The closing tag of the innermost element finishes it and no other, if the element may stand where
it was opened (`Build.closes_of_mayStand`); as for opening tags, each kind of element has its lemma.
-/

set_option autoImplicit false

namespace Nodecraft.Markup.Build

/-- The innermost element is finished. -/
abbrev AfterClosing (f g : Frame) (outer : List Frame) : List Frame := g.withNode f.closed :: outer

section

variable {s : State} {f g : Frame} {outer : List Frame}

/-- The innermost element is in every scope. -/
theorem inScope_eq_true (h : Fits s (f :: outer)) (ends : Element → Bool) {wanted : Element → Bool}
    (hf : wanted f.element = true) : inScope ends wanted s = (true, s) := by
  have hcurrent : wanted (s.arena.element f.node) = true := by
    rw [h.element_eq List.mem_cons_self, hf]
  change (inScopeOf s.arena ends (fun n ↦ wanted (s.arena.element n)) s.opened, s) = _
  rw [h.opened, List.map_cons, inScopeOf, hcurrent, Bool.true_or]

/-- Nothing is closed on the way to the innermost element. -/
theorem popTo_eq (h : Fits s (f :: outer)) {p : Element → Bool} (hp : p f.element = true) :
    popTo p s = ((), s) := by
  have hdrop : (s.opened.dropWhile fun n ↦ !p (s.arena.element n)) = s.opened := by
    rw [h.opened, List.map_cons, List.dropWhile_cons_of_neg]
    rw [h.element_eq List.mem_cons_self, hp]
    exact Bool.false_ne_true
  change ((), { s with opened := s.opened.dropWhile fun n ↦ !p (s.arena.element n) }) = _
  rw [hdrop]

/-- Closing through the innermost element closes it and nothing else. -/
theorem popThrough_eq (h : Fits s (f :: outer)) {p : Element → Bool} (hp : p f.element = true) :
    popThrough p s = ((), { s with opened := s.opened.tail }) := by
  unfold popThrough
  exact bind_eq (popTo_eq h hp) rfl

/-- Elements that nothing is noted for. -/
theorem Fits.pop_gives (h : Fits s (f :: g :: outer)) (hname : f.element.label ∉ notedNames)
    {x : Building Unit} (hx : x s = ((), { s with opened := s.opened.tail })) :
    Gives (do x; Build.done) s (AfterClosing f g outer) s.mode :=
  .bind hx ⟨_, rfl, h.pop_plain hname, rfl⟩

theorem endsByItself_eq (e : Element) : e.endsByItself = impliedNames.contains e.label :=
  Element.oneOf_eq (by decide)

/-- An element that does not end by itself is not implied to be closed. -/
theorem popEnding_eq (h : Fits s (f :: outer)) (himplied : f.element.label ∉ impliedNames) :
    popImplied Element.endsByItself s = ((), s) := by
  refine popImplied_eq h ?_
  rw [endsByItself_eq]
  exact Bool.eq_false_iff.2 fun hc ↦ himplied (List.contains_iff_mem.1 hc)

/-- A block closes. -/
theorem closeBlock_gives (h : Fits s (f :: g :: outer)) (hhtml : f.element.space = .html)
    (hname : f.element.label ∉ notedNames) (himplied : f.element.label ∉ impliedNames) :
    Gives (closeBlock f.element.label) s (AfterClosing f g outer) s.mode := by
  unfold closeBlock
  exact .bind (inScope_eq_true h _ (Element.named_label hhtml)) (.bind (popEnding_eq h himplied)
    (h.pop_gives hname (popThrough_eq h (Element.named_label hhtml))))

/-- The element that is to be closed is not implied to be. -/
theorem popImpliedExcept_eq (h : Fits s (f :: outer)) (hhtml : f.element.space = .html) :
    popImpliedExcept f.element.label s = ((), s) := by
  refine popImplied_eq h (p := fun e ↦ e.endsByItself && !e.named f.element.label) ?_
  rw [Element.named_label hhtml]
  exact Bool.and_false _

/-- An item closes. -/
theorem closeItem_gives (h : Fits s (f :: g :: outer)) (hhtml : f.element.space = .html)
    (hname : f.element.label ∉ notedNames) (ends : Element → Bool) :
    Gives (closeItem f.element.label ends) s (AfterClosing f g outer) s.mode := by
  unfold closeItem
  exact .bind (inScope_eq_true h _ (Element.named_label hhtml)) (.bind (popImpliedExcept_eq h hhtml)
    (h.pop_gives hname (popThrough_eq h (Element.named_label hhtml))))

/-- A heading closes. -/
theorem closeHeading_gives (h : Fits s (f :: g :: outer)) (hname : f.element.label ∈ headingNames) :
    Gives closeHeading s (AfterClosing f g outer) s.mode := by
  have hheading : f.element.isHeading = true := by
    unfold Element.isHeading
    rw [Element.oneOf_eq (by decide)]
    exact List.contains_iff_mem.2 hname
  have hplain : ∀ n ∈ headingNames, n ∉ notedNames ∧ n ∉ impliedNames := by decide
  unfold closeHeading
  exact .bind (inScope_eq_true h _ hheading) (.bind (popEnding_eq h (hplain _ hname).2)
    (h.pop_gives (hplain _ hname).1 (popThrough_eq h hheading)))

/-- An element without a rule of its own closes. -/
theorem closeAny_eq (h : Fits s (f :: outer)) (hhtml : f.element.space = .html) :
    closeAny f.element.label s = ((), { s with opened := s.opened.tail }) := by
  have hcurrent : (s.arena.element f.node).named f.element.label = true := by
    rw [h.element_eq List.mem_cons_self, Element.named_label hhtml]
  have hfind : s.opened.find? (fun n ↦ (s.arena.element n).named f.element.label ||
      (s.arena.element n).isSpecial) = some f.node := by
    rw [h.opened, List.map_cons, List.find?_cons_of_pos]
    rw [hcurrent, Bool.true_or]
  have hdrop : s.opened.dropWhile (· != f.node) = s.opened := by
    rw [h.opened, List.map_cons, List.dropWhile_cons_of_neg]
    simp
  unfold closeAny
  refine bind_eq (t := s) rfl ?_
  rw [hfind]
  dsimp only
  rw [if_pos hcurrent]
  change ((), { s with opened := (s.opened.dropWhile (· != f.node)).tail }) = _
  rw [hdrop]

/-- An element in which formatting starts afresh is closed, and formatting goes on as before it. -/
theorem Fits.pop_marked (h : Fits s (f :: g :: outer)) (hname : f.element.label ∈ markedElements) :
    ∃ rest, clearToMarker { s with opened := s.opened.tail } =
        ((), { s with opened := s.opened.tail, formatting := rest }) ∧
      Fits { s with opened := s.opened.tail, formatting := rest } (AfterClosing f g outer) := by
  have hform : f.element.label ≠ "form" := by
    rintro heq
    rw [heq] at hname
    exact absurd hname (by decide)
  obtain ⟨rest, hes, hlisted⟩ := h.listed.of_marked hname
  have hfits := h.pop hlisted
  rw [← formOf_cons_of_ne hform, ← h.form] at hfits
  refine ⟨rest, ?_, hfits⟩
  change ((), { s with
    opened := s.opened.tail
    formatting := (s.formatting.dropWhile fun e : Entry ↦ !e.isMarker).tail }) = _
  rw [hes]
  rfl

/-- A marked element closes, and what was noted since its mark is forgotten. -/
theorem closeObject_gives (h : Fits s (f :: g :: outer)) (hhtml : f.element.space = .html)
    (hname : f.element.label ∈ objectNames) :
    Gives (closeObject f.element.label) s (AfterClosing f g outer) s.mode := by
  have hplain : ∀ n ∈ objectNames, n ∉ impliedNames := by decide
  obtain ⟨rest, hclear, hfits⟩ := h.pop_marked (List.mem_append_left _ hname)
  unfold closeObject
  exact .bind (inScope_eq_true h _ (Element.named_label hhtml)) (.bind (popEnding_eq h (hplain _ hname))
    (.bind (popThrough_eq h (Element.named_label hhtml)) (.bind hclear ⟨_, rfl, hfits, rfl⟩)))

/-- A form closes and is no longer noted. -/
theorem closeForm_gives (h : Fits s (f :: g :: outer)) (hname : f.element.label = "form")
    (hform : "form" ∉ namesOf (g :: outer)) :
    Gives closeForm s (AfterClosing f g outer) s.mode := by
  have hmarked : f.element.label ∉ formattingElements ∧ f.element.label ∉ markedElements := by
    rw [hname]
    decide
  have hfits := h.pop (h.listed.of_plain hmarked.1 hmarked.2)
  rw [formOf_eq_none hform] at hfits
  have hsome : s.form = some f.node := by
    rw [h.form]
    unfold formOf
    rw [List.find?_cons, beq_iff_eq.2 hname]
    rfl
  have hscope : inScopeOf s.arena Element.endsScope (· == f.node) s.opened = true := by
    rw [h.opened, List.map_cons, inScopeOf, beq_self_eq_true, Bool.true_or]
  have herase : s.opened.erase f.node = s.opened.tail := by
    rw [h.opened, List.map_cons, List.erase_cons_head, List.tail_cons]
  have hcleared : popImplied Element.endsByItself { s with form := none } =
      ((), { s with form := none }) := by
    have hsame := congrArg (fun r : Unit × State ↦ r.2.opened)
      (popEnding_eq h (by rw [hname]; decide))
    change ((), { s with
      form := none
      opened := s.opened.dropWhile fun n ↦ (s.arena.element n).endsByItself }) = _
    rw [show (s.opened.dropWhile fun n ↦ (s.arena.element n).endsByItself) = s.opened from hsame]
  unfold closeForm
  refine .bind (isOpen_eq_false h (by decide) h.template_not_mem) (.bind (t := s) rfl
    (.bind (t := { s with form := none }) rfl ?_))
  rw [hsome]
  dsimp only
  rw [if_pos hscope]
  have hclose : close f.node { s with form := none } =
      ((), { s with opened := s.opened.tail, form := none }) := by
    change ((), { s with opened := s.opened.erase f.node, form := none }) = _
    rw [herase]
  exact .bind hcleared (.bind hclose ⟨_, rfl, hfits, rfl⟩)

/-- A formatting element has the latest entry, or none. -/
theorem Listed.of_formatting {frames : List Frame} {es : List Entry} (h : Listed (f :: frames) es)
    (hname : f.element.label ∈ formattingElements) :
    (Listed frames es) ∨ ∃ tag rest, es = .element f.node tag :: rest ∧
      tag.name = f.element.label ∧ Listed frames rest := by
  cases h with
  | plain _ hrest => exact .inl hrest
  | entry htag _ hrest => exact .inr ⟨_, _, rfl, htag, hrest⟩
  | marker hmarked _ => exact absurd hmarked (not_mem_markedElements hname)

/-- A formatting element on top of both lists is closed and no longer noted. -/
theorem closeFormattingOnce_eq (h : Fits s (f :: outer)) {tag : Tag} {rest : List Entry}
    (hes : s.formatting = .element f.node tag :: rest) (htag : tag.name = f.element.label) :
    closeFormattingOnce f.element.label s =
      (false, { s with opened := s.opened.tail, formatting := rest }) := by
  have hfind (p : Entry → Bool) (hp : p (.element f.node tag) = true) :
      (sinceMarker s.formatting).find? p = some (.element f.node tag) := by
    unfold sinceMarker
    rw [hes, List.takeWhile_cons_of_pos rfl, List.find?_cons_of_pos hp]
  have hopened : s.opened = f.node :: outer.map Frame.node := h.opened
  have hcontains : s.opened.contains f.node = true := by simp [hopened]
  have hscope : inScopeOf s.arena Element.endsScope (· == f.node) s.opened = true := by
    rw [hopened, inScopeOf, beq_self_eq_true, Bool.true_or]
  have hinner : s.opened.takeWhile (· != f.node) = [] := by simp [hopened]
  have haround : s.opened.dropWhile (· != f.node) = s.opened := by simp [hopened]
  have hforget : s.formatting.eraseP (Entry.isOf f.node) = rest := by
    rw [hes, List.eraseP_cons_of_pos]
    exact beq_self_eq_true _
  unfold closeFormattingOnce
  refine bind_eq (t := s) rfl ?_
  dsimp only
  rw [hfind]
  · dsimp only
    rw [hcontains, hscope, hinner, haround]
    change (false, { s with
      opened := s.opened.tail
      formatting := s.formatting.eraseP (Entry.isOf f.node) }) = _
    rw [hforget]
  · exact beq_iff_eq.2 htag

/-- A formatting element closes. -/
theorem closeFormatting_gives (h : Fits s (f :: g :: outer)) (hhtml : f.element.space = .html)
    (hname : f.element.label ∈ formattingElements) :
    Gives (do closeFormatting f.element.label; Build.done) s (AfterClosing f g outer) s.mode := by
  have hform : f.element.label ≠ "form" := by
    rintro heq
    rw [heq] at hname
    exact absurd hname (by decide)
  have hnamed : s.currentElement.named f.element.label = true := by
    rw [h.currentElement_eq, Element.named_label hhtml]
  have hcurrent : s.current = f.node := h.current_eq
  rcases h.listed.of_formatting hname with hlisted | ⟨tag, rest, hes, htag, hlisted⟩
  · have hfits := h.pop hlisted
    rw [← formOf_cons_of_ne hform, ← h.form] at hfits
    have hnone : s.formatting.any (Entry.isOf s.current) = false := by
      rw [hcurrent, List.any_eq_false]
      intro e he hof
      cases e with
      | marker => cases hof
      | element n tag =>
        obtain ⟨f', hf', hnode, -⟩ := hlisted.mem_of_element he
        obtain rfl : n = f.node := by simpa [Entry.isOf, Entry.node?] using hof
        exact h.opens.not_mem_outer (List.mem_map.2 ⟨f', hf', hnode⟩)
    refine .bind (t := { s with opened := s.opened.tail }) (a := ()) ?_ ⟨_, rfl, hfits, rfl⟩
    unfold closeFormatting
    refine bind_eq (t := s) rfl ?_
    rw [hnamed, hnone]
    rfl
  · have hfits := h.pop hlisted
    rw [← formOf_cons_of_ne hform, ← h.form] at hfits
    have hany : s.formatting.any (Entry.isOf s.current) = true := by
      rw [hcurrent, hes, List.any_cons]
      exact Bool.or_eq_true_iff.2 (.inl (beq_self_eq_true _))
    refine .bind (t := { s with opened := s.opened.tail, formatting := rest }) (a := ()) ?_
      ⟨_, rfl, hfits, rfl⟩
    unfold closeFormatting
    refine bind_eq (t := s) rfl ?_
    rw [hnamed, hany]
    exact bind_eq (closeFormattingOnce_eq h hes htag) rfl

/-- A paragraph closes. -/
theorem closeParagraph_gives (h : Fits s (f :: g :: outer)) (hname : f.element.label = "p") :
    Gives (closingInBody f.element.label) s (AfterClosing f g outer) s.mode := by
  have hhtml : f.element.space = .html := Element.space_of_label (by rw [hname]; decide)
  have hscope := inScope_eq_true h Element.endsButtonScope (Element.named_label hhtml)
  have hexcept := popImpliedExcept_eq h hhtml
  have hthrough := popThrough_eq h (Element.named_label hhtml)
  have hplain : f.element.label ∉ notedNames := by
    rw [hname]
    decide
  rw [hname] at hscope hexcept hthrough ⊢
  refine .bind hscope (h.pop_gives hplain ?_)
  exact bind_eq hexcept hthrough

/-! ### Closing tags in a body -/

/-- Names that rules are made for. -/
def ruledClosings : List String :=
  closedBlockNames ++ (formattingElements ++ (headingNames ++ (objectNames ++ (["form"] ++
    (["p"] ++ (["li"] ++ (["dd", "dt"] ++ (["template", "body", "html"] ++ ["br"]))))))))

theorem closingInBody_block : ∀ name ∈ closedBlockNames, closingInBody name = closeBlock name := by
  simp only [closedBlockNames, List.forall_mem_cons]
  and_intros
  all_goals first | rfl | exact fun _ h ↦ absurd h List.not_mem_nil

theorem closingInBody_formatting : ∀ name ∈ formattingElements,
    closingInBody name = (do closeFormatting name; Build.done) := by
  simp only [formattingElements, formattingNames, List.cons_append, List.nil_append,
    List.forall_mem_cons]
  and_intros
  all_goals first | rfl | exact fun _ h ↦ absurd h List.not_mem_nil

theorem closingInBody_heading : ∀ name ∈ headingNames, closingInBody name = closeHeading := by
  simp only [headingNames, List.forall_mem_cons]
  and_intros
  all_goals first | rfl | exact fun _ h ↦ absurd h List.not_mem_nil

theorem closingInBody_object : ∀ name ∈ objectNames, closingInBody name = closeObject name := by
  simp only [objectNames, List.forall_mem_cons]
  and_intros
  all_goals first | rfl | exact fun _ h ↦ absurd h List.not_mem_nil

/-- A name without a rule of its own closes as it is. -/
theorem closingInBody_unruled {name : String} (h : name ∉ ruledClosings) :
    closingInBody name = (do closeAny name; Build.done) := by
  have hne {n : String} (hn : n ∈ ruledClosings) : name ≠ n := fun heq ↦ h (heq ▸ hn)
  have hnone {names : List String} (hnames : names ⊆ ruledClosings) :
      names.contains name = false :=
    Bool.eq_false_iff.2 fun hc ↦ h (hnames (List.contains_iff_mem.1 hc))
  unfold closingInBody
  rw [hnone (by decide), if_neg Bool.false_ne_true, hnone (by decide), if_neg Bool.false_ne_true]
  split
  all_goals first
    | rfl
    | exact absurd rfl (hne (by decide))

/-- Nothing is closed by a tag of which no element is open. -/
theorem closeAny_missing {name : String}
    (hname : ∀ n ∈ s.opened, (s.arena.element n).named name = false) :
    closeAny name s = ((), s) := by
  unfold closeAny
  refine bind_eq (t := s) rfl ?_
  cases hfind : s.opened.find? fun n ↦ (s.arena.element n).named name ||
      (s.arena.element n).isSpecial with
  | none => rfl
  | some n =>
    dsimp only
    rw [hname n (List.mem_of_find?_eq_some hfind)]
    rfl

/-- What is not among the open names is not open. -/
theorem Fits.not_named {frames : List Frame} (h : Fits s frames) {name : String} (hword : IsWord name)
    (hname : name ∉ namesOf frames) : ∀ n ∈ s.opened, (s.arena.element n).named name = false := by
  intro n hn
  rw [h.opened] at hn
  obtain ⟨f, hf, rfl⟩ := List.mem_map.1 hn
  rw [h.element_eq hf, Element.named_eq hword]
  exact beq_eq_false_iff_ne.2 fun heq ↦ hname (List.mem_map.2 ⟨f, hf, heq⟩)

/-- The closing tag of the innermost element finishes it, where it may stand. -/
theorem closes_of_mayStand (h : Fits s (f :: g :: outer)) (hhtml : f.element.space = .html)
    (hstand : MayStand (namesOf (g :: outer)) f.element.label) (hvoid : f.element.label ∉ emptyNames)
    (hmoded : f.element.label ∉ modedNames) :
    Gives (closingInBody f.element.label) s (AfterClosing f g outer) s.mode := by
  by_cases hblock : f.element.label ∈ closedBlockNames
  · have hplain : ∀ n ∈ closedBlockNames, n ∉ notedNames ∧ n ∉ impliedNames := by decide
    rw [closingInBody_block _ hblock]
    exact closeBlock_gives h hhtml (hplain _ hblock).1 (hplain _ hblock).2
  by_cases hformatting : f.element.label ∈ formattingElements
  · rw [closingInBody_formatting _ hformatting]
    exact closeFormatting_gives h hhtml hformatting
  by_cases hheading : f.element.label ∈ headingNames
  · rw [closingInBody_heading _ hheading]
    exact closeHeading_gives h hheading
  by_cases hobject : f.element.label ∈ objectNames
  · rw [closingInBody_object _ hobject]
    exact closeObject_gives h hhtml hobject
  by_cases hform : f.element.label = "form"
  · have hgives := closeForm_gives h hform (hstand.form hform)
    rw [hform]
    exact hgives
  by_cases hparagraph : f.element.label = "p"
  · exact closeParagraph_gives h hparagraph
  have hnoted : f.element.label ∉ notedNames := by
    have hcells : ["caption", "td", "th"] ⊆ modedNames := by decide
    rw [notedNames, List.mem_append, not_or, List.mem_cons, not_or, markedElements,
      List.mem_append, not_or]
    exact ⟨⟨hform, hformatting⟩, hobject, fun hmem ↦ hmoded (hcells hmem)⟩
  by_cases hitem : f.element.label = "li"
  · have hgives := closeItem_gives h hhtml hnoted Element.endsListScope
    rw [hitem] at hgives ⊢
    exact hgives
  by_cases hentry : f.element.label ∈ ["dd", "dt"]
  · have hgives := closeItem_gives h hhtml hnoted Element.endsScope
    obtain heq | heq : f.element.label = "dd" ∨ f.element.label = "dt" := by simpa using hentry
    · rw [heq] at hgives ⊢
      exact hgives
    · rw [heq] at hgives ⊢
      exact hgives
  have hunruled : f.element.label ∉ ruledClosings := by
    have hstray : ["template", "body", "html"] ⊆ strayNames := by decide
    have hbr : ["br"] ⊆ emptyNames := by decide
    simp only [ruledClosings, List.mem_append, not_or]
    exact ⟨hblock, hformatting, hheading, hobject, fun hmem ↦ hform (List.mem_singleton.1 hmem),
      fun hmem ↦ hparagraph (List.mem_singleton.1 hmem),
      fun hmem ↦ hitem (List.mem_singleton.1 hmem), hentry, fun hmem ↦ hstand.notStray (hstray hmem),
      fun hmem ↦ hvoid (hbr hmem)⟩
  rw [closingInBody_unruled hunruled]
  exact h.pop_gives hnoted (closeAny_eq h hhtml)

end

end Nodecraft.Markup.Build
