import Nodecraft.Proofs.Markup.Beginnings
import Nodecraft.Proofs.Markup.Foreign

/-!
# Reading what is written

The elements that tags write are nested the way the tags are (`Nest`): an opening tag begins an element
within the one that is open, unless it is void, and the next closing tag ends it. A document that is
being built follows what is written (`Follows`) as long as each element stands where it may
(`Tag.StandsIn`): each tag does in the document what it does in the nest (`Follows.opening`,
`Follows.closing`), and text does nothing (`Follows.char`).
-/

set_option autoImplicit false

namespace Nodecraft.Markup

/-! ### Where tags may stand -/

/-- What names the elements in the body of a page, and those of the page around them. -/
def labelsOf (around : List Element) : List String := around.map Element.label ++ ["body", "html"]

/-- The innermost one of some elements in the body of a page. -/
def innermostOf (around : List Element) : Element := around.headD default

/-- No image of SVG is open that the closing tag of one in HTML would close. -/
def ClosesNoImage (around : List Element) (name : String) : Prop :=
  name = "image" → ∀ e ∈ around, e.space ≠ .html → e.closedBy ≠ "image"

instance (around : List Element) (name : String) : Decidable (ClosesNoImage around name) :=
  inferInstanceAs (Decidable (_ → _))

/-- Whether the element of a tag may be written right in the innermost one of some elements in the body of
a page: in another vocabulary unless it breaks out of it, and in HTML where no rule is against it. -/
@[mk_iff]
inductive Tag.StandsIn (around : List Element) (tag : Tag) : Prop
  | foreign : (innermostOf around).keepsForeign tag.name = true → StaysForeign tag →
    Tag.StandsIn around tag
  | root : (innermostOf around).keepsForeign tag.name = false → tag.name ∈ foreignRoots →
    tag.selfClosing = false → MayStand (labelsOf around) tag.name → Tag.StandsIn around tag
  | html : (innermostOf around).keepsForeign tag.name = false → tag.name ∉ foreignRoots →
    MayStand (labelsOf around) tag.name → ClosesNoImage around tag.name → Tag.StandsIn around tag
  /-- Inputs that are not shown may stand between the parts of tables. -/
  | hidden : (innermostOf around).label ∈ partHolders → tag.name = "input" →
    Build.isHiddenInput tag = true → Tag.StandsIn around tag

instance (around : List Element) (tag : Tag) : Decidable (tag.StandsIn around) :=
  decidable_of_iff' _ (Tag.standsIn_iff around tag)

/-- The innermost name is the body's or that of the innermost element. -/
theorem head?_labelsOf {around : List Element} {name : String} (h : name ∈ (labelsOf around).head?) :
    name = "body" ∨ name = (innermostOf around).label := by
  cases around with
  | nil => exact .inl (Option.some.inj h).symm
  | cons e rest => exact .inr (Option.some.inj h).symm

namespace Tag.StandsIn

variable {around : List Element} {tag : Tag}

/-- Every tag that stands somewhere has a word for its name. -/
theorem word (h : tag.StandsIn around) : IsWord tag.name := by
  cases h with
  | foreign _ hstays => exact hstays.word
  | root _ _ _ hstand => exact hstand.word
  | html _ _ hstand _ => exact hstand.word
  | hidden _ htag _ =>
    rw [htag]
    decide

/-- No element goes by the name of a part of a page, or of a template. -/
theorem notPage (h : tag.StandsIn around) : tag.name ∉ ["html", "head", "body", "template"] := by
  have hstray : ["html", "head", "body", "template"] ⊆ strayNames := by decide
  cases h with
  | foreign _ hstays =>
    intro hmem
    have hsplit : ∀ n ∈ ["html", "head", "body", "template"],
        n ∈ Build.breakingNames ∨ n ∈ ["html", "template"] := by decide
    rcases hsplit _ hmem with hbreaks | hname
    · exact hstays.not_breaking hbreaks
    · exact hstays.notStray hname
  | root _ _ _ hstand => exact fun hmem ↦ hstand.notStray (hstray hmem)
  | html _ _ hstand _ => exact fun hmem ↦ hstand.notStray (hstray hmem)
  | hidden _ htag _ =>
    rw [htag]
    decide

/-- No element is in one that holds nothing but text, or nothing at all. -/
theorem notInText (h : tag.StandsIn around) :
    ∀ outer ∈ (labelsOf around).head?, outer ∉ textNames ∧ outer ∉ emptyNames := by
  intro outer houter
  cases h with
  | foreign hforeign _ =>
    rcases head?_labelsOf houter with rfl | rfl
    · decide
    · have hspace : (innermostOf around).space ≠ .html := fun heq ↦ by
        rw [Element.keepsForeign_of_html heq] at hforeign
        cases hforeign
      exact ⟨Element.label_not_mem hspace (by decide), Element.label_not_mem hspace (by decide)⟩
  | root _ _ _ hstand => exact ⟨hstand.notInText outer houter, hstand.notInEmpty outer houter⟩
  | html _ _ hstand _ => exact ⟨hstand.notInText outer houter, hstand.notInEmpty outer houter⟩
  | hidden hholds _ _ =>
    rcases head?_labelsOf houter with rfl | rfl
    · decide
    · have hplain : ∀ n ∈ partHolders, n ∉ textNames ∧ n ∉ emptyNames := by decide
      exact hplain _ hholds

/-- Its element is closed by the same word. -/
theorem closedBy_elementIn (h : tag.StandsIn around) (outer : Element) :
    (tag.elementIn outer).closedBy = tag.name :=
  Tag.closedBy_elementOf h.word _

/-- A tag that may stand does not spell an element of the page around. -/
theorem name_elementIn (h : tag.StandsIn around) (outer : Element) :
    (tag.elementIn outer).name ∉ ["html", "head", "body"] := by
  have hlower : ∀ n ∈ ["html", "head", "body"], n.map Char.toLower = n ∧
      n ∈ ["html", "head", "body", "template"] := by decide +kernel
  intro hmem
  obtain ⟨hsame, hname⟩ := hlower _ hmem
  rw [← hsame] at hname
  exact h.notPage (h.closedBy_elementIn outer ▸ hname)

/-- Nor does the element that is put in its place. -/
theorem name_inPlace (h : tag.StandsIn around) (outer : Element) :
    (tag.elementIn outer).inPlace.name ∉ ["html", "head", "body"] := by
  unfold Element.inPlace
  split
  · exact (by decide : "img" ∉ ["html", "head", "body"])
  · exact h.name_elementIn outer

/-- Nothing but HTML and the roots of other vocabularies stands right in a page. -/
theorem mayStand (h : tag.StandsIn []) : MayStand ["body", "html"] tag.name := by
  cases h with
  | foreign hkeeps _ => cases (Element.keepsForeign_of_html rfl _).symm.trans hkeeps
  | root _ _ _ hmay => exact hmay
  | html _ _ hmay _ => exact hmay
  | hidden hholds _ _ => exact absurd hholds (by decide)

end Tag.StandsIn

/-! ### Nests -/

/-- What has been written: the nodes in the innermost open element, and the open elements, the
innermost first, each with the nodes before it. -/
structure Nest where
  inner : List Node
  around : List (Element × List Node)

namespace Nest

def empty : Nest := ⟨[], []⟩

/-- The open elements. -/
def elements (n : Nest) : List Element := n.around.map Prod.fst

/-- The names of the open elements, within those of a page. -/
def names (n : Nest) : List String := labelsOf n.elements

def withNode (n : Nest) (node : Node) : Nest := { n with inner := n.inner ++ [node] }

/-- The element that a tag writes. -/
def written (n : Nest) (tag : Tag) : Element := tag.elementIn (innermostOf n.elements)

/-- Whether the element of a tag is put in place and not opened. -/
def Puts (n : Nest) (tag : Tag) : Prop := tag.name ∈ voidNames ∨ (n.written tag).label = "image"

instance (n : Nest) (tag : Tag) : Decidable (n.Puts tag) := inferInstanceAs (Decidable (_ ∨ _))

/-- What a tag makes of a nest: an element that holds nothing is put in place, and any other opened. -/
def opening (n : Nest) (tag : Tag) : Nest :=
  if n.Puts tag then n.withNode
    (.element (n.written tag).inPlace.name (n.written tag).inPlace.attributes [])
  else ⟨[], (n.written tag, n.inner) :: n.around⟩

/-- Whether a character may stand in the innermost element: between the parts of a table there is only
white space. -/
def Allows (n : Nest) (c : Char) : Prop :=
  ∀ outer ∈ n.names.head?, HoldsParts outer → Build.isSpace c = true

end Nest

namespace Build

/-- The open elements are those of a nest. In a page its head and its body count as one. -/
inductive Drawn : List Frame → Nest → Prop
  | unopened : Drawn [] .empty
  | page (b r : Frame) : Drawn [b, r] ⟨bodyContents r.nodes ++ bodyContents b.nodes, []⟩
  | within (f : Frame) {g : Frame} {outer : List Frame} {before : List Node}
      {around : List (Element × List Node)} : Drawn (g :: outer) ⟨before, around⟩ →
    Drawn (f :: g :: outer) ⟨f.nodes, (f.element, before) :: around⟩

section

variable {s : State} {f g : Frame} {frames outer : List Frame} {n : Nest} {tag : Tag} {e : Element}

/-- Nodes side by side are in the body one by one. -/
theorem bodyContents_append (nodes more : List Node) :
    bodyContents (nodes ++ more) = bodyContents nodes ++ bodyContents more := by
  induction nodes with
  | nil => rfl
  | cons node rest ih => simp only [List.cons_append, bodyContents, ih, List.append_assoc]

/-- An element of the content is in the body as it is. -/
theorem bodyContents_element {name : String} (hname : name ∉ ["html", "head", "body"])
    (attributes : List (String × String)) (children : List Node) :
    bodyContents [.element name attributes children] = [.element name attributes children] := by
  have hnone : ["html", "head", "body"].contains name = false :=
    Bool.eq_false_iff.2 fun hc ↦ hname (List.contains_iff_mem.1 hc)
  simp only [bodyContents, Node.bodyContent, List.append_nil]
  rw [if_neg (Bool.eq_false_iff.1 hnone)]

/-- A finished element is drawn behind the others. -/
theorem Drawn.withNode (h : Drawn (f :: outer) n) {name : String}
    (hname : name ∉ ["html", "head", "body"]) (attributes : List (String × String))
    (children : List Node) :
    Drawn (f.withNode (.element name attributes children) :: outer)
      (n.withNode (.element name attributes children)) := by
  cases h with
  | page b r =>
    have hadd : bodyContents (f.withNode (.element name attributes children)).nodes =
        bodyContents f.nodes ++ [.element name attributes children] := by
      change bodyContents (f.nodes ++ [_]) = _
      rw [bodyContents_append, bodyContents_element hname]
    have hpage := Drawn.page (f.withNode (.element name attributes children)) r
    rw [hadd, ← List.append_assoc] at hpage
    exact hpage
  | within _ hrest => exact .within (f.withNode _) hrest

/-- The innermost element of a nest is closed. -/
theorem Drawn.closing {inner before : List Node} {around : List (Element × List Node)}
    (h : Drawn (f :: g :: outer) ⟨inner, (e, before) :: around⟩)
    (hname : e.name ∉ ["html", "head", "body"]) :
    Drawn (AfterClosing f g outer) ⟨before ++ [.element e.name e.attributes inner], around⟩ := by
  cases h with
  | within _ hrest => exact hrest.withNode hname f.element.attributes f.nodes

/-- An element that is written in others is not the body of a page. -/
theorem Drawn.not_body (h : Drawn (g :: outer) n) (honPage : OnPage (f :: g :: outer)) :
    f.element.label ≠ "body" := by
  intro hbody
  cases honPage with
  | body => cases h
  | html _ hstand => exact absurd (hbody ▸ hstand.notStray) (by decide)
  | foreign hspace => exact Element.label_ne hspace (by decide) hbody

/-- The drawn elements are the open ones. -/
theorem Drawn.names_eq (h : Drawn frames n) (honPage : OnPage frames) :
    n.names = namesOf frames := by
  induction h with
  | unopened => cases honPage
  | page b r =>
    obtain ⟨hb, hr⟩ := honPage.page
    unfold namesOf Nest.names
    rw [List.map_cons, List.map_cons, hb, hr]
    rfl
  | @within f g outer before around hrest ih =>
    exact congrArg (f.element.label :: ·) (ih (honPage.tail (hrest.not_body honPage)))

/-- An element is written in the innermost open one. -/
theorem Drawn.innermost (h : Drawn (f :: outer) n) (honPage : OnPage (f :: outer)) (tag : Tag) :
    f.element.keepsForeign tag.name = (innermostOf n.elements).keepsForeign tag.name ∧
      tag.elementIn f.element = n.written tag := by
  cases h with
  | within _ hrest => exact ⟨rfl, rfl⟩
  | page _ r =>
    have hspace : f.element.space = .html := Element.space_of_label (by rw [honPage.page.1]; decide)
    have hkeeps := Element.keepsForeign_of_html hspace tag.name
    have hpage : (default : Element).keepsForeign tag.name = false := Element.keepsForeign_of_html rfl _
    exact ⟨hkeeps.trans hpage.symm, congrArg tag.elementOf (Element.spaceWithin_congr hkeeps hpage)⟩

/-- The open elements of other vocabularies are drawn. -/
theorem Drawn.mem_elements (h : Drawn frames n) (honPage : OnPage frames) :
    ∀ f ∈ frames, f.element.space ≠ .html → f.element ∈ n.elements := by
  induction h with
  | unopened => cases honPage
  | page b r =>
    obtain ⟨hb, hr⟩ := honPage.page
    exact fun f hf hne ↦ absurd (space_of_page hb hr f hf) hne
  | within f hrest ih =>
    exact List.forall_mem_cons.2 ⟨fun _ ↦ List.mem_cons_self,
      fun g hg hspace ↦ List.mem_cons_of_mem _ (ih (honPage.tail (hrest.not_body honPage)) g hg hspace)⟩

/-- Closing the head and opening the body changes nothing about what is written. -/
theorem Drawn.leave_head {b h r : Frame} (hd : Drawn [h, r] n) (hh : h.element.label = "head")
    (hb : b.nodes = []) : Drawn [b, r.withNode h.closed] n := by
  cases hd with
  | within _ hrest => cases hrest
  | page =>
    have hname : h.element.name = "head" := by
      rw [← hh, Element.label_of_html (Element.space_of_label (by rw [hh]; decide))]
    have hclosed : bodyContents [h.closed] = bodyContents h.nodes := by
      unfold Frame.closed
      rw [hname]
      simp only [bodyContents, Node.bodyContent, List.append_nil]
      rfl
    have hpage := Drawn.page b (r.withNode h.closed)
    have hnodes : (r.withNode h.closed).nodes = r.nodes ++ [h.closed] := rfl
    rw [hnodes, bodyContents_append, hclosed, hb] at hpage
    simpa only [bodyContents, List.append_nil] using hpage

/-! ### Following what is written -/

/-- A state between tokens, with the kind of the text that comes next and the open elements. -/
inductive Within : State → TextMode → List Frame → Prop
  | unopened {s : State} : Unopened s → Within s .markup []
  | head {s : State} {h r : Frame} : InHead s h r → Within s .markup [h, r]
  | content {s : State} {f : Frame} {outer : List Frame} : Standing s (f :: outer) →
    Within s .markup (f :: outer)
  | spacing {s : State} {f : Frame} {outer : List Frame} : Spacing s f outer →
    Within s .markup (f :: outer)
  | headText {s : State} {f h r : Frame} {kind : TextMode} : Texting s [f, h, r] .inHead →
    h.element.label = "head" → r.element.label = "html" → f.element.label ∈ textNames →
    Lexer.EndsWith f.element.label kind → Within s kind [f, h, r]
  | text {s : State} {f g : Frame} {outer : List Frame} {kind : TextMode} :
    Texting s (f :: g :: outer) (modeOf (namesOf (g :: outer))) → OnPage (g :: outer) →
    f.element.label ∈ textNames → Lexer.EndsWith f.element.label kind →
    Within s kind (f :: g :: outer)

theorem Within.awake {kind : TextMode} (h : Within s kind frames) : Within s.awake kind frames := by
  cases h with
  | unopened hs => exact .unopened hs.awake
  | head hs => exact .head hs.awake
  | content hs => exact .content hs.awake
  | spacing hs => exact .spacing hs.awake
  | headText hs hh hr hf hkind => exact .headText hs.awake hh hr hf hkind
  | text hs honPage hf hkind => exact .text hs.awake honPage hf hkind

/-- What has been built is what has been written. -/
def Follows (s : State) (kind : TextMode) (n : Nest) : Prop :=
  ∃ frames, Within s kind frames ∧ Drawn frames n

theorem Follows.awake {kind : TextMode} (h : Follows s kind n) : Follows s.awake kind n := by
  obtain ⟨frames, hwithin, hdrawn⟩ := h
  exact ⟨frames, hwithin.awake, hdrawn⟩

/-- Nothing has been written and nothing is drawn. -/
theorem follows_start : Follows .start .markup .empty := ⟨[], .unopened unopened_start, .unopened⟩

/-- An element that holds nothing is finished at once. -/
theorem Nest.opening_of_puts (hputs : n.Puts tag) : n.opening tag = n.withNode
    (.element (n.written tag).inPlace.name (n.written tag).inPlace.attributes []) := if_pos hputs

/-- Any other element is open and empty. -/
theorem Nest.opening_of_not_puts (hputs : ¬n.Puts tag) :
    n.opening tag = ⟨[], (n.written tag, n.inner) :: n.around⟩ := if_neg hputs

/-- In another vocabulary only void elements are put in place. -/
theorem Nest.puts_iff_of_foreign (hspace : (n.written tag).space ≠ .html) :
    n.Puts tag ↔ tag.name ∈ voidNames :=
  or_iff_left (Element.label_ne hspace (by decide))

/-- In HTML these are all that hold nothing. -/
theorem Nest.puts_iff_of_html (hwritten : n.written tag = tag.element) :
    n.Puts tag ↔ tag.name ∈ emptyNames := by
  unfold Nest.Puts
  rw [hwritten]
  exact or_comm.trans List.mem_cons.symm

/-- An element is begun in a nest. -/
theorem Drawn.opening (h : Drawn (f :: outer) n) (a : Arena) (hputs : ¬n.Puts tag) :
    Drawn (a.nextFrame (n.written tag) :: f :: outer) (n.opening tag) := by
  rw [Nest.opening_of_not_puts hputs]
  exact .within (a.nextFrame (n.written tag)) h

/-- An element that holds nothing is written in a nest. -/
theorem Drawn.put (h : Drawn (f :: outer) n) (hstand : tag.StandsIn n.elements) (a : Arena)
    (hputs : n.Puts tag) :
    Drawn (f.withNode (a.nextFrame (n.written tag).inPlace).closed :: outer) (n.opening tag) := by
  rw [Nest.opening_of_puts hputs]
  exact h.withNode (hstand.name_inPlace _) _ _

/-! ### Opening tags -/

/-- Where HTML is read, elements that begin no other vocabulary are HTML elements. -/
theorem Nest.written_of_html
    (hkeeps : (innermostOf n.elements).keepsForeign tag.name = false)
    (hroot : tag.name ∉ foreignRoots) : n.written tag = tag.element := by
  unfold Nest.written Tag.elementIn
  rw [Element.spaceWithin_of_not_root hkeeps hroot]
  rfl

/-- Where another vocabulary goes on, an opening tag draws its element of that vocabulary. -/
theorem Standing.follows_foreign (h : Standing s (f :: outer)) (hdrawn : Drawn (f :: outer) n)
    (hkeeps : (innermostOf n.elements).keepsForeign tag.name = true) (hstays : StaysForeign tag) :
    ∃ s₁, Takes 1 (.opening tag) s none s₁ ∧ Follows s₁ .markup (n.opening tag) := by
  obtain ⟨hsame, hwritten⟩ := hdrawn.innermost h.onPage tag
  have hstand := Tag.StandsIn.foreign hkeeps hstays
  rw [← hsame] at hkeeps
  have hspace : (n.written tag).space ≠ .html := by
    rw [← hwritten]
    exact Element.space_elementIn_of_keeps hkeeps
  have hputs := Nest.puts_iff_of_foreign hspace
  cases hself : tag.selfClosing with
  | true =>
    have hput := hdrawn.put hstand s.arena (hputs.2 (hstays.empty.2 hself))
    rw [Element.inPlace_of_foreign hspace, ← hwritten] at hput
    obtain ⟨s₁, htakes, hstanding⟩ := h.takes_foreign_empty hkeeps hstays hself
    exact ⟨s₁, htakes, _, .content hstanding, hput⟩
  | false =>
    have hopened := hdrawn.opening s.arena fun hvoid ↦ by
      rw [hstays.empty.1 (hputs.1 hvoid)] at hself
      cases hself
    rw [← hwritten] at hopened
    obtain ⟨s₁, htakes, hstanding⟩ := h.takes_foreign_opening hkeeps hstays hself
    exact ⟨s₁, htakes, _, .content hstanding, hopened⟩

/-- Where HTML is read, an opening tag that is not stray draws its HTML element. -/
theorem Standing.follows_html (h : Standing s (f :: outer)) (hdrawn : Drawn (f :: outer) n)
    (hkeeps : (innermostOf n.elements).keepsForeign tag.name = false)
    (hroot : tag.name ∉ foreignRoots) (hmay : MayStand (labelsOf n.elements) tag.name)
    (hcloses : ClosesNoImage n.elements tag.name) :
    ∃ s₁ kind, Takes 1 (.opening tag) s kind s₁ ∧
      Follows s₁ (kind.getD .markup) (n.opening tag) := by
  have hstand := Tag.StandsIn.html hkeeps hroot hmay hcloses
  rw [show labelsOf n.elements = namesOf (f :: outer) from hdrawn.names_eq h.onPage] at hmay
  have hforeign : isForeign s (.opening tag) = false := by
    rw [isForeign_opening h.fits, (hdrawn.innermost h.onPage tag).1, hkeeps]
  have hwritten := Nest.written_of_html hkeeps hroot
  have hputs := Nest.puts_iff_of_html hwritten
  by_cases hempty : tag.name ∈ emptyNames
  · have hput := hdrawn.put hstand s.arena (hputs.2 hempty)
    rw [hwritten] at hput
    obtain ⟨s₁, htakes, hstanding⟩ := h.takes_empty hforeign hmay hempty
    exact ⟨s₁, none, htakes, _, .content hstanding, hput⟩
  have hopened := hdrawn.opening s.arena (mt hputs.1 hempty)
  rw [hwritten] at hopened
  by_cases htext : tag.name ∈ textNames
  · obtain ⟨s₁, htakes, htexting⟩ := h.takes_text hforeign hmay htext
    exact ⟨s₁, _, htakes, _, .text htexting h.onPage htext (endsWith_textKind _), hopened⟩
  · obtain ⟨s₁, htakes, hstanding⟩ := h.takes_opening hforeign hmay hroot htext hempty
    exact ⟨s₁, none, htakes, _, .content hstanding, hopened⟩

/-- Between the parts of a table, an input that is not shown draws its element. -/
theorem Standing.follows_hidden (h : Standing s (f :: outer)) (hdrawn : Drawn (f :: outer) n)
    (hholds : (innermostOf n.elements).label ∈ partHolders) (htag : tag.name = "input")
    (hhidden : Build.isHiddenInput tag = true) :
    ∃ s₁, Takes 1 (.opening tag) s none s₁ ∧ Follows s₁ .markup (n.opening tag) := by
  have hwords : ∀ name ∈ partHolders, IsWord name := by decide
  have hkeeps := Element.keepsForeign_of_html (Element.space_of_label (hwords _ hholds)) tag.name
  have hinput : "input" ∈ voidNames ∧ "input" ∉ foreignRoots ∧ "input" ≠ "image" := by decide
  rw [← htag] at hinput
  obtain ⟨hvoid, hroot, hnotImage⟩ := hinput
  have hput := hdrawn.put (.hidden hholds htag hhidden) s.arena (.inl hvoid)
  rw [Nest.written_of_html hkeeps hroot, Element.inPlace,
    if_neg (show tag.element.label ≠ "image" from hnotImage)] at hput
  have hf : f.element.label ∈ partHolders := by
    cases hdrawn with
    | page =>
      have hnone : (default : Element).label ∉ partHolders := by decide
      exact absurd hholds hnone
    | within => exact hholds
  obtain ⟨s₁, htakes, hstanding⟩ := h.takes_hidden hf htag hhidden
  exact ⟨s₁, htakes, _, .content hstanding, hput⟩

/-- On a page, an opening tag that may stand there draws its element. -/
theorem Standing.follows_opening (h : Standing s (f :: outer)) (hdrawn : Drawn (f :: outer) n)
    (hstand : tag.StandsIn n.elements) : ∃ s₁ kind, Takes 1 (.opening tag) s kind s₁ ∧
      Follows s₁ (kind.getD .markup) (n.opening tag) := by
  cases hstand with
  | foreign hkeeps hstays =>
    obtain ⟨s₁, htakes, hfollows⟩ := h.follows_foreign hdrawn hkeeps hstays
    exact ⟨s₁, none, htakes, hfollows⟩
  | root hkeeps hroot hself hmay =>
    have hnotVoid : ∀ name ∈ foreignRoots, name ∉ voidNames := by decide
    have hsame := (hdrawn.innermost h.onPage tag).1.trans hkeeps
    rw [show labelsOf n.elements = namesOf (f :: outer) from hdrawn.names_eq h.onPage] at hmay
    obtain ⟨s₁, htakes, hstanding⟩ := h.takes_root hsame hmay hroot hself hkeeps
    exact ⟨s₁, none, htakes, _, .content hstanding, hdrawn.opening s.arena
      (mt (Nest.puts_iff_of_foreign (Element.space_elementIn_of_root hroot)).1 (hnotVoid _ hroot))⟩
  | html hkeeps hroot hmay hcloses => exact h.follows_html hdrawn hkeeps hroot hmay hcloses
  | hidden hholds htag hhidden =>
    obtain ⟨s₁, htakes, hfollows⟩ := h.follows_hidden hdrawn hholds htag hhidden
    exact ⟨s₁, none, htakes, hfollows⟩

/-- In the head, an opening tag goes on to the body or stays. -/
theorem InHead.follows_opening {h r : Frame} (hs : InHead s h r) (hdrawn : Drawn [h, r] n)
    (hstand : tag.StandsIn n.elements) : ∃ s₁ kind m, m ≤ 3 ∧ Takes m (.opening tag) s kind s₁ ∧
      Follows s₁ (kind.getD .markup) (n.opening tag) := by
  have hnone : n.elements = [] := by
    cases hdrawn with
    | page => rfl
    | within _ hrest => cases hrest
  have hstray := (hnone ▸ hstand).mayStand.notStray
  have hwritten (hroot : tag.name ∉ foreignRoots) : n.written tag = tag.element :=
    Nest.written_of_html (by rw [hnone]; exact Element.keepsForeign_of_html rfl _) hroot
  by_cases hvoid : tag.name ∈ headVoids
  · have hplain : ∀ name ∈ headVoids, name ∈ voidNames ∧ name ∉ foreignRoots ∧ name ≠ "image" := by
      decide
    obtain ⟨hvoidName, hroot, hnotImage⟩ := hplain _ hvoid
    have hput := hdrawn.put hstand s.arena (.inl hvoidName)
    rw [hwritten hroot, Element.inPlace, if_neg (show tag.element.label ≠ "image" from hnotImage)] at hput
    obtain ⟨s₁, htakes, hinHead⟩ := hs.takes_void hvoid
    exact ⟨s₁, none, 1, by decide, htakes, _, .head hinHead, hput⟩
  by_cases htext : tag.name ∈ headTexts
  · have hplain : ∀ name ∈ headTexts, name ∈ textNames ∧ name ∉ emptyNames ∧ name ∉ foreignRoots := by
      decide
    obtain ⟨htextName, hnotEmpty, hroot⟩ := hplain _ htext
    have hopening := hdrawn.opening s.arena (mt (Nest.puts_iff_of_html (hwritten hroot)).1 hnotEmpty)
    rw [hwritten hroot] at hopening
    obtain ⟨s₁, htakes, htexting⟩ := hs.takes_text htext
    exact ⟨s₁, _, 1, by decide, htakes, _,
      .headText htexting hs.head hs.root htextName (endsWith_textKind _), hopening⟩
  · obtain ⟨s₁, b, hleads, hstanding, -, hnone⟩ := hs.leads (.opening hstray hvoid htext)
    obtain ⟨s₂, kind, htakes, hfollows⟩ :=
      hstanding.follows_opening (hdrawn.leave_head hs.head hnone) hstand
    exact ⟨s₂, kind, 3, by decide, hleads.takes htakes, hfollows⟩

/-- An opening tag opens its element in the document as it is written. -/
theorem Follows.opening (h : Follows s .markup n) (hstand : tag.StandsIn n.elements) :
    ∃ s₁ kind, receive (.opening tag) s = (kind, s₁) ∧
      Follows s₁ (kind.getD .markup) (n.opening tag) := by
  suffices htakes : ∃ s₁ kind m, m ≤ 32 ∧ Takes m (.opening tag) s.awake kind s₁ ∧
      Follows s₁ (kind.getD .markup) (n.opening tag) by
    obtain ⟨s₁, kind, m, hm, htakes, hfollows⟩ := htakes
    exact ⟨s₁, kind, htakes.receive hm (.inr (.inl ⟨tag, rfl⟩)), hfollows⟩
  obtain ⟨frames, hwithin, hdrawn⟩ := h.awake
  cases hwithin with
  | unopened hs =>
    cases hdrawn
    obtain ⟨s₁, h, r, m, hm, hleads, hinHead, hnone, hnodes⟩ :=
      hs.leads (.opening hstand.mayStand.notStray)
    have hpage := Drawn.page h r
    rw [hnone, hnodes] at hpage
    obtain ⟨s₂, kind, k, hk, htakes, hfollows⟩ := hinHead.follows_opening hpage hstand
    exact ⟨s₂, kind, k + m, by omega, hleads.takes htakes, hfollows⟩
  | head hs =>
    obtain ⟨s₁, kind, k, hk, htakes, hfollows⟩ := hs.follows_opening hdrawn hstand
    exact ⟨s₁, kind, k, by omega, htakes, hfollows⟩
  | content hs =>
    obtain ⟨s₁, kind, htakes, hfollows⟩ := hs.follows_opening hdrawn hstand
    exact ⟨s₁, kind, 1, by decide, htakes, hfollows⟩
  | spacing hs =>
    obtain ⟨s₁, hleads, hstanding⟩ := hs.leads (t := .opening tag) (by rintro _ ⟨⟩)
    obtain ⟨s₂, kind, htakes, hfollows⟩ := hstanding.follows_opening hdrawn hstand
    exact ⟨s₂, kind, 2, by decide, hleads.takes htakes, hfollows⟩
  | headText _ _ _ _ hkind => cases hkind
  | text _ _ _ hkind => cases hkind

/-! ### Closing tags -/

/-- The closing tag of the innermost element finishes it, whatever its vocabulary. -/
theorem Standing.takes_ending (h : Standing s (f :: g :: outer)) (hbody : f.element.label ≠ "body") :
    f.element.name ∉ ["html", "head", "body"] ∧ ∃ s₁, Takes 1 (.closing f.element.closedBy) s none s₁ ∧
      Standing s₁ (AfterClosing f g outer) := by
  cases h.onPage with
  | body hname _ => exact absurd hname hbody
  | html hspace hstand _ _ _ =>
    have hstray : ["html", "head", "body"] ⊆ strayNames := by decide
    rw [Element.closedBy_eq hstand.word, ← Element.label_of_html hspace]
    exact ⟨fun hmem ↦ hstand.notStray (hstray hmem), h.takes_closing hstand⟩
  | foreign hspace _ _ hname _ =>
    have hlower : ∀ n ∈ ["html", "head", "body"], n.map Char.toLower ∈
        ["p", "html", "head", "body"] ++ voidNames := by decide +kernel
    exact ⟨fun hmem ↦ hname (hlower _ hmem), h.takes_foreign_closing hspace⟩

/-- A closing tag finishes the innermost element. -/
theorem Standing.follows_closing (h : Standing s (f :: outer)) {inner before : List Node}
    {around : List (Element × List Node)} (hdrawn : Drawn (f :: outer) ⟨inner, (e, before) :: around⟩) :
    ∃ s₁, Takes 1 (.closing e.closedBy) s none s₁ ∧
      Follows s₁ .markup ⟨before ++ [.element e.name e.attributes inner], around⟩ := by
  cases hdrawn with
  | @within _ g outer _ _ hrest =>
    obtain ⟨hname, s₁, htakes, hstanding⟩ := h.takes_ending (hrest.not_body h.onPage)
    exact ⟨s₁, htakes, _, .content hstanding, (Drawn.within f hrest).closing hname⟩

theorem textNames_notPage : ∀ name ∈ textNames, IsWord name ∧ name ∉ ["html", "head", "body"] := by
  decide

/-- The closing tag of the innermost element closes it in the document. -/
theorem Follows.closing {kind : TextMode} {inner before : List Node}
    {around : List (Element × List Node)} (h : Follows s kind ⟨inner, (e, before) :: around⟩) :
    ∃ s₁, receive (.closing e.closedBy) s = (none, s₁) ∧
      Follows s₁ .markup ⟨before ++ [.element e.name e.attributes inner], around⟩ := by
  suffices htakes : ∃ s₁ m, m ≤ 32 ∧ Takes m (.closing e.closedBy) s.awake none s₁ ∧
      Follows s₁ .markup ⟨before ++ [.element e.name e.attributes inner], around⟩ by
    obtain ⟨s₁, m, hm, htakes, hfollows⟩ := htakes
    exact ⟨s₁, htakes.receive hm (.inr (.inr ⟨_, rfl⟩)), hfollows⟩
  have htext {f g : Frame} {outer : List Frame} (hf : f.element.label ∈ textNames)
      (hdrawn : Drawn (f :: g :: outer) ⟨inner, (e, before) :: around⟩) :
      Drawn (AfterClosing f g outer)
        ⟨before ++ [.element e.name e.attributes inner], around⟩ := by
    obtain ⟨hword, hname⟩ := textNames_notPage _ hf
    refine hdrawn.closing ?_
    cases hdrawn
    rwa [Element.label_of_html (Element.space_of_label hword)] at hname
  obtain ⟨frames, hwithin, hdrawn⟩ := h.awake
  cases hwithin with
  | unopened _ => cases hdrawn
  | head _ =>
    cases hdrawn with
    | within _ hrest => cases hrest
  | content hs =>
    obtain ⟨s₁, htakes, hfollows⟩ := hs.follows_closing hdrawn
    exact ⟨s₁, 1, by decide, htakes, hfollows⟩
  | spacing hs =>
    obtain ⟨s₁, hleads, hstanding⟩ := hs.leads (t := .closing e.closedBy) (by rintro _ ⟨⟩)
    obtain ⟨s₂, htakes, hfollows⟩ := hstanding.follows_closing hdrawn
    exact ⟨s₂, 2, by decide, hleads.takes htakes, hfollows⟩
  | headText hs hh hr hf _ =>
    obtain ⟨s₁, htakes, hfits, hmode⟩ := hs.takes_closing hf e.closedBy
    exact ⟨s₁, 1, by decide, htakes, _, .head ⟨hfits, hh, hr, hmode⟩, htext hf hdrawn⟩
  | text hs honPage hf _ =>
    obtain ⟨s₁, htakes, hfits, hmode⟩ := hs.takes_closing hf e.closedBy
    exact ⟨s₁, 1, by decide, htakes, _, .content ⟨hfits, honPage.withNode _, hmode⟩,
      htext hf hdrawn⟩

/-- The closing tag of an element that holds nothing closes nothing. -/
theorem Follows.stray (h : Follows s .markup n) {name : String} (hname : name ∈ emptyNames)
    (hbr : name ≠ "br") (hgroup : n.names.head? = some "colgroup" → name = "col")
    (himage : ClosesNoImage n.elements name) :
    ∃ s₁, receive (.closing name) s = (none, s₁) ∧ Follows s₁ .markup n := by
  suffices htakes : ∃ s₁ m, m ≤ 32 ∧ Takes m (.closing name) s.awake none s₁ ∧
      Follows s₁ .markup n by
    obtain ⟨s₁, m, hm, htakes, hfollows⟩ := htakes
    exact ⟨s₁, htakes.receive hm (.inr (.inr ⟨name, rfl⟩)), hfollows⟩
  have hopens : ∀ other ∈ emptyNames, other ≠ "br" → opensContent other = false := by decide
  have hstray {s : State} {f : Frame} {outer : List Frame} (hs : Standing s (f :: outer))
      (hdrawn : Drawn (f :: outer) n) : Takes 1 (.closing name) s none s := by
    refine hs.takes_stray hname hbr (fun hf ↦ hgroup ?_) ?_
    · rw [hdrawn.names_eq hs.onPage, ← hf]
      rfl
    · rcases List.mem_cons.1 hname with rfl | hvoid
      · exact fun f hf hspace ↦ himage rfl _ (hdrawn.mem_elements hs.onPage f hf hspace) hspace
      · exact hs.onPage.closedBy_ne hvoid
  obtain ⟨frames, hwithin, hdrawn⟩ := h.awake
  cases hwithin with
  | unopened hs =>
    obtain ⟨s₁, htakes, hunopened⟩ := hs.takes_stray (hopens _ hname hbr)
    exact ⟨s₁, 2, by decide, htakes, _, .unopened hunopened, hdrawn⟩
  | head hs => exact ⟨_, 1, by decide, hs.takes_stray hname hbr, _, .head hs, hdrawn⟩
  | content hs => exact ⟨_, 1, by decide, hstray hs hdrawn, _, .content hs, hdrawn⟩
  | spacing hs =>
    obtain ⟨s₁, hleads, hstanding⟩ := hs.leads (t := .closing name) (by rintro _ ⟨⟩)
    exact ⟨s₁, 2, by decide, hleads.takes (hstray hstanding hdrawn), _, .content hstanding, hdrawn⟩
  | headText _ _ _ _ hkind => cases hkind
  | text _ _ _ hkind => cases hkind

/-! ### Characters -/

/-- Characters that are allowed draw nothing. -/
theorem Standing.follows_char (h : Standing s (f :: outer)) (hdrawn : Drawn (f :: outer) n) {c : Char}
    (hc : n.Allows c) : ∃ s₁, Takes 2 (.char c) s none s₁ ∧ Follows s₁ .markup n := by
  have hspace (hholds : HoldsParts f.element.label) : isSpace c = true := by
    refine hc f.element.label ?_ hholds
    rw [hdrawn.names_eq h.onPage]
    rfl
  cases hforeign : isForeign s (.char c) with
  | true =>
    obtain ⟨s₁, htakes, hstanding⟩ := h.takes_foreign_char hforeign
    exact ⟨s₁, fun fuel ↦ htakes (fuel + 1), _, .content hstanding, hdrawn⟩
  | false =>
    by_cases hf : f.element.label ∈ partHolders
    · obtain ⟨s₁, htakes, hspacing⟩ := h.takes_space hf (hspace (List.mem_cons_of_mem _ hf))
      exact ⟨s₁, htakes, _, .spacing hspacing, hdrawn⟩
    · obtain ⟨s₁, htakes, hstanding⟩ :=
        h.takes_char hforeign hf fun hgroup ↦ hspace (hgroup ▸ List.mem_cons_self)
      exact ⟨s₁, fun fuel ↦ htakes (fuel + 1), _, .content hstanding, hdrawn⟩

/-- Nor do they in the head, where they may begin the body. -/
theorem InHead.follows_char {h r : Frame} (hs : InHead s h r) (hdrawn : Drawn [h, r] n) {c : Char}
    (hc : n.Allows c) : ∃ s₁ m, m ≤ 4 ∧ Takes m (.char c) s none s₁ ∧ Follows s₁ .markup n := by
  cases hspace : isSpace c with
  | true =>
    obtain ⟨s₁, htakes, hinHead⟩ := hs.takes_space hspace
    exact ⟨s₁, 1, by decide, htakes, _, .head hinHead, hdrawn⟩
  | false =>
    obtain ⟨s₁, b, hleads, hstanding, -, hnone⟩ := hs.leads (.char hspace)
    obtain ⟨s₂, htakes, hfollows⟩ :=
      hstanding.follows_char (hdrawn.leave_head hs.head hnone) hc
    exact ⟨s₂, 4, by decide, hleads.takes htakes, hfollows⟩

/-- Characters open and close nothing. -/
theorem Follows.char {kind : TextMode} (h : Follows s kind n) {c : Char} (hc : n.Allows c) :
    ∃ s₁, receive (.char c) s = (none, s₁) ∧ Follows s₁ kind n := by
  suffices htakes : ∃ s₁ m, m ≤ 32 ∧ Takes m (.char c) s.awake none s₁ ∧ Follows s₁ kind n by
    obtain ⟨s₁, m, hm, htakes, hfollows⟩ := htakes
    rcases htakes.receive_char hm with heq | heq
    · exact ⟨_, heq, h.awake⟩
    · exact ⟨_, heq, hfollows⟩
  obtain ⟨frames, hwithin, hdrawn⟩ := h.awake
  cases hwithin with
  | unopened hs =>
    cases hspace : isSpace c with
    | true => exact ⟨_, 1, by decide, hs.takes_space hspace, _, .unopened hs, hdrawn⟩
    | false =>
      obtain ⟨s₁, h, r, m, hm, hleads, hinHead, hnone, hnodes⟩ := hs.leads (.char hspace)
      have hpage := Drawn.page h r
      rw [hnone, hnodes] at hpage
      cases hdrawn
      obtain ⟨s₂, k, hk, htakes, hfollows⟩ := hinHead.follows_char hpage hc
      exact ⟨s₂, k + m, by omega, hleads.takes htakes, hfollows⟩
  | head hs =>
    obtain ⟨s₁, k, hk, htakes, hfollows⟩ := hs.follows_char hdrawn hc
    exact ⟨s₁, k, by omega, htakes, hfollows⟩
  | content hs =>
    obtain ⟨s₁, htakes, hfollows⟩ := hs.follows_char hdrawn hc
    exact ⟨s₁, 2, by decide, htakes, hfollows⟩
  | spacing hs =>
    have hspace : isSpace c = true := by
      refine hc _ ?_ (List.mem_cons_of_mem _ hs.holds)
      rw [hdrawn.names_eq hs.onPage]
      rfl
    obtain ⟨s₁, htakes, hspacing⟩ := hs.takes_char hspace
    exact ⟨s₁, 1, by decide, htakes, _, .spacing hspacing, hdrawn⟩
  | headText hs hh hr hf hkind =>
    obtain ⟨s₁, htakes, htexting⟩ := hs.takes_char hf c
    exact ⟨s₁, 1, by decide, htakes, _, .headText htexting hh hr hf hkind, hdrawn⟩
  | text hs honPage hf hkind =>
    obtain ⟨s₁, htakes, htexting⟩ := hs.takes_char hf c
    exact ⟨s₁, 1, by decide, htakes, _, .text htexting honPage hf hkind, hdrawn⟩

/-! ### The end -/

/-- What is in the body of a page, behind what is in its head, is what has been written. -/
theorem Fits.content_eq {b r : Frame} (h : Fits s [b, r]) (hb : b.element.label = "body")
    (hr : r.element.label = "html") :
    textlessAll (bodyContents ((s.arena.cell Arena.root).children.map s.arena.tree)) =
      bodyContents r.nodes ++ bodyContents b.nodes := by
  have hopens := h.opens.closing
  cases hopens with
  | frame hcell hholds houter =>
    generalize hindex : (r.withNode b.closed).node.index = i at houter
    cases houter with
    | document hroot =>
      have hclosed : s.arena.Holds r.node.index [r.node] [(r.withNode b.closed).closed]
          s.arena.cells.size :=
        .element hcell (by rw [List.append_nil]; exact hholds) (.nil _)
      have htrees := hclosed.trees (Nat.sub_le _ _)
      have hchildren : (s.arena.cell Arena.root).children = [r.node] := by
        rw [hroot]
        rfl
      have hwords : ∀ name ∈ ["html", "head", "body"], IsWord name := by decide
      have hframe {f : Frame} (hf : f.element.label ∈ ["html", "head", "body"]) :
          bodyContents [f.closed] = bodyContents f.nodes := by
        rw [Element.label_of_html (Element.space_of_label (hwords _ hf))] at hf
        unfold Frame.closed
        simp only [bodyContents, Node.bodyContent, List.append_nil]
        rw [if_pos (List.contains_iff_mem.2 hf)]
      have hnodes : (r.withNode b.closed).nodes = r.nodes ++ [b.closed] := rfl
      rw [hchildren, textlessAll_bodyContents]
      change bodyContents (textlessAll ([r.node].map (s.arena.treeWithin s.arena.cells.size))) = _
      rw [htrees, hframe (by rw [show (r.withNode b.closed).element = r.element from rfl, hr]; decide),
        hnodes, bodyContents_append, hframe (by rw [hb]; decide)]

/-- At the end of a text in which all is closed, the document holds what has been written. -/
theorem Follows.eof {inner : List Node} (h : Follows s .markup ⟨inner, []⟩) :
    ∃ s₁ b r, receive .eof s = (none, s₁) ∧ Fits s₁ [b, r] ∧ b.element.label = "body" ∧
      r.element.label = "html" ∧ inner = bodyContents r.nodes ++ bodyContents b.nodes := by
  suffices htakes : ∃ s₁ b r m, m ≤ 32 ∧ Takes m .eof s.awake none s₁ ∧ Fits s₁ [b, r] ∧
      b.element.label = "body" ∧ r.element.label = "html" ∧ Drawn [b, r] ⟨inner, []⟩ by
    obtain ⟨s₁, b, r, m, hm, htakes, hfits, hb, hr, hdrawn⟩ := htakes
    cases hdrawn
    exact ⟨s₁, b, r, htakes.receive hm (.inl rfl), hfits, hb, hr, rfl⟩
  have hhead {s : State} {h r : Frame} (hs : InHead s h r) (hdrawn : Drawn [h, r] ⟨inner, []⟩) :
      ∃ s₁ b r, Takes 3 .eof s none s₁ ∧ Fits s₁ [b, r] ∧ b.element.label = "body" ∧
        r.element.label = "html" ∧ Drawn [b, r] ⟨inner, []⟩ := by
    obtain ⟨s₁, b, hleads, hstanding, hb, hnone⟩ := hs.leads .eof
    exact ⟨s₁, b, _, hleads.takes (hstanding.takes_eof hb hs.root), hstanding.fits, hb, hs.root,
      hdrawn.leave_head hs.head hnone⟩
  have hcontent {s : State} {f : Frame} {outer : List Frame} (hs : Standing s (f :: outer))
      (hdrawn : Drawn (f :: outer) ⟨inner, []⟩) :
      ∃ b r, Takes 1 .eof s none s ∧ Fits s [b, r] ∧ b.element.label = "body" ∧
        r.element.label = "html" ∧ Drawn [b, r] ⟨inner, []⟩ := by
    cases hdrawn with
    | page _ r =>
      obtain ⟨hb, hr⟩ := hs.onPage.page
      exact ⟨f, r, hs.takes_eof hb hr, hs.fits, hb, hr, .page f r⟩
  obtain ⟨frames, hwithin, hdrawn⟩ := h.awake
  cases hwithin with
  | unopened hs =>
    obtain ⟨s₁, h, r, m, hm, hleads, hinHead, hnone, hnodes⟩ := hs.leads .eof
    have hpage := Drawn.page h r
    rw [hnone, hnodes] at hpage
    cases hdrawn
    obtain ⟨s₂, b, r, htakes, hrest⟩ := hhead hinHead hpage
    exact ⟨s₂, b, r, 3 + m, by omega, hleads.takes htakes, hrest⟩
  | head hs =>
    obtain ⟨s₁, b, r, htakes, hrest⟩ := hhead hs hdrawn
    exact ⟨s₁, b, r, 3, by decide, htakes, hrest⟩
  | content hs =>
    obtain ⟨b, r, htakes, hrest⟩ := hcontent hs hdrawn
    exact ⟨_, b, r, 1, by decide, htakes, hrest⟩
  | spacing hs =>
    obtain ⟨s₁, hleads, hstanding⟩ := hs.leads (t := .eof) (by rintro _ ⟨⟩)
    obtain ⟨b, r, htakes, hrest⟩ := hcontent hstanding hdrawn
    exact ⟨s₁, b, r, 2, by decide, hleads.takes htakes, hrest⟩
  | headText _ _ _ _ hkind => cases hkind
  | text _ _ _ hkind => cases hkind

end

end Build

end Nodecraft.Markup
