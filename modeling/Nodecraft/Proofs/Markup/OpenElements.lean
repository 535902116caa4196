import Nodecraft.Markup.Build.Document
import Nodecraft.Proofs.Markup.Documents

/-!
# Open elements while a document is built

While a document is built, a state stands for the elements that are open (`Build.Fits`): the stack
has their cells, the arena holds what they have taken in so far, and the formatting elements among
them are listed in their order (`Build.Listed`). An element that is opened, put without being
opened, or finished leaves a state that fits what is open then.
-/

set_option autoImplicit false

namespace Nodecraft.Markup

open Build

namespace Arena

variable (a : Arena)

/-- An element that is opened in the innermost frame. -/
def nextFrame (e : Element) : Frame := ⟨⟨a.cells.size⟩, e, []⟩

/-- The arena with a new element in the innermost frame. -/
def withElement (frames : List Frame) (e : Element) : Arena :=
  (a.new (.element e none)).2.append (innermost frames) ⟨a.cells.size⟩

/-- A new node is inside of nothing. -/
theorem inside_new (content : Content) {n : NodeId} (hn : n.index < a.cells.size) :
    (a.new content).2.inside n = a.inside n := by
  unfold inside
  rw [a.cell_new_of_lt content hn]

end Arena

/-- The element that a tag opens in HTML. -/
def Tag.element (tag : Tag) : Element := ⟨.html, tag.name, tag.attributes⟩

/-! ### Names of all vocabularies -/

/-- Whether a name is spelled as names of HTML elements are, without spaces and capital letters. -/
def IsWord (name : String) : Prop := ∀ c ∈ name.toList, c ≠ ' ' ∧ c.toLower = c

instance (name : String) : Decidable (IsWord name) := List.decidableBAll _ _

namespace Element

/-- The name of an element among elements of all vocabularies: its own name if it is an HTML element,
and otherwise the name behind that of its vocabulary, which no HTML element is called. -/
def label (e : Element) : String :=
  match e.space with
  | .html => e.name
  | .svg => "svg " ++ e.name
  | .mathml => "math " ++ e.name

/-- The name in the closing tag of an element. -/
def closedBy (e : Element) : String := e.name.map Char.toLower

/-- The element that is put in place of one that holds nothing. HTML calls an image otherwise. -/
def inPlace (e : Element) : Element := if e.label = "image" then { e with name := "img" } else e

variable {e : Element}

/-- An HTML element goes by its name. -/
theorem label_of_html (he : e.space = .html) : e.label = e.name := by
  unfold label
  rw [he]

/-- An element of another vocabulary goes by a name that is no word. -/
theorem not_isWord_label (he : e.space ≠ .html) : ¬IsWord e.label := by
  intro hword
  refine (hword ' ' ?_).1 rfl
  unfold label
  cases hspace : e.space with
  | html => exact absurd hspace he
  | _ => simp

theorem space_of_label (h : IsWord e.label) : e.space = .html :=
  Decidable.byContradiction fun he ↦ not_isWord_label he h

/-- So it is never taken for an HTML element. -/
theorem label_ne (he : e.space ≠ .html) {name : String} (hname : IsWord name) : e.label ≠ name :=
  fun heq ↦ not_isWord_label he (heq ▸ hname)

/-- Only its name is another. -/
theorem attributes_inPlace (e : Element) : e.inPlace.attributes = e.attributes := by
  unfold inPlace
  split <;> rfl

/-- There is no other name for an element of another vocabulary. -/
theorem inPlace_of_foreign (he : e.space ≠ .html) : e.inPlace = e := if_neg (label_ne he (by decide))

theorem label_not_mem (he : e.space ≠ .html) {names : List String} (hnames : ∀ n ∈ names, IsWord n) :
    e.label ∉ names :=
  fun hmem ↦ not_isWord_label he (hnames _ hmem)

/-- HTML elements are closed by their names. -/
theorem closedBy_eq (h : IsWord e.label) : e.closedBy = e.label := by
  have hname := label_of_html (space_of_label h)
  rw [hname] at h ⊢
  unfold closedBy
  rw [← String.toList_inj, String.toList_map]
  exact (List.map_congr_left fun c hc ↦ (h c hc).2).trans (List.map_id _)

theorem isHtml_eq_false (he : e.space ≠ .html) : e.isHtml = false :=
  beq_eq_false_iff_ne.2 he

/-- Asking for an element by name is asking for its label. -/
theorem named_eq {name : String} (hname : IsWord name) : e.named name = (e.label == name) := by
  by_cases he : e.space = .html
  · unfold named isHtml
    rw [label_of_html he, he]
    rfl
  · unfold named
    rw [isHtml_eq_false he, beq_false_of_ne (label_ne he hname)]
    rfl

/-- So is asking for one of several names. -/
theorem oneOf_eq {names : List String} (hnames : ∀ n ∈ names, IsWord n) :
    e.oneOf names = names.contains e.label := by
  by_cases he : e.space = .html
  · unfold oneOf isHtml
    rw [label_of_html he, he]
    rfl
  · unfold oneOf
    rw [isHtml_eq_false he]
    exact (Bool.eq_false_iff.2 fun hc ↦ label_not_mem he hnames (List.contains_iff_mem.1 hc)).symm

/-- An HTML element goes by its own name. -/
theorem named_label (he : e.space = .html) : e.named e.label = true := by
  unfold named isHtml
  rw [label_of_html he, he]
  exact beq_self_eq_true _

end Element

namespace Build

/-! ### Running -/

section

variable {α β : Type} {s s₁ : State}

theorem bind_eq {x : Building α} {f : α → Building β} {a : α} {t : State} {r : β × State}
    (hx : x s = (a, t)) (hf : f a t = r) : (x >>= f) s = r := by
  rw [← hf]
  exact congrArg (fun p : α × State ↦ f p.1 p.2) hx

/-- A token that is done with. -/
theorem process_done {t : Token} {fuel : Nat} (hforeign : isForeign s t = false)
    (h : inMode s.mode t s = (Outcome.done, s₁)) : process t (fuel + 1) s = (none, s₁) := by
  unfold process
  refine bind_eq (t := s) rfl ?_
  rw [if_neg (Bool.eq_false_iff.1 hforeign)]
  exact bind_eq h rfl

/-- A token that another mode gets. -/
theorem process_again {t : Token} {fuel : Nat} {mode : Mode} (hforeign : isForeign s t = false)
    (h : inMode s.mode t s = (Outcome.again mode, s₁)) :
    process t (fuel + 1) s = process t fuel { s₁ with mode := mode } := by
  rw [process]
  refine bind_eq (t := s) rfl ?_
  rw [if_neg (Bool.eq_false_iff.1 hforeign)]
  exact bind_eq h rfl

/-- A token after which text is read. -/
theorem process_reads {t : Token} {fuel : Nat} {mode : TextMode}
    (hforeign : isForeign s t = false) (h : inMode s.mode t s = (Outcome.reads mode, s₁)) :
    process t (fuel + 1) s = (some mode, s₁) := by
  unfold process
  refine bind_eq (t := s) rfl ?_
  rw [if_neg (Bool.eq_false_iff.1 hforeign)]
  exact bind_eq h rfl

end

/-! ### Names of open elements -/

/-- The names of open elements among one another, the innermost first. -/
def namesOf (frames : List Frame) : List String := frames.map fun f ↦ f.element.label

def formattingElements : List String := formattingNames ++ ["a", "nobr"]

def objectNames : List String := ["applet", "marquee", "object"]

/-- Elements in which formatting starts afresh. -/
def markedElements : List String := objectNames ++ ["caption", "td", "th"]

def scopeNames : List String :=
  ["applet", "caption", "html", "table", "td", "th", "marquee", "object", "template"]

/-- Foreign elements that hold HTML. -/
def integrationLabels : List String :=
  ["mi", "mo", "mn", "ms", "mtext"].map ("math " ++ ·) ++
    ["foreignObject", "desc", "title"].map ("svg " ++ ·)

/-- Elements at which the search for an open element ends. -/
def scopeLabels : List String := scopeNames ++ integrationLabels

/-- Whether a name is that of an HTML element of which nothing is noted but that it is open. -/
def IsPlain (name : String) : Prop := IsWord name ∧ name ∉ "template" :: "form" :: markedElements

instance (name : String) : Decidable (IsPlain name) := inferInstanceAs (Decidable (_ ∧ _))

/-- The names up to the first one of some. -/
def inSight (enders around : List String) : List String :=
  around.takeWhile fun n ↦ !enders.contains n

/-! ### Entries of formatting elements -/

/-- The entries of formatting elements are of open ones, in their order, with a marker for each
element that has one. -/
inductive Listed : List Frame → List Entry → Prop
  | nil : Listed [] []
  | plain {f : Frame} {frames : List Frame} {es : List Entry} :
    f.element.label ∉ markedElements → Listed frames es → Listed (f :: frames) es
  | entry {f : Frame} {frames : List Frame} {es : List Entry} {tag : Tag} :
    tag.name = f.element.label → f.element.label ∈ formattingElements → Listed frames es →
      Listed (f :: frames) (.element f.node tag :: es)
  | marker {f : Frame} {frames : List Frame} {es : List Entry} :
    f.element.label ∈ markedElements → Listed frames es → Listed (f :: frames) (.marker :: es)

/-- Formatting elements are not marked. -/
theorem not_mem_markedElements {name : String} (h : name ∈ formattingElements) :
    name ∉ markedElements := by
  revert name
  decide

namespace Listed

variable {frames : List Frame} {f : Frame} {es : List Entry}

/-- A formatting element noted as open is open. -/
theorem mem_of_element (h : Listed frames es) {n : NodeId} {tag : Tag}
    (hn : .element n tag ∈ es) : ∃ f ∈ frames, f.node = n ∧ f.element.label ∈ formattingElements := by
  induction h with
  | nil => cases hn
  | plain _ _ ih =>
    obtain ⟨g, hg, hnode⟩ := ih hn
    exact ⟨g, List.mem_cons_of_mem _ hg, hnode⟩
  | entry _ hformatting _ ih =>
    rcases List.mem_cons.1 hn with heq | hn
    · obtain ⟨rfl, -⟩ := Entry.element.inj heq
      exact ⟨_, List.mem_cons_self, rfl, hformatting⟩
    · obtain ⟨g, hg, hnode⟩ := ih hn
      exact ⟨g, List.mem_cons_of_mem _ hg, hnode⟩
  | marker _ _ ih =>
    rcases List.mem_cons.1 hn with heq | hn
    · cases heq
    · obtain ⟨g, hg, hnode⟩ := ih hn
      exact ⟨g, List.mem_cons_of_mem _ hg, hnode⟩

/-- An entry may be missing. -/
theorem erase {e : Entry} (he : e ≠ .marker) {pre post : List Entry}
    (h : Listed frames (pre ++ e :: post)) : Listed frames (pre ++ post) := by
  generalize hes : pre ++ e :: post = es at h
  induction h generalizing pre with
  | nil => exact absurd (List.append_eq_nil_iff.1 hes).2 (List.cons_ne_nil _ _)
  | plain hname _ ih => exact .plain hname (ih hes)
  | entry htag hname hrest ih =>
    cases pre with
    | nil =>
      obtain ⟨rfl, rfl⟩ := List.cons.inj hes
      exact .plain (not_mem_markedElements hname) hrest
    | cons d pre =>
      rw [List.cons_append] at hes
      obtain ⟨rfl, htail⟩ := List.cons.inj hes
      exact .entry htag hname (ih htail)
  | marker hname hrest ih =>
    cases pre with
    | nil => exact absurd (List.cons.inj hes).1 he
    | cons d pre =>
      rw [List.cons_append] at hes
      obtain ⟨rfl, htail⟩ := List.cons.inj hes
      exact .marker hname (ih htail)

/-- Making room in the notes keeps them true. -/
theorem withRoom (h : Listed frames es) (tag : Tag) : Listed frames (withRoom tag es) := by
  unfold Build.withRoom
  dsimp only
  split
  · exact h
  · obtain ⟨post, hpost⟩ := List.takeWhile_prefix (l := es) fun e : Entry ↦ !e.isMarker
    change sinceMarker es ++ post = es at hpost
    have hdrop := @List.drop_left _ (sinceMarker es) post
    rw [hpost] at hdrop
    rw [hdrop]
    rcases List.exists_or_eq_self_of_eraseP _ _ with heq | ⟨e, pre, rest, -, hsame, hrecent, heq⟩
    · rw [heq, List.reverse_reverse, hpost]
      exact h
    · rw [heq, List.reverse_append, List.append_assoc]
      rw [← hpost, ← List.reverse_reverse (sinceMarker es), hrecent, List.reverse_append,
        List.reverse_cons, List.append_assoc, List.append_assoc] at h
      refine Listed.erase ?_ h
      rintro rfl
      cases hsame

/-- Elements that nothing is noted for. -/
theorem of_plain (h : Listed (f :: frames) es) (hformatting : f.element.label ∉ formattingElements)
    (hmarked : f.element.label ∉ markedElements) : Listed frames es := by
  cases h with
  | plain _ hrest => exact hrest
  | entry _ hname _ => exact absurd hname hformatting
  | marker hname _ => exact absurd hname hmarked

/-- Behind the mark of an element stands what was noted around it. -/
theorem of_marked (h : Listed (f :: frames) es) (hmarked : f.element.label ∈ markedElements) :
    ∃ rest, es = .marker :: rest ∧ Listed frames rest := by
  cases h with
  | plain hname _ => exact absurd hmarked hname
  | entry _ hname _ => exact absurd hmarked (not_mem_markedElements hname)
  | marker _ hrest => exact ⟨_, rfl, hrest⟩

/-- What is in an element does not count. -/
theorem withNode {outer : List Frame} (h : Listed (f :: outer) es) (n : Node) :
    Listed (f.withNode n :: outer) es := by
  cases h with
  | plain hname hrest => exact .plain hname hrest
  | entry htag hname hrest => exact .entry (f := f.withNode n) htag hname hrest
  | marker hname hrest => exact .marker hname hrest

end Listed

/-! ### States -/

/-- The element that a form goes by, if one is open. -/
def formOf (frames : List Frame) : Option NodeId :=
  (frames.find? fun f ↦ f.element.label == "form").map Frame.node

/-- A state in which the given elements are open, and nothing else has been noted. No document type
has been declared, and the text of a table that is not yet placed is white space. -/
structure Fits (s : State) (frames : List Frame) : Prop where
  opens : s.arena.Opens frames [] s.arena.cells.size
  opened : s.opened = frames.map Frame.node
  words : ∀ f ∈ frames, f.element.space = .html → IsWord f.element.name
  noTemplate : ∀ f ∈ frames, f.element.label ≠ "template"
  listed : Listed frames s.formatting
  form : s.form = formOf frames
  templates : s.templateModes = []
  fostering : s.fostering = false
  lenient : s.lenient = true
  tableText : s.tableText.all isSpace = true

/-- Outside of tables, nodes are put into the current one. -/
theorem place_of_not_fostering {s : State} (h : s.fostering = false) :
    s.place = .lastOf (s.arena.inside s.current) := by
  unfold State.place State.placeIn
  rw [h]
  rfl

namespace Fits

variable {s : State} {frames outer : List Frame} {f g : Frame}

/-- Modes and flags do not count. -/
theorem with_flags (h : Fits s frames) (mode returnMode : Mode) (allowed skips : Bool) :
    Fits { s with mode := mode, returnMode := returnMode, framesetAllowed := allowed,
                  skipsLineFeed := skips } frames :=
  ⟨h.opens, h.opened, h.words, h.noTemplate, h.listed, h.form, h.templates, h.fostering, h.lenient,
    h.tableText⟩

/-- The current node is the innermost one. -/
theorem current_eq (h : Fits s frames) : s.current = innermost frames := by
  unfold State.current innermost
  rw [h.opened]

/-- Nodes are put into the innermost one. -/
theorem place_eq (h : Fits s frames) : s.place = .lastOf (innermost frames) := by
  rw [place_of_not_fostering h.fostering, h.current_eq, h.opens.inside_innermost]

theorem currentElement_eq (h : Fits s (f :: outer)) : s.currentElement = f.element := by
  unfold State.currentElement
  rw [h.current_eq]
  exact h.opens.element_eq List.mem_cons_self

theorem element_eq (h : Fits s frames) (hf : f ∈ frames) : s.arena.element f.node = f.element :=
  h.opens.element_eq hf

/-- No token is foreign content in an HTML element. -/
theorem isForeign_eq (h : Fits s (f :: outer)) (hf : f.element.space = .html) (t : Token) :
    isForeign s t = false := by
  have hhtml : f.element.isHtml = true := beq_iff_eq.2 hf
  unfold isForeign
  rw [h.currentElement_eq]
  dsimp only
  rw [hhtml, Bool.or_true, if_pos rfl]

end Fits

/-! ### Opening -/

section

variable {s : State} {frames outer : List Frame} {f g : Frame} {e : Element}

theorem formOf_withNode (f : Frame) (n : Node) (outer : List Frame) :
    formOf (f.withNode n :: outer) = formOf (f :: outer) := by
  have hname : (f.withNode n).element.label = f.element.label := rfl
  unfold formOf
  rw [List.find?_cons, List.find?_cons, hname]
  cases f.element.label == "form" <;> rfl

/-- An element that is no form leaves the noted one. -/
theorem formOf_cons_of_ne (hf : f.element.label ≠ "form") : formOf (f :: outer) = formOf outer := by
  unfold formOf
  rw [List.find?_cons, beq_eq_false_iff_ne.2 hf]

theorem formOf_nextFrame (a : Arena) (e : Element) (frames : List Frame) :
    formOf (a.nextFrame e :: frames) =
      if e.label == "form" then some ⟨a.cells.size⟩ else formOf frames := by
  have hname : (a.nextFrame e).element.label = e.label := rfl
  unfold formOf
  rw [List.find?_cons, hname]
  cases e.label == "form" <;> rfl

/-- A new element is a new cell. -/
theorem newElement_eq (he : e.label ≠ "template") (s : State) : Build.newElement e s =
    (⟨s.arena.cells.size⟩, { s with arena := (s.arena.new (.element e none)).2 }) := by
  have heq : s.arena.newElement e = s.arena.new (.element e none) := by
    unfold Arena.newElement
    rw [if_neg]
    rw [Element.named_eq (by decide), beq_false_of_ne he]
    exact Bool.false_ne_true
  change ((s.arena.newElement e).1, { s with arena := (s.arena.newElement e).2 }) = _
  rw [heq]
  rfl

/-- What counts for where new content goes. -/
structure Placed (s : State) (frames : List Frame) : Prop where
  opens : s.arena.Opens frames [] s.arena.cells.size
  opened : s.opened = frames.map Frame.node
  fostering : s.fostering = false

theorem Fits.placed (h : Fits s frames) : Placed s frames := ⟨h.opens, h.opened, h.fostering⟩

theorem Placed.current_eq (h : Placed s frames) : s.current = innermost frames := by
  unfold State.current innermost
  rw [h.opened]

/-- A new node is put behind the others of the innermost one. -/
theorem put_new (h : Placed s frames) (e : Element) :
    put ⟨s.arena.cells.size⟩ { s with arena := (s.arena.new (.element e none)).2 } =
      ((), { s with arena := s.arena.withElement frames e }) := by
  have hplace : State.place { s with arena := (s.arena.new (.element e none)).2 } =
      .lastOf (innermost frames) := by
    refine (place_of_not_fostering ?_).trans (congrArg Place.lastOf ?_)
    · exact h.fostering
    change (s.arena.new (.element e none)).2.inside s.current = _
    rw [h.current_eq, s.arena.inside_new _ h.opens.innermost_lt, h.opens.inside_innermost]
  change putAt (State.place _) _ _ = _
  rw [hplace]
  rfl

/-- The state with an element put in place. -/
def State.withElement (s : State) (frames : List Frame) (e : Element) : State :=
  { s with arena := s.arena.withElement frames e }

/-- The state with an element put in place and opened. -/
def State.withOpened (s : State) (frames : List Frame) (e : Element) : State :=
  { s.withElement frames e with opened := ⟨s.arena.cells.size⟩ :: s.opened }

/-- Opening puts the element in and on top. -/
theorem openElement_eq (h : Placed s frames) (he : e.label ≠ "template") :
    openElement e s = (⟨s.arena.cells.size⟩, s.withOpened frames e) := by
  unfold openElement
  exact bind_eq (newElement_eq he s) (bind_eq (put_new h e) rfl)

theorem discard_eq {α : Type} {x : Building α} {a : α} {s₁ : State} (hx : x s = (a, s₁)) :
    (discard x : Building Unit) s = ((), s₁) :=
  congrArg (fun p : α × State ↦ ((), p.2)) hx

/-- The element of a tag is opened. -/
theorem openTag_eq (h : Placed s frames) {tag : Tag} (htag : tag.name ≠ "template") :
    openTag tag s = ((), s.withOpened frames tag.element) :=
  discard_eq (openElement_eq (e := tag.element) h htag)

/-- The element of a tag is put in. -/
theorem putTag_eq (h : Placed s frames) {tag : Tag} (htag : tag.name ≠ "template") :
    putTag tag s = (⟨s.arena.cells.size⟩, s.withElement frames tag.element) := by
  unfold putTag newHtml
  exact bind_eq (newElement_eq (e := tag.element) htag s) (bind_eq (put_new h _) rfl)

/-- The next frame, with the formatting entries and the form that go with it. -/
theorem Fits.push (h : Fits s frames) (hword : e.space = .html → IsWord e.name)
    (htemplate : e.label ≠ "template") {es : List Entry}
    (hlisted : Listed (s.arena.nextFrame e :: frames) es) :
    Fits { s.withOpened frames e with
      formatting := es
      form := formOf (s.arena.nextFrame e :: frames) } (s.arena.nextFrame e :: frames) where
  opens := h.opens.opening e
  opened := congrArg _ h.opened
  words := List.forall_mem_cons.2 ⟨hword, h.words⟩
  noTemplate := List.forall_mem_cons.2 ⟨htemplate, h.noTemplate⟩
  listed := hlisted
  form := rfl
  templates := h.templates
  fostering := h.fostering
  lenient := h.lenient
  tableText := h.tableText

/-- Elements that nothing is noted for. -/
theorem Fits.push_plain (h : Fits s frames) (hword : e.space = .html → IsWord e.name)
    (he : e.label ∉ "template" :: "form" :: markedElements) :
    Fits (s.withOpened frames e) (s.arena.nextFrame e :: frames) := by
  rw [List.mem_cons, List.mem_cons, not_or, not_or] at he
  obtain ⟨htemplate, hform, hmarked⟩ := he
  have hfits := h.push hword htemplate (.plain (f := s.arena.nextFrame e) hmarked h.listed)
  rwa [formOf_nextFrame, if_neg (by simpa using hform), ← h.form] at hfits

/-- An element that stays empty is put in place. -/
theorem Fits.put (h : Fits s (f :: outer)) (e : Element) :
    Fits (s.withElement (f :: outer) e) (f.withNode (s.arena.nextFrame e).closed :: outer) where
  opens := (h.opens.opening e).closing
  opened := h.opened
  words := List.forall_mem_cons.2 (List.forall_mem_cons.1 h.words)
  noTemplate := List.forall_mem_cons.2 (List.forall_mem_cons.1 h.noTemplate)
  listed := h.listed.withNode _
  form := h.form.trans (formOf_withNode _ _ _).symm
  templates := h.templates
  fostering := h.fostering
  lenient := h.lenient
  tableText := h.tableText

/-- The innermost element is closed, with the formatting entries and the form that are left. -/
theorem Fits.pop (h : Fits s (f :: g :: outer)) {es : List Entry} (hlisted : Listed (g :: outer) es) :
    Fits { s with
      opened := s.opened.tail
      formatting := es
      form := formOf (g :: outer) } (g.withNode f.closed :: outer) where
  opens := h.opens.closing
  opened := congrArg List.tail h.opened
  words := List.forall_mem_cons.2 (List.forall_mem_cons.1 (List.forall_mem_cons.1 h.words).2)
  noTemplate :=
    List.forall_mem_cons.2 (List.forall_mem_cons.1 (List.forall_mem_cons.1 h.noTemplate).2)
  listed := hlisted.withNode _
  form := (formOf_withNode _ _ _).symm
  templates := h.templates
  fostering := h.fostering
  lenient := h.lenient
  tableText := h.tableText

/-- Elements that more is noted for than that they are open. -/
def notedNames : List String := "form" :: formattingElements ++ markedElements

/-- When the innermost element is closed, the one around it goes on. -/
theorem Fits.pop_plain (h : Fits s (f :: g :: outer)) (hname : f.element.label ∉ notedNames) :
    Fits { s with opened := s.opened.tail } (g.withNode f.closed :: outer) := by
  obtain ⟨⟨hform, hformatting⟩, hmarked⟩ : (f.element.label ≠ "form" ∧
      f.element.label ∉ formattingElements) ∧ f.element.label ∉ markedElements := by
    rw [notedNames, List.mem_append, not_or, List.mem_cons, not_or] at hname
    exact hname
  have hfits := h.pop (h.listed.of_plain hformatting hmarked)
  rw [← formOf_cons_of_ne hform, ← h.form] at hfits
  exact hfits

/-- Text goes into the innermost element. -/
theorem Fits.putChar (h : Fits s (f :: outer)) (c : Char) :
    ∃ s₁, putChar c s = ((), s₁) ∧ Fits s₁ (f :: outer) ∧ s₁.mode = s.mode ∧
      s₁.returnMode = s.returnMode := by
  have hput : Build.putChar c s = ((), { s with arena := s.arena.appendChar f.node c }) := by
    unfold Build.putChar
    refine bind_eq (t := s) rfl ?_
    rw [h.place_eq]
    rfl
  exact ⟨_, hput, ⟨h.opens.appendChar c, h.opened, h.words, h.noTemplate, h.listed, h.form,
    h.templates, h.fostering, h.lenient, h.tableText⟩, rfl, rfl⟩

end

end Build

end Nodecraft.Markup
