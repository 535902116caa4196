import Nodecraft.Text.Blank
import Nodecraft.View.Html

/-!
# Reading a view back from its HTML

A reader takes a document character by character (`step`) and is strict: a tag has its name right
after `<` and one space before each attribute, the value of an attribute stands in double quotes or
is missing, `<` and `>` stand nowhere else, and a reference is one of the four of `entity?`.
Everything else is refused. It knows nothing of views, and not which tags belong together.

A view whose names may stand in a tag reads back as its tokens, and whatever its texts and values
are, as the same tags (`html_reads_back`). The proof follows the writer: an escaped character is
read as that character where it stands (`feed_escaped`, `feed_escapedQuoted`), a written attribute
takes a reader from one pause in a tag to the next (`feed_attributeHtml`), and the HTML of a node
does to a reader in the content what the node's tokens do (`Decodes`, `decodes_html`), which is to
merge them (`flushed_foldl_absorb`).

What a view written as HTML should be read as: the opening tag of each element and component with
all its attributes, what stands inside, and its closing tag (`listTokens`); a void element has its
opening tag only. Between two tags there is at most one text and none that is empty (`merged`).

The tags of a view (`tags`) depend on its outline alone, which knows neither a text nor the value of
an attribute or of a property (`tags_listTokens_outline`). So does the question whether its names
may stand in a tag (`listWellNamed_outline`).
-/

set_option autoImplicit false

namespace Nodecraft.View

/-- An attribute that is written without a value has the empty one. -/
inductive Token
  | opening (name : String) (attributes : List (String × String))
  | closing (name : String)
  | text (value : String)
  deriving DecidableEq

/-! ### The tokens of a view -/

mutual

def Node.tokens : Node → List Token
  | .text value => [.text value]
  | .element tag attributes _ children =>
    .opening tag attributes ::
      if isVoid tag then [] else listTokens children ++ [.closing tag]
  | .component name props _ children =>
    .opening name (props.map fun (k, v) ↦ (k, propText v)) ::
      (listTokens children ++ [.closing name])

def listTokens : List Node → List Token
  | [] => []
  | n :: rest => n.tokens ++ listTokens rest

end

/-- A text in front of tokens: it becomes one with a text that follows, and is left out if empty. -/
def prepend (value : String) : List Token → List Token
  | .text next :: rest => .text (value ++ next) :: rest
  | ts => if value.isEmpty then ts else .text value :: ts

/-- Tokens with adjacent texts as one and without empty ones. -/
def merged : List Token → List Token
  | [] => []
  | .text value :: rest => prepend value (merged rest)
  | t :: rest => t :: merged rest

@[simp] theorem prepend_empty (ts : List Token) : prepend "" ts = ts := by
  unfold prepend
  split
  · rw [String.empty_append]
  · rfl

/-- Texts in front of tokens run together. -/
theorem prepend_prepend (s t : String) (ts : List Token) :
    prepend s (prepend t ts) = prepend (s ++ t) ts := by
  by_cases ht : t = ""
  · rw [ht, prepend_empty, String.append_empty]
  · have hst : s ++ t ≠ "" := fun h ↦ ht (String.append_eq_empty_iff.1 h).2
    cases ts with
    | nil => simp [prepend, ht, hst]
    | cons u us => cases u <;> simp [prepend, ht, hst, String.append_assoc]

/-! ### The tags of a view -/

/-- A tag with the names of its attributes; a text is none. -/
def Token.tag? : Token → Option Token
  | .opening name attributes => some (.opening name (attributes.map fun (k, _) ↦ (k, "")))
  | .closing name => some (.closing name)
  | .text _ => none

def tags (ts : List Token) : List Token := ts.filterMap Token.tag?

@[simp] theorem tags_nil : tags [] = [] := rfl

@[simp] theorem tags_append (ts us : List Token) : tags (ts ++ us) = tags ts ++ tags us :=
  List.filterMap_append

@[simp] theorem tags_text (value : String) (ts : List Token) :
    tags (.text value :: ts) = tags ts := rfl

@[simp] theorem tags_closing (name : String) (ts : List Token) :
    tags (.closing name :: ts) = .closing name :: tags ts := rfl

@[simp] theorem tags_opening (name : String) (attributes : List (String × String))
    (ts : List Token) : tags (.opening name attributes :: ts) =
      .opening name (attributes.map fun (k, _) ↦ (k, "")) :: tags ts := rfl

@[simp] theorem tags_prepend (value : String) (ts : List Token) :
    tags (prepend value ts) = tags ts := by
  unfold prepend
  split
  · rfl
  · split <;> rfl

@[simp] theorem tags_merged (ts : List Token) : tags (merged ts) = tags ts := by
  induction ts with
  | nil => rfl
  | cons t rest ih => cases t <;> simp [merged, ih]

mutual

/-- A node without texts and without the values of attributes and properties. -/
def Node.outline : Node → List Node
  | .text _ => []
  | .element tag attributes _ children =>
    [.element tag (attributes.map fun (k, _) ↦ (k, "")) [] (listOutline children)]
  | .component name props _ children =>
    [.component name (props.map fun (k, _) ↦ (k, .null)) [] (listOutline children)]

def listOutline : List Node → List Node
  | [] => []
  | n :: rest => n.outline ++ listOutline rest

end

/-- A tag stays apart from the text in front of it. -/
theorem prepend_cons_tag (value : String) {t : Token} (ht : t.tag?.isSome) (ts : List Token) :
    prepend value (t :: ts) = prepend value [] ++ t :: ts := by
  cases t with
  | text => cases ht
  | opening | closing => by_cases hvalue : value = "" <;> simp [prepend, hvalue]

/-- Views side by side give their tokens one after the other. -/
theorem listTokens_append (ns ms : List Node) :
    listTokens (ns ++ ms) = listTokens ns ++ listTokens ms := by
  induction ns with
  | nil => rfl
  | cons n rest ih => simp [listTokens, ih]

mutual

/-- An outline has the tags of its view. -/
theorem tags_tokens_outline : (n : Node) → tags (listTokens n.outline) = tags n.tokens
  | .text _ => rfl
  | .element tag attributes _ children => by
    have hinside := tags_listTokens_outline children
    cases hvoid : isVoid tag <;>
      simp [Node.outline, listTokens, Node.tokens, hvoid, hinside, Function.comp_def]
  | .component name props _ children => by
    have hinside := tags_listTokens_outline children
    simp [Node.outline, listTokens, Node.tokens, hinside, Function.comp_def]

/-- The tags of a view are those of its outline. -/
theorem tags_listTokens_outline :
    (ns : List Node) → tags (listTokens (listOutline ns)) = tags (listTokens ns)
  | [] => rfl
  | n :: rest => by
    simp [listOutline, listTokens_append, listTokens, tags_tokens_outline n,
      tags_listTokens_outline rest]

end

/-! ### Names that may stand in a tag -/

def isNameChar (c : Char) : Bool :=
  !(Text.isBlank c || c == '<' || c == '>' || c == '"' || c == '\'' || c == '=' || c == '/' ||
    c == '&')

def isName (s : String) : Bool := !s.isEmpty && s.toList.all isNameChar

mutual

def Node.wellNamed : Node → Bool
  | .text _ => true
  | .element tag attributes _ children =>
    isName tag && attributes.all (fun (k, _) ↦ isName k) && listWellNamed children
  | .component name props _ children =>
    isName name && props.all (fun (k, _) ↦ isName k) && listWellNamed children

/-- The names of all tags, components, attributes and properties of a view are names. -/
def listWellNamed : List Node → Bool
  | [] => true
  | n :: rest => n.wellNamed && listWellNamed rest

end

theorem listWellNamed_append (ns ms : List Node) :
    listWellNamed (ns ++ ms) = (listWellNamed ns && listWellNamed ms) := by
  induction ns with
  | nil => rfl
  | cons n rest ih => rw [List.cons_append, listWellNamed, listWellNamed, ih, Bool.and_assoc]

mutual

/-- An outline is well named exactly if its view is. -/
theorem wellNamed_outline : (n : Node) → listWellNamed n.outline = n.wellNamed
  | .text _ => rfl
  | .element tag attributes _ children => by
    simp [Node.outline, listWellNamed, Node.wellNamed, listWellNamed_outline children,
      Function.comp_def]
  | .component name props _ children => by
    simp [Node.outline, listWellNamed, Node.wellNamed, listWellNamed_outline children,
      Function.comp_def]

theorem listWellNamed_outline :
    (ns : List Node) → listWellNamed (listOutline ns) = listWellNamed ns
  | [] => rfl
  | n :: rest => by
    rw [listOutline, listWellNamed_append, wellNamed_outline n, listWellNamed_outline rest,
      listWellNamed]

end

end Nodecraft.View

namespace Nodecraft.View

/-! ### The reader -/

/-- Where text is read: in the content, or as the value of an attribute of a tag. -/
inductive Place
  | content
  | value (tag : String) (attributes : List (String × String)) (name : String)

inductive Naming
  | opening
  | closing
  | attribute (tag : String) (attributes : List (String × String))
  deriving DecidableEq

inductive Stage
  | within (place : Place) (text : List Char)
  /-- After an ampersand. -/
  | reference (place : Place) (text name : List Char)
  | naming (what : Naming) (name : List Char)
  /-- After the equals sign of an attribute. -/
  | assigned (tag : String) (attributes : List (String × String)) (name : String)
  /-- After the closing quote of a value. -/
  | valued (tag : String) (attributes : List (String × String))

structure Reader where
  tokens : List Token
  stage : Stage

def entity? : List Char → Option Char
  | ['a', 'm', 'p'] => some '&'
  | ['l', 't'] => some '<'
  | ['g', 't'] => some '>'
  | ['q', 'u', 'o', 't'] => some '"'
  | _ => none

def flushed (tokens : List Token) (text : List Char) : List Token :=
  if text.isEmpty then tokens else tokens ++ [.text (String.ofList text)]

/-- The character that ends a place. -/
def Place.stop : Place → Char
  | content => '<'
  | value .. => '"'

namespace Reader

/-- A reader in the content that has read these tokens and, after them, this text. -/
def inContent (read : List Token × List Char) : Reader := ⟨read.1, .within .content read.2⟩

def leave (tokens : List Token) (text : List Char) : Place → Reader
  | .content => ⟨flushed tokens text, .naming .opening []⟩
  | .value tag attributes name =>
    ⟨tokens, .valued tag (attributes ++ [(name, String.ofList text)])⟩

/-- An opening tag may end, or go on with an attribute. -/
def proceed (tokens : List Token) (tag : String) (attributes : List (String × String)) (c : Char) :
    Option Reader :=
  if c = '>' then some (inContent (tokens ++ [.opening tag attributes], []))
  else if c = ' ' then some ⟨tokens, .naming (.attribute tag attributes) []⟩
  else none

/-- The first character after a name. -/
def named (tokens : List Token) (name : String) (c : Char) : Naming → Option Reader
  | .opening => proceed tokens name [] c
  | .closing => if c = '>' then some (inContent (tokens ++ [.closing name], [])) else none
  | .attribute tag attributes =>
    if c = '=' then some ⟨tokens, .assigned tag attributes name⟩
    else proceed tokens tag (attributes ++ [(name, "")]) c

def step (r : Reader) (c : Char) : Option Reader :=
  match r.stage with
  | .within place text =>
    if c = place.stop then some (leave r.tokens text place)
    else if c = '&' then some ⟨r.tokens, .reference place text []⟩
    else if c = '<' ∨ c = '>' then none
    else some ⟨r.tokens, .within place (text ++ [c])⟩
  | .reference place text name =>
    if c = ';' then (entity? name).map fun e ↦ ⟨r.tokens, .within place (text ++ [e])⟩
    else some ⟨r.tokens, .reference place text (name ++ [c])⟩
  | .naming what name =>
    if isNameChar c then some ⟨r.tokens, .naming what (name ++ [c])⟩
    else if name.isEmpty then
      if what = .opening ∧ c = '/' then some ⟨r.tokens, .naming .closing []⟩ else none
    else named r.tokens (String.ofList name) c what
  | .assigned tag attributes name =>
    if c = '"' then some ⟨r.tokens, .within (.value tag attributes name) []⟩ else none
  | .valued tag attributes => proceed r.tokens tag attributes c

def feed (r : Reader) (cs : List Char) : Option Reader := cs.foldlM step r

/-- A document ends in the content. -/
def finish (r : Reader) : Option (List Token) :=
  match r.stage with
  | .within .content text => some (flushed r.tokens text)
  | _ => none

end Reader

open Reader

/-- The tokens of a document, if it is one. -/
def read (document : String) : Option (List Token) :=
  (feed (inContent ([], [])) document.toList).bind finish

@[simp] theorem feed_nil (r : Reader) : feed r [] = some r := rfl

@[simp] theorem feed_cons (r : Reader) (c : Char) (cs : List Char) :
    feed r (c :: cs) = (step r c).bind fun r' ↦ feed r' cs := List.foldlM_cons

/-- Texts in a row are fed one after the other. -/
theorem feed_append (r : Reader) (cs ds : List Char) :
    feed r (cs ++ ds) = (feed r cs).bind fun r' ↦ feed r' ds := List.foldlM_append

/-! ### Escaped text -/

/-- A character is one of the three that are escaped, or stays as it is. -/
theorem escapeChar_cases (c : Char) :
    c = '&' ∨ c = '<' ∨ c = '>' ∨ (c ≠ '&' ∧ c ≠ '<' ∧ c ≠ '>') ∧ (escapeChar c).toList = [c] := by
  by_cases hamp : c = '&'
  · exact .inl hamp
  by_cases hlt : c = '<'
  · exact .inr (.inl hlt)
  by_cases hgt : c = '>'
  · exact .inr (.inr (.inl hgt))
  have hplain : escapeChar c = c.toString := by simp [escapeChar, hamp, hlt, hgt]
  rw [hplain]
  exact .inr (.inr (.inr ⟨⟨hamp, hlt, hgt⟩, String.toList_singleton c⟩))

theorem escapeQuotedChar_of_ne {c : Char} (hc : c ≠ '"') : escapeQuotedChar c = escapeChar c :=
  if_neg (mt eq_of_beq hc)

/-- Escaping goes character by character. -/
theorem toList_escaped (s : String) :
    (escaped s).toList = s.toList.flatMap fun c ↦ (escapeChar c).toList := by
  rw [escaped, String.toList_join, List.flatMap_map]

theorem toList_escapedQuoted (s : String) :
    (escapedQuoted s).toList = s.toList.flatMap fun c ↦ (escapeQuotedChar c).toList := by
  rw [escapedQuoted, String.toList_join, List.flatMap_map]

/-- Replacing a character everywhere in a text. -/
def replaced (c : Char) (new s : String) : String :=
  String.join (s.toList.map fun d ↦ if d = c then new else d.toString)

/-- So does replacing a character. -/
theorem toList_replaced (c : Char) (new s : String) :
    (replaced c new s).toList = s.toList.flatMap fun d ↦ if d = c then new.toList else [d] := by
  rw [replaced, String.toList_join, List.flatMap_map]
  refine congrArg (fun f ↦ s.toList.flatMap f) (funext fun d ↦ ?_)
  split
  · rfl
  · exact String.toList_singleton d

/-- Escaping is one replacement after the other, the ampersand's first: those that follow find no
character of theirs in the references that stand already. -/
theorem escaped_eq_replaced (s : String) :
    escaped s = replaced '>' "&gt;" (replaced '<' "&lt;" (replaced '&' "&amp;" s)) := by
  refine String.toList_inj.1 ?_
  simp only [toList_escaped, toList_replaced, List.flatMap_assoc]
  refine congrArg (fun f ↦ s.toList.flatMap f) (funext fun c ↦ ?_)
  rcases escapeChar_cases c with rfl | rfl | rfl | ⟨⟨hamp, hlt, hgt⟩, hplain⟩
  · rfl
  · rfl
  · rfl
  · simp only [hplain, if_neg hamp, List.flatMap_singleton, if_neg hlt, if_neg hgt]

/-- The quote's replacement comes last. -/
theorem escapedQuoted_eq_replaced (s : String) :
    escapedQuoted s = replaced '"' "&quot;" (escaped s) := by
  refine String.toList_inj.1 ?_
  simp only [toList_escapedQuoted, toList_replaced, toList_escaped, List.flatMap_assoc]
  refine congrArg (fun f ↦ s.toList.flatMap f) (funext fun c ↦ ?_)
  by_cases hquote : c = '"'
  · subst hquote
    rfl
  rw [escapeQuotedChar_of_ne hquote]
  rcases escapeChar_cases c with rfl | rfl | rfl | ⟨-, hplain⟩
  · rfl
  · rfl
  · rfl
  · rw [hplain, List.flatMap_singleton, if_neg hquote]

/-- An escaped character is read as that character, but a quote in a value. -/
theorem feed_escapeChar (ts : List Token) {place : Place} (text : List Char) {c : Char}
    (hc : c ≠ '"' ∨ place = .content) :
    feed ⟨ts, .within place text⟩ (escapeChar c).toList =
      some ⟨ts, .within place (text ++ [c])⟩ := by
  rcases escapeChar_cases c with rfl | rfl | rfl | ⟨⟨hamp, hlt, hgt⟩, hplain⟩
  · cases place <;> rfl
  · cases place <;> rfl
  · cases place <;> rfl
  · have hstop : c ≠ place.stop := by
      cases place with
      | content => exact hlt
      | value => exact hc.resolve_right Place.noConfusion
    rw [hplain, feed_cons]
    simp [step, hstop, hamp, hlt, hgt]

/-- An escaped character is read back inside of a value. -/
theorem feed_escapeQuotedChar (ts : List Token) (tag : String)
    (attributes : List (String × String)) (name : String) (text : List Char) (c : Char) :
    feed ⟨ts, .within (.value tag attributes name) text⟩ (escapeQuotedChar c).toList =
      some ⟨ts, .within (.value tag attributes name) (text ++ [c])⟩ := by
  by_cases hquote : c = '"'
  · subst hquote
    rfl
  · rw [escapeQuotedChar_of_ne hquote]
    exact feed_escapeChar ts text (.inl hquote)

/-- An escape that stands for one character at a place, character by character. -/
theorem feed_flatMap {place : Place} {escape : Char → String} (ts : List Token)
    (hescape : ∀ text c, feed ⟨ts, .within place text⟩ (escape c).toList =
      some ⟨ts, .within place (text ++ [c])⟩) (cs text : List Char) :
    feed ⟨ts, .within place text⟩ (cs.flatMap fun c ↦ (escape c).toList) =
      some ⟨ts, .within place (text ++ cs)⟩ := by
  induction cs generalizing text with
  | nil => rw [List.flatMap_nil, feed_nil, List.append_nil]
  | cons c rest ih =>
    rw [List.flatMap_cons, feed_append, hescape, Option.bind_some, ih, List.append_assoc,
      List.singleton_append]

/-- An escaped text is read back. -/
theorem feed_escaped (ts : List Token) (text : List Char) (s : String) :
    feed (inContent (ts, text)) (escaped s).toList =
      some (inContent (ts, text ++ s.toList)) := by
  rw [toList_escaped]
  exact feed_flatMap ts (fun text _ ↦ feed_escapeChar ts text (.inr rfl)) s.toList text

/-- An escaped value is read back. -/
theorem feed_escapedQuoted (ts : List Token) (tag : String) (attributes : List (String × String))
    (name s : String) :
    feed ⟨ts, .within (.value tag attributes name) []⟩ (escapedQuoted s).toList =
      some ⟨ts, .within (.value tag attributes name) s.toList⟩ := by
  rw [toList_escapedQuoted]
  exact feed_flatMap ts (feed_escapeQuotedChar ts tag attributes name) s.toList []

/-! ### Tags -/

theorem feed_nameChars (ts : List Token) (what : Naming) (cs name : List Char)
    (hcs : cs.all isNameChar) :
    feed ⟨ts, .naming what name⟩ cs = some ⟨ts, .naming what (name ++ cs)⟩ := by
  induction cs generalizing name with
  | nil => rw [feed_nil, List.append_nil]
  | cons c rest ih =>
    rw [List.all_cons, Bool.and_eq_true] at hcs
    obtain ⟨hc, hrest⟩ := hcs
    have hstep : step ⟨ts, .naming what name⟩ c = some ⟨ts, .naming what (name ++ [c])⟩ := if_pos hc
    rw [feed_cons, hstep, Option.bind_some, ih _ hrest, List.append_assoc, List.singleton_append]

/-- A name is read to its end. -/
theorem feed_name (ts : List Token) (what : Naming) {name : String} (hname : isName name) :
    feed ⟨ts, .naming what []⟩ name.toList = some ⟨ts, .naming what name.toList⟩ :=
  feed_nameChars ts what name.toList [] (Bool.and_eq_true_iff.1 hname).2

/-- After a name stands what cannot belong to it. -/
theorem step_naming (ts : List Token) (what : Naming) {name : String} (hname : isName name)
    {c : Char} (hc : isNameChar c = false) :
    step ⟨ts, .naming what name.toList⟩ c = named ts name c what := by
  obtain ⟨hfilled, -⟩ := Bool.and_eq_true_iff.1 hname
  have hne : name.toList.isEmpty = false := by simpa using hfilled
  simp [step, hc, hne]

/-- A stage at which an opening tag may end or go on, with this name and these attributes. -/
def Pausing (stage : Stage) (tag : String) (attributes : List (String × String)) : Prop :=
  ∀ ts c, c = ' ' ∨ c = '>' → step ⟨ts, stage⟩ c = proceed ts tag attributes c

/-- After its name, a tag may end. -/
theorem pausing_opening {tag : String} (htag : isName tag) :
    Pausing (.naming .opening tag.toList) tag [] := by
  intro ts c hc
  have hend : isNameChar c = false := by rcases hc with rfl | rfl <;> rfl
  rw [step_naming ts .opening htag hend, named]

theorem pausing_valued (tag : String) (attributes : List (String × String)) :
    Pausing (.valued tag attributes) tag attributes := fun _ _ _ ↦ rfl

/-- So it may after the name of an attribute. -/
theorem pausing_attribute (tag : String) (attributes : List (String × String)) {name : String}
    (hname : isName name) :
    Pausing (.naming (.attribute tag attributes) name.toList) tag (attributes ++ [(name, "")]) := by
  intro ts c hc
  have hend : isNameChar c = false := by rcases hc with rfl | rfl <;> rfl
  have hne : c ≠ '=' := by rcases hc with rfl | rfl <;> decide
  rw [step_naming ts (.attribute tag attributes) hname hend, named, if_neg hne]

/-- A written attribute leads from one pause to the next. -/
theorem feed_attributeHtml {stage : Stage} {tag : String} {attributes : List (String × String)}
    (hstage : Pausing stage tag attributes) (ts : List Token) {entry : String × String}
    (hentry : isName entry.1) :
    ∃ next, Pausing next tag (attributes ++ [entry]) ∧
      feed ⟨ts, stage⟩ (attributeHtml entry).toList = some ⟨ts, next⟩ := by
  obtain ⟨name, value⟩ := entry
  have hspace : step ⟨ts, stage⟩ ' ' = some ⟨ts, .naming (.attribute tag attributes) []⟩ :=
    hstage ts ' ' (.inl rfl)
  have hname := feed_name ts (.attribute tag attributes) hentry
  by_cases hvalue : value = ""
  · subst hvalue
    refine ⟨_, pausing_attribute tag attributes hentry, ?_⟩
    simp [attributeHtml, hspace, hname]
  · refine ⟨_, pausing_valued tag (attributes ++ [(name, value)]), ?_⟩
    have hequals : step ⟨ts, .naming (.attribute tag attributes) name.toList⟩ '=' =
        some ⟨ts, .assigned tag attributes name⟩ :=
      step_naming ts (.attribute tag attributes) hentry (by decide)
    have hopen : step ⟨ts, .assigned tag attributes name⟩ '"' =
        some ⟨ts, .within (.value tag attributes name) []⟩ := rfl
    have hclose : step ⟨ts, .within (.value tag attributes name) value.toList⟩ '"' =
        some ⟨ts, .valued tag (attributes ++ [(name, String.ofList value.toList)])⟩ := rfl
    rw [String.ofList_toList] at hclose
    simp [attributeHtml, hvalue, hspace, feed_append, hname, hequals, hopen, feed_escapedQuoted,
      hclose]

/-- All attributes are read back, and the tag ends. -/
theorem feed_attributesHtml (ts : List Token) {tag : String} (added : List (String × String))
    (hadded : ∀ entry ∈ added, isName entry.1) {stage : Stage}
    {attributes : List (String × String)} (hstage : Pausing stage tag attributes) :
    feed ⟨ts, stage⟩ ((added.flatMap fun entry ↦ (attributeHtml entry).toList) ++ ['>']) =
      some (inContent (ts ++ [.opening tag (attributes ++ added)], [])) := by
  induction added generalizing stage attributes with
  | nil => simp [hstage ts '>' (.inr rfl), proceed]
  | cons entry rest ih =>
    obtain ⟨hentry, hrest⟩ := List.forall_mem_cons.1 hadded
    obtain ⟨next, hnext, hfeed⟩ := feed_attributeHtml hstage ts hentry
    rw [List.flatMap_cons, List.append_assoc, feed_append, hfeed, Option.bind_some,
      ih hrest hnext, List.append_assoc, List.singleton_append]

/-- An opening tag is read back. -/
theorem feed_openingHtml (ts : List Token) (text : List Char) {tag : String} (htag : isName tag)
    {attributes : List (String × String)} (hattributes : ∀ entry ∈ attributes, isName entry.1) :
    feed (inContent (ts, text)) (openingHtml tag attributes).toList =
      some (inContent (flushed ts text ++ [.opening tag attributes], [])) := by
  have hstart : step (inContent (ts, text)) '<' =
      some ⟨flushed ts text, .naming .opening []⟩ := rfl
  have hrest := feed_attributesHtml (flushed ts text) attributes hattributes (pausing_opening htag)
  simpa [openingHtml, String.toList_join, List.flatMap_map, feed_append, hstart,
    feed_name _ _ htag] using hrest

/-- A closing tag is read back. -/
theorem feed_closingHtml (ts : List Token) (text : List Char) {tag : String} (htag : isName tag) :
    feed (inContent (ts, text)) (closingHtml tag).toList =
      some (inContent (flushed ts text ++ [.closing tag], [])) := by
  have hstart : step (inContent (ts, text)) '<' =
      some ⟨flushed ts text, .naming .opening []⟩ := rfl
  have hslash : step ⟨flushed ts text, .naming .opening []⟩ '/' =
      some ⟨flushed ts text, .naming .closing []⟩ := rfl
  have hend : step ⟨flushed ts text, .naming .closing tag.toList⟩ '>' =
      some (inContent (flushed ts text ++ [.closing tag], [])) :=
    step_naming (flushed ts text) .closing htag (by decide)
  simp [closingHtml, feed_append, hstart, hslash, feed_name _ _ htag, hend]

/-! ### Views -/

/-- What a token adds to what is read. -/
def absorb (seen : List Token × List Char) : Token → List Token × List Char
  | .text value => (seen.1, seen.2 ++ value.toList)
  | t => (flushed seen.1 seen.2 ++ [t], [])

theorem flushed_eq_prepend (ts : List Token) (text : List Char) :
    flushed ts text = ts ++ prepend (String.ofList text) [] := by
  by_cases htext : text = [] <;> simp [flushed, prepend, htext]

/-- Absorbing tokens merges them. -/
theorem flushed_foldl_absorb (us ts : List Token) (text : List Char) :
    flushed (us.foldl absorb (ts, text)).1 (us.foldl absorb (ts, text)).2 =
      ts ++ prepend (String.ofList text) (merged us) := by
  induction us generalizing ts text with
  | nil => exact flushed_eq_prepend ts text
  | cons u rest ih =>
    rw [List.foldl_cons]
    cases u with
    | text value =>
      rw [absorb, ih, merged, prepend_prepend, String.ofList_append, String.ofList_toList]
    | opening | closing =>
      simp only [absorb, ih, flushed_eq_prepend, merged]
      rw [prepend_cons_tag (String.ofList text) rfl]
      simp

/-- To a reader in the content this HTML does what these tokens do. -/
def Decodes (html : String) (us : List Token) : Prop :=
  ∀ seen, feed (inContent seen) html.toList = some (inContent (us.foldl absorb seen))

/-- Texts that are read back are so one behind the other. -/
theorem Decodes.append {html more : String} {us vs : List Token} (hhtml : Decodes html us)
    (hmore : Decodes more vs) : Decodes (html ++ more) (us ++ vs) := by
  intro seen
  rw [String.toList_append, feed_append, hhtml seen, Option.bind_some, hmore, List.foldl_append]

theorem decodes_empty : Decodes "" [] := fun _ ↦ rfl

theorem decodes_escaped (value : String) : Decodes (escaped value) [.text value] :=
  fun seen ↦ feed_escaped seen.1 seen.2 value

theorem decodes_opening {tag : String} (htag : isName tag) {attributes : List (String × String)}
    (hattributes : ∀ entry ∈ attributes, isName entry.1) :
    Decodes (openingHtml tag attributes) [.opening tag attributes] :=
  fun seen ↦ feed_openingHtml seen.1 seen.2 htag hattributes

theorem decodes_closing {tag : String} (htag : isName tag) :
    Decodes (closingHtml tag) [.closing tag] :=
  fun seen ↦ feed_closingHtml seen.1 seen.2 htag

mutual

/-- A view is read back, by recursion over it together with its children. -/
theorem decodes_html : (n : Node) → n.wellNamed → Decodes n.html n.tokens
  | .text value, _ => decodes_escaped value
  | .element tag attributes _ children, hnamed => by
    simp only [Node.wellNamed, Bool.and_eq_true, List.all_eq_true] at hnamed
    obtain ⟨⟨htag, hattributes⟩, hchildren⟩ := hnamed
    have hopening := decodes_opening htag hattributes
    rw [Node.html, Node.tokens]
    cases isVoid tag with
    | true => exact hopening.append decodes_empty
    | false =>
      exact hopening.append ((decodes_listHtml children hchildren).append (decodes_closing htag))
  | .component name props _ children, hnamed => by
    simp only [Node.wellNamed, Bool.and_eq_true, List.all_eq_true] at hnamed
    obtain ⟨⟨hname, hprops⟩, hchildren⟩ := hnamed
    have hopening := decodes_opening hname (List.forall_mem_map.2 hprops :
      ∀ entry ∈ props.map fun (k, v) ↦ (k, propText v), isName entry.1)
    rw [Node.html, Node.tokens, String.append_assoc]
    exact hopening.append ((decodes_listHtml children hchildren).append (decodes_closing hname))

theorem decodes_listHtml :
    (ns : List Node) → listWellNamed ns → Decodes (listHtml ns) (listTokens ns)
  | [], _ => decodes_empty
  | n :: rest, hnamed => by
    rw [listWellNamed, Bool.and_eq_true] at hnamed
    exact (decodes_html n hnamed.1).append (decodes_listHtml rest hnamed.2)

end

/-- What is decoded is what the reader gives. -/
theorem read_of_decodes {html : String} {us : List Token} (hhtml : Decodes html us) :
    read html = some (merged us) := by
  rw [read, hhtml, Option.bind_some]
  exact congrArg some ((flushed_foldl_absorb us [] []).trans (prepend_empty (merged us)))

/-- A view with names that may stand in a tag is read back from its HTML as its tokens, adjacent
texts as one and no empty ones; and a view of the same outline, whatever its texts, attributes'
values and properties are, is read back with the same tags. -/
theorem html_reads_back (ns : List Node) (hnamed : listWellNamed ns) :
    read (listHtml ns) = some (merged (listTokens ns)) ∧
      ∀ ms, listOutline ms = listOutline ns →
        (read (listHtml ms)).map tags = some (tags (listTokens ns)) := by
  refine ⟨read_of_decodes (decodes_listHtml ns hnamed), fun ms houtline ↦ ?_⟩
  have hms : listWellNamed ms := by
    rw [← listWellNamed_outline ms, houtline, listWellNamed_outline, hnamed]
  rw [read_of_decodes (decodes_listHtml ms hms), Option.map_some, tags_merged,
    ← tags_listTokens_outline ms, houtline, tags_listTokens_outline]

/-- A button with a text that looks like tags, a line break and a component. -/
def intrusive : List Node :=
  [.element "button" [("disabled", ""), ("title", "a \"b\" <c> &amp;")] [("click", 0)]
      [.text "", .text "</button>", .text "<b>&lt;", .element "BR" [] [] [.text "left out"]],
    .component "User-Card" [("active", .bool true), ("name", .string "\">"), ("tags", .array [])] []
      [.text "1 < 2"]]

/-- The same view with other texts. -/
def plain : List Node :=
  [.element "button" [("disabled", "off"), ("title", "")] []
      [.text "Save", .element "BR" [] [] []],
    .component "User-Card" [("active", .null), ("name", .string "Ann"), ("tags", .string "")] [] []]

theorem html_reads_back_intrusive :
    listWellNamed intrusive ∧
      read (listHtml intrusive) = some
        [.opening "button" [("disabled", ""), ("title", "a \"b\" <c> &amp;")],
          .text "</button><b>&lt;", .opening "BR" [], .closing "button",
          .opening "User-Card" [("active", "true"), ("name", "\">"), ("tags", "[]")],
          .text "1 < 2", .closing "User-Card"] ∧
      (read (listHtml plain)).map tags = some
        [.opening "button" [("disabled", ""), ("title", "")], .opening "BR" [], .closing "button",
          .opening "User-Card" [("active", ""), ("name", ""), ("tags", "")],
          .closing "User-Card"] := by
  have hnamed : listWellNamed intrusive := by decide +kernel
  obtain ⟨hread, hsame⟩ := html_reads_back intrusive hnamed
  refine ⟨hnamed, hread.trans ?_, (hsame plain rfl).trans ?_⟩
  · decide +kernel
  · decide +kernel

end Nodecraft.View
