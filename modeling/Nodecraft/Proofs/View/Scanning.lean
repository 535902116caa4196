import Nodecraft.Markup.Lexer
import Nodecraft.Proofs.View.Decoding
import Nodecraft.Template.Tag

/-!
# The tags that HTML is scanned for

A scanner takes a document character by character as HTML does (`step`) and refuses nothing: a tag
begins with `<` and a letter, white space, slashes and attributes follow its name in any way, and a
`>` ends it except in a quoted value. It collects the tags with the names of their attributes, and
leaves texts, values and references alone.

The HTML of a view whose tags and names are spelled without white space and without any of
`< > " ' = /` is scanned for the tags of the view (`tagsIn_listHtml`): an escaped text has no `<`
(`lt_not_mem_escaped`), an escaped value no `"` (`quote_not_mem_escapedQuoted`), and a written
attribute leads from one pause in a tag to the next (`scan_attributeHtml`). A name must not be
empty: ` ="= 'x"` begins a single-quoted value.
-/

set_option autoImplicit false

namespace Nodecraft.View

/-- Whether a name has neither white space nor any of `< > " ' = /`. -/
def isSpelled (name : String) : Bool := name.toList.all Template.Tag.isAttributeChar

/-- Whether a tag's name is spelled so and begins with a letter. -/
def isTagName (name : String) : Bool := name.toList.head?.any Char.isAlpha && isSpelled name

/-! ### The scanner -/

/-- A tag that has been begun. -/
structure Begun where
  closing : Bool
  name : String
  attributes : List (String × String)

namespace Begun

def withAttribute (t : Begun) (name : List Char) : Begun :=
  { t with attributes := t.attributes ++ [(String.ofList name, "")] }

def token (t : Begun) : Token :=
  if t.closing then .closing t.name else .opening t.name t.attributes

end Begun

/-- Where in a document a scanner is. -/
inductive Spot
  | content
  /-- Behind `<`. -/
  | bracket
  /-- Behind `</`. -/
  | slash
  /-- In what is neither text nor a tag. -/
  | aside
  | name (closing : Bool) (name : List Char)
  /-- Before an attribute. -/
  | gap (t : Begun)
  /-- In the name of an attribute. -/
  | entry (t : Begun) (name : List Char)
  /-- Behind the name of an attribute. -/
  | behind (t : Begun)
  /-- Behind the equals sign of an attribute. -/
  | assigned (t : Begun)
  | quoted (t : Begun) (quote : Char)
  | bare (t : Begun)

namespace Spot

open Markup.Lexer (isSpace)

/-- A character between the attributes of a tag. -/
def between (t : Begun) (c : Char) : List Token × Spot :=
  if c = '>' then ([t.token], content)
  else if isSpace c ∨ c = '/' then ([], gap t)
  else ([], entry t [c])

def step : Spot → Char → List Token × Spot
  | content, c => ([], if c = '<' then bracket else content)
  | bracket, c =>
    if c.isAlpha then ([], name false [c])
    else if c = '/' then ([], slash)
    else if c = '!' ∨ c = '?' then ([], aside)
    else ([], if c = '<' then bracket else content)
  | slash, c =>
    if c.isAlpha then ([], name true [c]) else ([], if c = '>' then content else aside)
  | aside, c => ([], if c = '>' then content else aside)
  | name closing cs, c =>
    if c = '>' ∨ isSpace c ∨ c = '/' then between ⟨closing, String.ofList cs, []⟩ c
    else ([], name closing (cs ++ [c]))
  | gap t, c => between t c
  | entry t cs, c =>
    if c = '=' then ([], assigned (t.withAttribute cs))
    else if isSpace c then ([], behind (t.withAttribute cs))
    else if c = '>' ∨ c = '/' then between (t.withAttribute cs) c
    else ([], entry t (cs ++ [c]))
  | behind t, c =>
    if c = '=' then ([], assigned t) else if isSpace c then ([], behind t) else between t c
  | assigned t, c =>
    if c = '"' ∨ c = '\'' then ([], quoted t c)
    else if isSpace c then ([], assigned t)
    else if c = '>' then between t c
    else ([], bare t)
  | quoted t quote, c => ([], if c = quote then gap t else quoted t quote)
  | bare t, c => if c = '>' ∨ isSpace c then between t c else ([], bare t)

/-- The tags in a text and where it leads. -/
def scan (s : Spot) : List Char → List Token × Spot
  | [] => ([], s)
  | c :: cs => ((s.step c).1 ++ (scan (s.step c).2 cs).1, (scan (s.step c).2 cs).2)

end Spot

open Spot (scan step between)

/-- The tags of a document with the names of their attributes. -/
def tagsIn (document : String) : List Token := (scan .content document.toList).1

/-- Texts in a row are scanned one after the other. -/
theorem scan_append (s : Spot) (cs ds : List Char) :
    s.scan (cs ++ ds) =
      ((s.scan cs).1 ++ ((s.scan cs).2.scan ds).1, ((s.scan cs).2.scan ds).2) := by
  induction cs generalizing s with
  | nil => rfl
  | cons c cs ih => simp only [List.cons_append, scan, ih, List.append_assoc]

/-- A character that changes nothing, again and again. -/
theorem scan_of_step_eq {s : Spot} {cs : List Char} (h : ∀ c ∈ cs, s.step c = ([], s)) :
    s.scan cs = ([], s) := by
  induction cs with
  | nil => rfl
  | cons c cs ih =>
    obtain ⟨hc, hcs⟩ := List.forall_mem_cons.1 h
    rw [scan, hc, ih hcs]
    rfl

/-! ### Texts and values -/

/-- Escaped text begins no tag. -/
theorem lt_not_mem_escaped (value : String) : '<' ∉ (escaped value).toList := by
  rw [toList_escaped, List.mem_flatMap]
  rintro ⟨c, -, hc⟩
  rcases escapeChar_cases c with rfl | rfl | rfl | ⟨⟨-, hne, -⟩, hplain⟩
  · revert hc
    decide
  · revert hc
    decide
  · revert hc
    decide
  · rw [hplain] at hc
    exact hne (List.mem_singleton.1 hc).symm

/-- An escaped value does not end its quotes. -/
theorem quote_not_mem_escapedQuoted (value : String) : '"' ∉ (escapedQuoted value).toList := by
  rw [toList_escapedQuoted, List.mem_flatMap]
  rintro ⟨c, -, hc⟩
  by_cases hquote : c = '"'
  · subst hquote
    revert hc
    decide
  rw [escapeQuotedChar_of_ne hquote] at hc
  rcases escapeChar_cases c with rfl | rfl | rfl | ⟨-, hplain⟩
  · revert hc
    decide
  · revert hc
    decide
  · revert hc
    decide
  · rw [hplain] at hc
    exact hquote (List.mem_singleton.1 hc).symm

/-- Escaped text has no tags. -/
theorem scan_escaped (value : String) :
    scan .content (escaped value).toList = ([], .content) := by
  refine scan_of_step_eq fun c hc ↦ ?_
  have hne : c ≠ '<' := fun heq ↦ lt_not_mem_escaped value (heq ▸ hc)
  simp [step, hne]

/-- An escaped value stays within its quotes. -/
theorem scan_escapedQuoted (t : Begun) (value : String) :
    scan (.quoted t '"') (escapedQuoted value).toList = ([], .quoted t '"') := by
  refine scan_of_step_eq fun c hc ↦ ?_
  have hne : c ≠ '"' := fun heq ↦ quote_not_mem_escapedQuoted value (heq ▸ hc)
  simp [step, hne]

/-! ### Names -/

/-- What a spelled name's character is not. -/
structure Plain (c : Char) : Prop where
  space : Markup.Lexer.isSpace c = false
  slash : c ≠ '/'
  stop : c ≠ '>'
  equals : c ≠ '='

theorem plain_of_isAttributeChar {c : Char} (h : Template.Tag.isAttributeChar c = true) :
    Plain c := by
  have hspace : Markup.Lexer.isSpace c = true → Text.isBlank c = true := by
    simp only [Markup.Lexer.isSpace, Bool.or_eq_true, beq_iff_eq]
    rintro ((((rfl | rfl) | rfl) | rfl) | rfl) <;> decide
  simp only [Template.Tag.isAttributeChar, Bool.not_eq_true', Bool.or_eq_false_iff,
    beq_eq_false_iff_ne] at h
  obtain ⟨⟨⟨⟨⟨⟨hblank, -⟩, -⟩, -⟩, hstop⟩, hslash⟩, hequals⟩ := h
  exact ⟨by simpa [hblank] using hspace, hslash, hstop, hequals⟩

/-- A tag's name is read to its end. -/
theorem scan_name (closing : Bool) (name cs : List Char)
    (hcs : cs.all Template.Tag.isAttributeChar) :
    scan (.name closing name) cs = ([], .name closing (name ++ cs)) := by
  induction cs generalizing name with
  | nil => rw [List.append_nil]; rfl
  | cons c cs ih =>
    obtain ⟨hc, hcs⟩ := Bool.and_eq_true_iff.1 hcs
    have hplain := plain_of_isAttributeChar hc
    have hstep : step (.name closing name) c = ([], .name closing (name ++ [c])) := by
      simp [step, hplain.space, hplain.slash, hplain.stop]
    rw [scan, hstep, ih _ hcs]
    simp

/-- So is an attribute's. -/
theorem scan_entry (t : Begun) (name cs : List Char)
    (hcs : cs.all Template.Tag.isAttributeChar) :
    scan (.entry t name) cs = ([], .entry t (name ++ cs)) := by
  induction cs generalizing name with
  | nil => rw [List.append_nil]; rfl
  | cons c cs ih =>
    obtain ⟨hc, hcs⟩ := Bool.and_eq_true_iff.1 hcs
    have hplain := plain_of_isAttributeChar hc
    have hstep : step (.entry t name) c = ([], .entry t (name ++ [c])) := by
      simp [step, hplain.space, hplain.slash, hplain.stop, hplain.equals]
    rw [scan, hstep, ih _ hcs]
    simp

/-- A tag's name behind its bracket, or behind the slash of a closing tag. -/
theorem scan_tagName {s : Spot} {closing : Bool}
    (hs : ∀ c : Char, c.isAlpha → s.step c = ([], .name closing [c])) {tag : String}
    (htag : isTagName tag) : s.scan tag.toList = ([], .name closing tag.toList) := by
  obtain ⟨hfirst, hspelled⟩ := Bool.and_eq_true_iff.1 htag
  unfold isSpelled at hspelled
  cases hcs : tag.toList with
  | nil => rw [hcs] at hfirst; cases hfirst
  | cons c cs =>
    rw [hcs] at hfirst hspelled
    rw [scan, hs c hfirst, scan_name closing [c] cs (Bool.and_eq_true_iff.1 hspelled).2]
    rfl

/-! ### Tags -/

/-- The space before an attribute is one to HTML, and the end of a tag is not. -/
@[simp] theorem isSpace_space : Markup.Lexer.isSpace ' ' = true := rfl

@[simp] theorem isSpace_stop : Markup.Lexer.isSpace '>' = false := rfl

/-- A spot at which a tag may end or go on. -/
structure Rests (s : Spot) (t : Begun) : Prop where
  ends : s.step '>' = ([t.token], .content)
  continues {c : Char} : Plain c → s.scan [' ', c] = ([], .entry t [c])

theorem rests_name (tag : String) :
    Rests (.name false tag.toList) ⟨false, tag, []⟩ where
  ends := by simp [step, between]
  continues hc := by
    simp [scan, step, between, hc.space, hc.slash, hc.stop]

theorem rests_gap (t : Begun) : Rests (.gap t) t where
  ends := by simp [step, between]
  continues hc := by
    simp [scan, step, between, hc.space, hc.slash, hc.stop]

theorem rests_entry (t : Begun) (name : List Char) :
    Rests (.entry t name) (t.withAttribute name) where
  ends := by simp [step, between]
  continues hc := by
    simp [scan, step, between, hc.space, hc.slash, hc.stop, hc.equals]

/-- A written attribute leads from one spot to the next. -/
theorem scan_attributeHtml {s : Spot} {t : Begun} (hs : Rests s t) {entry : String × String}
    (hfilled : entry.1 ≠ "") (hspelled : isSpelled entry.1) :
    ∃ s', Rests s' (t.withAttribute entry.1.toList) ∧
      s.scan (attributeHtml entry).toList = ([], s') := by
  obtain ⟨name, value⟩ := entry
  unfold isSpelled at hspelled
  dsimp only at hfilled hspelled ⊢
  have hbegun : s.scan (' ' :: name.toList) = ([], .entry t name.toList) := by
    cases hcs : name.toList with
    | nil => exact absurd (String.toList_inj.1 hcs) hfilled
    | cons c cs =>
      rw [hcs] at hspelled
      obtain ⟨hc, hcs⟩ := Bool.and_eq_true_iff.1 hspelled
      have hfirst := hs.continues (plain_of_isAttributeChar hc)
      have hsplit : ' ' :: c :: cs = [' ', c] ++ cs := rfl
      rw [hsplit, scan_append, hfirst, scan_entry t [c] cs hcs]
      rfl
  by_cases hvalue : value = ""
  · subst hvalue
    refine ⟨_, rests_entry t name.toList, ?_⟩
    simpa [attributeHtml] using hbegun
  · have hquote : scan (.entry t name.toList) ['=', '"'] =
        ([], .quoted (t.withAttribute name.toList) '"') := by
      simp [scan, step]
    have hend : scan (.quoted (t.withAttribute name.toList) '"') ['"'] =
        ([], .gap (t.withAttribute name.toList)) := by
      simp [scan, step]
    refine ⟨_, rests_gap _, ?_⟩
    have hhtml : (attributeHtml (name, value)).toList =
        ' ' :: name.toList ++ (['=', '"'] ++ ((escapedQuoted value).toList ++ ['"'])) := by
      simp [attributeHtml, hvalue]
    rw [hhtml, scan_append, hbegun, scan_append, hquote, scan_append, scan_escapedQuoted, hend]
    rfl

/-- All attributes belong to the tag, and it ends with them. -/
theorem scan_attributesHtml (added : List (String × String))
    (hadded : ∀ entry ∈ added, entry.1 ≠ "" ∧ isSpelled entry.1) {s : Spot} {t : Begun}
    (hs : Rests s t) :
    s.scan ((added.flatMap fun e ↦ (attributeHtml e).toList) ++ ['>']) =
      ([{ t with attributes := t.attributes ++ added.map fun e : String × String ↦ (e.1, "") }.token],
        .content) := by
  induction added generalizing s t with
  | nil => simp [scan, hs.ends]
  | cons entry rest ih =>
    obtain ⟨⟨hfilled, hspelled⟩, hrest⟩ := List.forall_mem_cons.1 hadded
    obtain ⟨s', hs', hscan⟩ := scan_attributeHtml hs hfilled hspelled
    rw [List.flatMap_cons, List.append_assoc, scan_append, hscan, ih hrest hs']
    simp [Begun.withAttribute]

/-- A scanner in the content takes this HTML for these tags. -/
def Scans (html : String) (ts : List Token) : Prop := scan .content html.toList = (ts, .content)

/-- What is scanned in parts is scanned as a whole. -/
theorem Scans.append {html more : String} {ts us : List Token} (hhtml : Scans html ts)
    (hmore : Scans more us) : Scans (html ++ more) (ts ++ us) := by
  unfold Scans
  rw [String.toList_append, scan_append, hhtml, hmore]

theorem scans_empty : Scans "" [] := rfl

/-- An opening tag is one. -/
theorem scans_opening {tag : String} (htag : isTagName tag) {attributes : List (String × String)}
    (hattributes : ∀ entry ∈ attributes, entry.1 ≠ "" ∧ isSpelled entry.1) :
    Scans (openingHtml tag attributes) (tags [.opening tag attributes]) := by
  have hname : scan .bracket tag.toList = ([], .name false tag.toList) :=
    scan_tagName (fun c hc ↦ by simp [step, hc]) htag
  have hrest := scan_attributesHtml attributes hattributes (rests_name tag)
  have hhtml : (openingHtml tag attributes).toList = ['<'] ++ (tag.toList ++
      ((attributes.flatMap fun e ↦ (attributeHtml e).toList) ++ ['>'])) := by
    simp [openingHtml, String.toList_join, List.flatMap_map]
  have hbracket : scan .content ['<'] = ([], .bracket) := rfl
  unfold Scans
  rw [hhtml, scan_append, hbracket, scan_append, hname, hrest]
  simp [Begun.token]

/-- A closing tag is one. -/
theorem scans_closing {tag : String} (htag : isTagName tag) :
    Scans (closingHtml tag) [.closing tag] := by
  have hname : scan .slash tag.toList = ([], .name true tag.toList) :=
    scan_tagName (fun c hc ↦ by simp [step, hc]) htag
  have hhtml : (closingHtml tag).toList = ['<', '/'] ++ (tag.toList ++ ['>']) := by
    simp [closingHtml]
  have hbrackets : scan .content ['<', '/'] = ([], .slash) := rfl
  unfold Scans
  rw [hhtml, scan_append, hbrackets, scan_append, hname]
  simp [scan, step, between, Begun.token]

/-! ### Views -/

/-- What stands in the tag of an element or a component: its name, and the names of its attributes
or properties. -/
structure Head where
  tag : String
  names : List String

/-- Whether all names in a tag are spelled. -/
def Head.isSpelled (head : Head) : Bool :=
  isTagName head.tag && head.names.all fun name ↦ name != "" && View.isSpelled name

mutual

/-- The heads of a node and of everything in it. -/
def Node.heads : Node → List Head
  | .text _ => []
  | .element tag attributes _ children =>
    ⟨tag, attributes.map Prod.fst⟩ :: listHeads children
  | .component name props _ children => ⟨name, props.map Prod.fst⟩ :: listHeads children

def listHeads : List Node → List Head
  | [] => []
  | n :: rest => n.heads ++ listHeads rest

end

theorem listHeads_append (ns ms : List Node) :
    listHeads (ns ++ ms) = listHeads ns ++ listHeads ms := by
  induction ns with
  | nil => rfl
  | cons n rest ih => rw [List.cons_append, listHeads, listHeads, ih, List.append_assoc]

/-- An opening tag whose head is spelled as names are. -/
theorem scans_opening_of_head {tag : String} {attributes : List (String × String)}
    {names : List String} (hnames : names = attributes.map Prod.fst)
    (hhead : (⟨tag, names⟩ : Head).isSpelled) :
    Scans (openingHtml tag attributes) (tags [.opening tag attributes]) := by
  obtain ⟨htag, hall⟩ := Bool.and_eq_true_iff.1 hhead
  refine scans_opening htag fun entry hentry ↦ ?_
  have hname := List.all_eq_true.1 hall entry.1 (hnames ▸ List.mem_map_of_mem hentry)
  simpa using hname

mutual

/-- The tags of a text are those of its view, by recursion over it together with its children. -/
theorem scans_html : (n : Node) → (∀ head ∈ n.heads, head.isSpelled) →
    Scans n.html (tags n.tokens)
  | .text value, _ => scan_escaped value
  | .element tag attributes _ children, hheads => by
    simp only [Node.heads, List.forall_mem_cons] at hheads
    have hopening := scans_opening_of_head rfl hheads.1
    have hclosing := scans_closing (Bool.and_eq_true_iff.1 hheads.1).1
    rw [Node.html, Node.tokens]
    cases isVoid tag with
    | true => simpa using hopening.append scans_empty
    | false => simpa using hopening.append ((scans_listHtml children hheads.2).append hclosing)
  | .component name props _ children, hheads => by
    simp only [Node.heads, List.forall_mem_cons] at hheads
    have hnames : props.map Prod.fst = (props.map fun (k, v) ↦ (k, propText v)).map Prod.fst := by
      rw [List.map_map]
      rfl
    have hopening := scans_opening_of_head hnames hheads.1
    have hclosing := scans_closing (Bool.and_eq_true_iff.1 hheads.1).1
    rw [Node.html, Node.tokens, String.append_assoc]
    simpa using hopening.append ((scans_listHtml children hheads.2).append hclosing)

/-- The HTML of a view with spelled names is scanned for the tags of the view. -/
theorem scans_listHtml : (ns : List Node) → (∀ head ∈ listHeads ns, head.isSpelled) →
    Scans (listHtml ns) (tags (listTokens ns))
  | [], _ => scans_empty
  | n :: rest, hheads => by
    simp only [listHeads, List.forall_mem_append] at hheads
    rw [listTokens, tags_append]
    exact (scans_html n hheads.1).append (scans_listHtml rest hheads.2)

end

/-- The tags of what is written are those of the view. -/
theorem tagsIn_listHtml {ns : List Node} (hheads : ∀ head ∈ listHeads ns, head.isSpelled) :
    tagsIn (listHtml ns) = tags (listTokens ns) :=
  congrArg Prod.fst (scans_listHtml ns hheads)

/-- An empty name hides the end of its tag. -/
example : tagsIn (listHtml [.element "p" [("", "= 'x")] [] []]) = [] := by decide +kernel

end Nodecraft.View
