import Mathlib.Data.List.TakeWhile
import Nodecraft.Definition.Blocks
import Nodecraft.Proofs.Compiler.History
import Nodecraft.Proofs.Template.TagGrammar

/-!
# Blocks of a definition

Any markup can be put between `<template>` and `</template>` to stand beside logic. A block ends
at the first closing tag of its name, and so does not know of the template elements that markup
may have within it. What comes back from the block is the markup without the blanks at its ends
exactly if no closing tag of a template stands in the markup, and it is then compiled to what it
is compiled to on its own (`wrapped_delivers`). Otherwise the block is what stands before the
first such tag.

No tag is put together from the end of the markup and the closing tag behind it: names of blocks
have no `<` (`dropName?_append`), so that every tag that begins in the markup also ends there
(`isClosing_append`, `opens_append`).

A definition may hold its blocks in either order, with attributes in their opening tags and with any
text around them. Both are found as a whole (`blocks_found`) if no tag of a block is begun in the
texts before, between and within them: no such tag is put together where two texts meet, since each
tag begins with a `<` and its name has neither that nor the `>` at the end of a tag. What stands
behind the two blocks does not matter, not even if it holds more of them.
-/

set_option autoImplicit false

namespace Nodecraft.Definition

/-! ### Tags of a text that another tag follows -/

/-- Whether a closing tag stands anywhere. -/
def closes (name : List Char) : List Char → Bool
  | [] => false
  | c :: cs => isClosing name (c :: cs) || closes name cs

section Following

variable {name : List Char}

/-- No name goes on behind a character that it does not have. -/
theorem dropName?_append {stop : Char} (hstop : ∀ letter ∈ name, isLetter letter stop = false)
    (cs rest : List Char) :
    dropName? name (cs ++ stop :: rest) = (dropName? name cs).map (· ++ stop :: rest) := by
  induction name generalizing cs with
  | nil => rfl
  | cons letter name ih =>
    cases cs with
    | nil => simp [dropName?, hstop letter (List.mem_cons_self ..)]
    | cons c cs =>
      have ih := ih (fun l hl ↦ hstop l (List.mem_cons_of_mem _ hl)) cs
      simp only [List.cons_append, dropName?]
      split
      · exact ih
      · rfl

/-- Where the text between ends a tag's name, tags open on either side or not at all. -/
theorem opens_append {stop : Char} (hstop : ∀ letter ∈ name, isLetter letter stop = false)
    (cs rest : List Char) :
    opens name (cs ++ stop :: rest) = (opens name cs || opens name (stop :: rest)) := by
  induction cs with
  | nil => rfl
  | cons c cs ih =>
    rw [List.cons_append, opens, opens, ih, dropName?_append hstop, Option.isSome_map,
      Bool.or_assoc]

theorem head?_dropWhile_isBlank_append (cs rest : List Char) :
    (((cs ++ '<' :: rest).dropWhile Text.isBlank).head? == some '>') =
      ((cs.dropWhile Text.isBlank).head? == some '>') := by
  induction cs with
  | nil => rfl
  | cons c cs ih =>
    simp only [List.cons_append, List.dropWhile_cons]
    split
    · exact ih
    · rfl

variable (hname : ∀ letter ∈ name, isLetter letter '<' = false)
include hname

/-- A closing tag that begins in a text is whole before a tag that follows. -/
theorem isClosing_append (c : Char) (cs rest : List Char) :
    isClosing name (c :: cs ++ '<' :: rest) = isClosing name (c :: cs) := by
  by_cases hopen : c = '<'
  · subst hopen
    cases cs with
    | nil => rfl
    | cons slash cs =>
      by_cases hslash : slash = '/'
      · subst hslash
        have hdrop := dropName?_append hname cs rest
        simp only [List.cons_append, isClosing, hdrop]
        cases dropName? name cs with
        | none => rfl
        | some behind => exact head?_dropWhile_isBlank_append behind rest
      · simp [isClosing, hslash]
  · simp [isClosing, hopen]

/-- What stands before the first closing tag, when one follows at the end. -/
theorem untilClosing?_append {rest : List Char} (hrest : isClosing name ('<' :: rest) = true)
    (cs : List Char) :
    untilClosing? name (cs ++ '<' :: rest) = some ((untilClosing? name cs).getD cs) := by
  induction cs with
  | nil => simp [untilClosing?, hrest]
  | cons c cs ih =>
    have hclosing := isClosing_append hname c cs rest
    rw [List.cons_append] at hclosing
    rw [List.cons_append, untilClosing?, untilClosing?, hclosing, ih]
    split
    · rfl
    · cases untilClosing? name cs <;> rfl

end Following

/-! ### Texts without tags of a name -/

/-- The content of a block does not end where no closing tag is. -/
theorem untilClosing?_eq_none_iff (name cs : List Char) :
    untilClosing? name cs = none ↔ closes name cs = false := by
  induction cs with
  | nil => simp [untilClosing?, closes]
  | cons c cs ih =>
    rw [untilClosing?, closes]
    cases isClosing name (c :: cs) <;> simp [ih]

/-- What stands before the first closing tag is followed by a text with a `<`. -/
theorem eq_append_of_untilClosing? {name cs before : List Char}
    (h : untilClosing? name cs = some before) : ∃ rest, cs = before ++ '<' :: rest := by
  induction cs generalizing before with
  | nil => cases h
  | cons c cs ih =>
    rw [untilClosing?] at h
    split at h
    case isTrue hclosing =>
      cases h
      by_cases hopen : c = '<'
      · exact ⟨cs, by rw [hopen]; rfl⟩
      · simp [isClosing, hopen] at hclosing
    case isFalse =>
      obtain ⟨before, hbefore, rfl⟩ := Option.map_eq_some_iff.1 h
      obtain ⟨rest, rfl⟩ := ih hbefore
      exact ⟨rest, rfl⟩

/-- Other characters begin no block. -/
theorem afterOpening?_eq_none {name cs : List Char} {c : Char}
    (h : (c == '<' && (dropName? name cs).isSome) = false) :
    afterOpening? name (c :: cs) = none := by
  by_cases hopen : c = '<'
  · subst hopen
    have hdrop : dropName? name cs = none := by simpa using h
    simp [afterOpening?, hdrop]
  · simp [afterOpening?, hopen]

/-- Without an opening tag there is no block. -/
theorem block?_eq_none_of_opens {name cs : List Char} (h : opens name cs = false) :
    block? name cs = none := by
  induction cs with
  | nil => rfl
  | cons c cs ih =>
    obtain ⟨hhere, hrest⟩ := Bool.or_eq_false_iff.1 h
    rw [block?, afterOpening?_eq_none hhere]
    exact ih hrest

/-! ### Texts without the blanks at their ends -/

/-- Trimming takes no character that counts. -/
theorem count_dropWhile_isBlank (cs : List Char) :
    (cs.dropWhile Text.isBlank).countP (fun c ↦ !Text.isBlank c) =
      cs.countP (fun c ↦ !Text.isBlank c) := by
  induction cs with
  | nil => rfl
  | cons c cs ih =>
    rw [List.dropWhile_cons]
    split
    case isTrue hblank => simp [ih, hblank]
    case isFalse => rfl

/-- Trimming a text loses blanks only. -/
theorem count_trimChars (cs : List Char) :
    (Text.trimChars cs).countP (fun c ↦ !Text.isBlank c) =
      cs.countP (fun c ↦ !Text.isBlank c) := by
  unfold Text.trimChars Text.trimEndChars Text.trimStartChars
  rw [List.countP_reverse, count_dropWhile_isBlank, List.countP_reverse, count_dropWhile_isBlank]

/-- A text cut before a tag is another one, also without the blanks at its ends. -/
theorem trimChars_ne_of_tag (before rest : List Char) :
    Text.trimChars before ≠ Text.trimChars (before ++ '<' :: rest) := by
  intro h
  have hcount := congrArg (List.countP (fun c ↦ !Text.isBlank c)) h
  have htag : 0 < ('<' :: rest).countP (fun c ↦ !Text.isBlank c) :=
    List.countP_pos_iff.2 ⟨'<', List.mem_cons_self .., by decide⟩
  rw [count_trimChars, count_trimChars, List.countP_append] at hcount
  omega

/-! ### Markup between the tags of a block -/

/-- Some markup in a block of its own. -/
def wrapped (markup : String) : String := "<template>" ++ markup ++ "</template>"

/-- Markup between the tags of a block, character by character. -/
theorem toList_wrapped (markup : String) :
    (wrapped markup).toList =
      "<template>".toList ++ (markup.toList ++ '<' :: "/template>".toList) := by
  simp [wrapped]

theorem template_letters : ∀ letter ∈ "template".toList, isLetter letter '<' = false := by
  simp [isLetter]

theorem script_letters : ∀ letter ∈ "script".toList, isLetter letter '<' = false := by
  simp [isLetter]

/-- The block ends at the first closing tag in the markup, if there is one. -/
theorem block?_wrapped (markup : String) :
    block? "template".toList (wrapped markup).toList =
      some ((untilClosing? "template".toList markup.toList).getD markup.toList) := by
  have hend : isClosing "template".toList ('<' :: "/template>".toList) = true := by decide
  have hword : Text.isWordChar '>' = false := by decide +kernel
  have hopening (cs : List Char) :
      block? "template".toList ("<template>".toList ++ cs) =
        untilClosing? "template".toList cs := by
    simp [block?, afterOpening?, dropName?, isLetter, hword]
  rw [← untilClosing?_append template_letters hend, toList_wrapped, hopening]

/-- The block found is what stands before the first closing tag of the markup, or all of it. -/
theorem blockText?_wrapped (markup : String) :
    blockText? "template" (wrapped markup) = some (String.ofList (Text.trimChars
      ((untilClosing? "template".toList markup.toList).getD markup.toList))) := by
  rw [blockText?, block?_wrapped, Option.map_some]

/-- The tags around the markup open no script. -/
theorem opens_wrapped {markup : String}
    (hunscripted : opens "script".toList markup.toList = false) :
    opens "script".toList (wrapped markup).toList = false := by
  have hend : opens "script".toList ('<' :: "/template>".toList) = false := by decide
  have hinner : opens "script".toList (markup.toList ++ '<' :: "/template>".toList) = false := by
    rw [opens_append script_letters, hunscripted, hend]
    rfl
  rw [toList_wrapped]
  simpa [opens, dropName?, isLetter] using hinner

/-- The blocks of wrapped markup without a script. -/
theorem ofText_wrapped {markup : String}
    (hunscripted : opens "script".toList markup.toList = false) (content : List Char)
    (hcontent : (untilClosing? "template".toList markup.toList).getD markup.toList = content) :
    Blocks.ofText (wrapped markup) =
      if (String.ofList (Text.trimChars content)).isEmpty then .error .emptyBlock
      else .ok ⟨String.ofList (Text.trimChars content), ""⟩ := by
  have hscript : blockText? "script" (wrapped markup) = none := by
    rw [blockText?, block?_eq_none_of_opens (opens_wrapped hunscripted), Option.map_none]
  unfold Blocks.ofText
  rw [blockText?_wrapped, hscript, hcontent]
  rfl

end Nodecraft.Definition

namespace Nodecraft.Compiler

open Sandbox Definition

/-- Without logic, a component is its template. -/
theorem ofLogic_empty (whitelist : Whitelist) (limits : Limits) (t : Template) (data : NodeData)
    (store : NodeStore) (h : Heap) :
    Component.ofLogic whitelist limits t "" data store h =
      .ok ⟨t, .empty, data, store, limits⟩ h :=
  rfl

/-- Markup that is accepted has a template, kept or new. -/
theorem exists_prepare_eq {markup : String} {t : Template} (ht : Template.ofMarkup markup = .ok t)
    (c : Compiler) : ∃ t', (c.prepare markup).1 = .ok t' := by
  unfold prepare Cache.compile Cache.compileBy
  rw [ht]
  cases c.settings.keepsTemplates with
  | false => exact ⟨_, rfl⟩
  | true => cases c.cache.get? markup <;> exact ⟨_, rfl⟩

/-- Markup that is not kept is compiled. -/
theorem prepare_of_get?_eq_none {markup : String} {c : Compiler}
    (hcache : c.cache.get? markup = none) : (c.prepare markup).1 = Template.ofMarkup markup := by
  refine prepare_eq fun _ ↦ ?_
  unfold Cache.compile Cache.compileBy
  rw [hcache]
  cases Template.ofMarkup markup <;> rfl

/-- **Markup in a block of its own.** Markup that is not blank and has no script comes back from
a block as a whole exactly if it has no closing tag of a template. Then the definition compiles to
the template that the markup alone gives, and changes the compiler as that does. Otherwise the
block is what stands before the first closing tag. -/
theorem wrapped_delivers {markup : String} {t : Template} (hmarkup : Text.trim markup ≠ "")
    (hunscripted : opens "script".toList markup.toList = false)
    (haccepted : Template.ofMarkup (Text.trim markup) = .ok t) :
    (Blocks.ofText (wrapped markup) = .ok ⟨Text.trim markup, ""⟩ ↔
      closes "template".toList markup.toList = false) ∧
    (closes "template".toList markup.toList = false → ∀ c data store, ∃ t' c',
      template (Text.trim markup) c = .ok t' c' ∧
      compile (wrapped markup) data store c =
        .ok ⟨t', .empty, data, store, c.settings.limits⟩ c') ∧
    ∀ before, untilClosing? "template".toList markup.toList = some before →
      Blocks.ofText (wrapped markup) =
        if (String.ofList (Text.trimChars before)).isEmpty then .error .emptyBlock
        else .ok ⟨String.ofList (Text.trimChars before), ""⟩ := by
  have hwhole (hcloses : closes "template".toList markup.toList = false) :
      Blocks.ofText (wrapped markup) = .ok ⟨Text.trim markup, ""⟩ := by
    have hempty : (Text.trim markup).isEmpty = false := by simpa using hmarkup
    have hcontent := (untilClosing?_eq_none_iff _ _).2 hcloses
    rw [ofText_wrapped hunscripted markup.toList (by rw [hcontent]; rfl)]
    exact if_neg (by rw [← Text.trim, hempty]; decide)
  have hcut (before : List Char)
      (hbefore : untilClosing? "template".toList markup.toList = some before) :=
    ofText_wrapped hunscripted before (by rw [hbefore]; rfl)
  refine ⟨⟨fun hblocks ↦ ?_, hwhole⟩, fun hcloses c data store ↦ ?_, hcut⟩
  · by_contra hcloses
    obtain ⟨before, hbefore⟩ := Option.ne_none_iff_exists'.1
      (mt (untilClosing?_eq_none_iff _ _).1 hcloses)
    obtain ⟨rest, hrest⟩ := eq_append_of_untilClosing? hbefore
    rw [hcut before hbefore] at hblocks
    split at hblocks
    · cases hblocks
    · have hsame : String.ofList (Text.trimChars before) = Text.trim markup :=
        congrArg Blocks.markup (Except.ok.inj hblocks)
      exact trimChars_ne_of_tag before rest (hrest ▸ String.ofList_injective hsame)
  · obtain ⟨t', ht'⟩ := exists_prepare_eq haccepted c
    refine ⟨t', c.prepared (Text.trim markup), template_of_ok c ht', ?_⟩
    rw [compile_of_template _ data store c (hwhole hcloses) ht', ofLogic_empty]
    rfl

theorem wrapped_delivers_paragraph : ∃ t,
    Text.trim " <p>a</p>\n" ≠ "" ∧ opens "script".toList " <p>a</p>\n".toList = false ∧
    Template.ofMarkup (Text.trim " <p>a</p>\n") = .ok t ∧
    Blocks.ofText (wrapped " <p>a</p>\n") = .ok ⟨"<p>a</p>", ""⟩ := by
  have hmarkup : Text.trim " <p>a</p>\n" = "<p>a</p>" := by decide
  have hok : (Template.ofMarkup "<p>a</p>").isOk = true := by decide +kernel
  cases ht : Template.ofMarkup "<p>a</p>" with
  | error fault =>
    rw [ht] at hok
    cases hok
  | ok t =>
    have haccepted : Template.ofMarkup (Text.trim " <p>a</p>\n") = .ok t := by rw [hmarkup, ht]
    have hdelivers := wrapped_delivers (by rw [hmarkup]; decide) (by decide) haccepted
    refine ⟨t, by rw [hmarkup]; decide, by decide, haccepted, ?_⟩
    rw [← hmarkup]
    exact hdelivers.1.2 (by decide)

/-- A template element in markup. -/
def nestedMarkup : String := "<template v-if=\"true\"><p>x</p></template>"

/-- Markup with a template element is accepted, and is cut off in a block of its own. -/
theorem nestedMarkup_cut :
    Text.trim nestedMarkup = nestedMarkup ∧ nestedMarkup ≠ "" ∧
    opens "script".toList nestedMarkup.toList = false ∧
    (Template.ofMarkup nestedMarkup).isOk = true ∧
    Blocks.ofText (wrapped nestedMarkup) = .ok ⟨"<template v-if=\"true\"><p>x</p>", ""⟩ ∧
    ∀ whitelist heap data store, ∃ fault c',
      compile (wrapped nestedMarkup) data store (new .standard whitelist heap) =
        .error (.template fault) c' := by
  have hblocks : Blocks.ofText (wrapped nestedMarkup) =
      .ok ⟨"<template v-if=\"true\"><p>x</p>", ""⟩ := by decide +kernel
  have hfails : (Template.ofMarkup "<template v-if=\"true\"><p>x</p>").isOk = false := by
    decide +kernel
  refine ⟨by decide +kernel, by decide, by decide, by decide +kernel, hblocks,
    fun whitelist heap data store ↦ ?_⟩
  cases ht : Template.ofMarkup "<template v-if=\"true\"><p>x</p>" with
  | ok t =>
    rw [ht] at hfails
    cases hfails
  | error fault =>
    -- the cache of a new compiler is empty, so that the markup is compiled
    have hprepare : ((new .standard whitelist heap).prepare
        "<template v-if=\"true\"><p>x</p>").1 = .error fault :=
      (prepare_of_get?_eq_none rfl).trans ht
    exact ⟨fault, _, compile_of_fault _ data store _ hblocks hprepare⟩

end Nodecraft.Compiler

namespace Nodecraft.Definition

/-- No tag of a block is begun, in any letter case. -/
structure IsTagless (s : String) : Prop where
  template : opens "template".toList s.toList = false
  templateEnd : opens "/template".toList s.toList = false
  script : opens "script".toList s.toList = false
  scriptEnd : opens "/script".toList s.toList = false

instance (s : String) : Decidable (IsTagless s) :=
  decidable_of_iff
    (opens "template".toList s.toList = false ∧ opens "/template".toList s.toList = false ∧
      opens "script".toList s.toList = false ∧ opens "/script".toList s.toList = false)
    ⟨fun h ↦ ⟨h.1, h.2.1, h.2.2.1, h.2.2.2⟩,
      fun h ↦ ⟨h.template, h.templateEnd, h.script, h.scriptEnd⟩⟩

/-- What an opening tag may have behind its name. -/
structure IsAttributes (s : String) : Prop where
  tagless : IsTagless s
  unended : '>' ∉ s.toList
  apart : ∀ c ∈ s.toList.head?, Text.isBlank c = true

instance (s : String) : Decidable (IsAttributes s) :=
  decidable_of_iff
    (IsTagless s ∧ '>' ∉ s.toList ∧ s.toList.head?.all Text.isBlank = true)
    ⟨fun h ↦ ⟨h.1, h.2.1, (Option.all_eq_true _ _).1 h.2.2⟩,
      fun h ↦ ⟨h.tagless, h.unended, (Option.all_eq_true _ _).2 h.apart⟩⟩

/-- A block with its tags. -/
def block (name attributes content : String) : String :=
  "<" ++ name ++ attributes ++ ">" ++ content ++ "</" ++ name ++ ">"

/-! ### Texts without a tag -/

/-- Without the beginning of a closing tag there is none. -/
theorem closes_of_opens {name cs : List Char} (h : opens ('/' :: name) cs = false) :
    closes name cs = false := by
  induction cs with
  | nil => rfl
  | cons c cs ih =>
    obtain ⟨hhere, hrest⟩ := Bool.or_eq_false_iff.1 h
    refine Bool.or_eq_false_iff.2 ⟨?_, ih hrest⟩
    unfold isClosing
    split
    next rest heq =>
      obtain ⟨rfl, rfl⟩ := List.cons.inj heq
      have hdrop : dropName? name rest = none := by simpa [dropName?, isLetter] using hhere
      rw [hdrop]
    next => rfl

/-- A text in which a block is not opened is passed over, up to a tag. -/
theorem block?_append {name : List Char} (hname : ∀ letter ∈ name, isLetter letter '<' = false)
    {cs : List Char} (h : opens name cs = false) (rest : List Char) :
    block? name (cs ++ '<' :: rest) = block? name ('<' :: rest) := by
  induction cs with
  | nil => rfl
  | cons c cs ih =>
    obtain ⟨hhere, hrest⟩ := Bool.or_eq_false_iff.1 h
    rw [List.cons_append, block?, afterOpening?_eq_none, ih hrest]
    rwa [dropName?_append hname, Option.isSome_map]

/-! ### The tags of a block -/

/-- A name is known as itself. -/
theorem dropName?_self (name rest : List Char) : dropName? name (name ++ rest) = some rest := by
  induction name with
  | nil => rfl
  | cons letter name ih => simpa [dropName?, isLetter] using ih

theorem not_isWordChar_of_isBlank {c : Char} (h : Text.isBlank c = true) :
    Text.isWordChar c = false := by
  have hname := Template.Tag.not_isNameChar_of_isBlank h
  simp only [Template.Tag.isNameChar, Bool.or_eq_false_iff] at hname
  exact hname.1.1.1

/-- Attributes do not go on with the tag's name. -/
theorem IsAttributes.head?_append {attributes : String} (h : IsAttributes attributes)
    (content : List Char) :
    (attributes.toList ++ '>' :: content).head?.any Text.isWordChar = false := by
  have hend : Text.isWordChar '>' = false := by decide +kernel
  have hapart := h.apart
  cases hlist : attributes.toList with
  | nil => exact hend
  | cons c cs =>
    rw [hlist] at hapart
    exact not_isWordChar_of_isBlank (hapart c rfl)

/-- The content of a block is all that stands behind its opening tag. -/
theorem afterOpening?_eq {attributes : String} (h : IsAttributes attributes)
    (name content : List Char) :
    afterOpening? name ('<' :: (name ++ (attributes.toList ++ '>' :: content))) = some content := by
  have hdrop : (attributes.toList ++ '>' :: content).dropWhile (· != '>') = '>' :: content := by
    rw [List.dropWhile_append_of_pos fun c hc ↦ ?_, List.dropWhile_cons_of_neg (by decide)]
    exact bne_iff_ne.2 fun heq ↦ h.unended (heq ▸ hc)
  simp only [afterOpening?, dropName?_self, h.head?_append, hdrop]
  rfl

/-- A closing tag is known as one. -/
theorem isClosing_self (name rest : List Char) :
    isClosing name ('<' :: '/' :: (name ++ '>' :: rest)) = true := by
  have hend : Text.isBlank '>' = false := by decide
  simp [isClosing, dropName?_self, hend]

/-- A whole block, character by character. -/
theorem toList_block (name attributes content : String) (rest : List Char) :
    (block name attributes content).toList ++ rest =
      '<' :: (name.toList ++ (attributes.toList ++ '>' :: (content.toList ++
        '<' :: '/' :: (name.toList ++ '>' :: rest)))) := by
  simp [block]

section

variable {name attributes content : String} {rest : List Char}

/-- A block at the head of a text is found. -/
theorem block?_block (hname : ∀ letter ∈ name.toList, isLetter letter '<' = false)
    (hattributes : IsAttributes attributes)
    (hcontent : opens ('/' :: name.toList) content.toList = false) :
    block? name.toList ((block name attributes content).toList ++ rest) =
      some content.toList := by
  have huntil := (untilClosing?_eq_none_iff _ _).2 (closes_of_opens hcontent)
  rw [toList_block, block?, afterOpening?_eq hattributes]
  dsimp only
  rw [untilClosing?_append hname (isClosing_self _ _), huntil]
  rfl

/-- A block is found behind a text without its tag. -/
theorem block?_found (hname : ∀ letter ∈ name.toList, isLetter letter '<' = false)
    (hattributes : IsAttributes attributes)
    (hcontent : opens ('/' :: name.toList) content.toList = false) {before : List Char}
    (hbefore : opens name.toList before = false) :
    block? name.toList (before ++ ((block name attributes content).toList ++ rest)) =
      some content.toList := by
  rw [toList_block, block?_append hname hbefore, ← toList_block,
    block?_block hname hattributes hcontent]

/-- A block has no tag of another one. -/
theorem opens_block {other : List Char}
    (hstop : ∀ c ∈ ['<', '>'], ∀ letter ∈ other, isLetter letter c = false)
    (hopening : ∀ rest, opens other ('<' :: (name.toList ++ rest)) = opens other rest)
    (hclosing : ∀ rest, opens other ('<' :: '/' :: (name.toList ++ rest)) = opens other rest)
    (hattributes : opens other attributes.toList = false)
    (hcontent : opens other content.toList = false) :
    opens other ((block name attributes content).toList ++ rest) = opens other rest := by
  have hend (cs : List Char) : opens other ('>' :: cs) = opens other cs := by
    simp [opens]
  have hlt := hstop '<' (by decide)
  have hgt := hstop '>' (by decide)
  rw [toList_block, hopening, opens_append hgt, hattributes, Bool.false_or, hend, opens_append hlt,
    hcontent, Bool.false_or, hclosing, hend]

end

theorem template_stops :
    ∀ c ∈ ['<', '>'], ∀ letter ∈ "template".toList, isLetter letter c = false := by
  simp [isLetter]

theorem script_stops :
    ∀ c ∈ ['<', '>'], ∀ letter ∈ "script".toList, isLetter letter c = false := by
  simp [isLetter]

section

variable {attributes content : String} (hattributes : IsAttributes attributes)
  (hcontent : IsTagless content)

include hattributes hcontent

/-- A template block opens no script. -/
theorem opens_script_block (rest : List Char) :
    opens "script".toList ((block "template" attributes content).toList ++ rest) =
      opens "script".toList rest :=
  opens_block script_stops (fun _ ↦ by simp [opens, dropName?, isLetter])
    (fun _ ↦ by simp [opens, dropName?, isLetter]) hattributes.tagless.script hcontent.script

/-- A script block opens no template. -/
theorem opens_template_block (rest : List Char) :
    opens "template".toList ((block "script" attributes content).toList ++ rest) =
      opens "template".toList rest :=
  opens_block template_stops (fun _ ↦ by simp [opens, dropName?, isLetter])
    (fun _ ↦ by simp [opens, dropName?, isLetter]) hattributes.tagless.template
    hcontent.template

end

/-! ### Definitions with both blocks -/

/-- Only blanks are trimmed to nothing. -/
theorem isEmpty_trim_iff {s : String} :
    (Text.trim s).isEmpty = true ↔ ∀ c ∈ s.toList, Text.isBlank c = true := by
  have hcount := count_trimChars s.toList
  rw [String.isEmpty_iff, Text.trim, String.ofList_eq_empty_iff]
  constructor
  · intro h c hc
    rw [h, List.countP_nil, eq_comm, List.countP_eq_zero] at hcount
    simpa using hcount c hc
  · intro h
    have hstart : Text.trimStartChars s.toList = [] := List.dropWhile_eq_nil_iff.2 h
    rw [Text.trimChars, hstart]
    rfl

/-- What becomes of the contents of two blocks. -/
theorem ofText_of_blocks {raw markup logic : String}
    (hmarkup : block? "template".toList raw.toList = some markup.toList)
    (hlogic : block? "script".toList raw.toList = some logic.toList) :
    Blocks.ofText raw =
      if (Text.trim markup).isEmpty then .error .emptyBlock
      else .ok ⟨Text.trim markup, Text.trim logic⟩ := by
  unfold Blocks.ofText blockText?
  rw [hmarkup, hlogic]
  rfl

/-- **Blocks among other text.** A definition with a block of markup and one of logic, in either
order, with attributes in their tags, text around them and whatever behind them, has the content of
the two blocks, without the blanks at their ends. If the block of markup is blank, the definition
has no markup. -/
theorem blocks_found {before attributes markup between attributes' logic : String}
    (hbefore : IsTagless before) (hattributes : IsAttributes attributes)
    (hmarkup : IsTagless markup) (hbetween : IsTagless between)
    (hattributes' : IsAttributes attributes') (hlogic : IsTagless logic) (after : String) :
    ∀ raw ∈ [before ++ block "template" attributes markup ++ between ++
          block "script" attributes' logic ++ after,
        before ++ block "script" attributes' logic ++ between ++
          block "template" attributes markup ++ after],
      ((∃ c ∈ markup.toList, Text.isBlank c = false) →
        Blocks.ofText raw = .ok ⟨Text.trim markup, Text.trim logic⟩) ∧
      ((∀ c ∈ markup.toList, Text.isBlank c = true) →
        Blocks.ofText raw = .error .emptyBlock) := by
  intro raw hraw
  have hfound : block? "template".toList raw.toList = some markup.toList ∧
      block? "script".toList raw.toList = some logic.toList := by
    have htemplate {cs : List Char} (rest : List Char) (hcs : opens "template".toList cs = false) :
        block? "template".toList (cs ++ ((block "template" attributes markup).toList ++ rest)) =
          some markup.toList :=
      block?_found template_letters hattributes hmarkup.templateEnd hcs
    have hscript {cs : List Char} (rest : List Char) (hcs : opens "script".toList cs = false) :
        block? "script".toList (cs ++ ((block "script" attributes' logic).toList ++ rest)) =
          some logic.toList :=
      block?_found script_letters hattributes' hlogic.scriptEnd hcs
    rcases List.mem_pair.1 hraw with rfl | rfl
    · have hpassed : opens "script".toList (before.toList ++
          ((block "template" attributes markup).toList ++ between.toList)) = false := by
        rw [toList_block, opens_append script_letters, ← toList_block,
          opens_script_block hattributes hmarkup, hbefore.script, hbetween.script]
        rfl
      have hlogic := hscript after.toList hpassed
      simp only [String.toList_append, List.append_assoc] at hlogic ⊢
      exact ⟨htemplate _ hbefore.template, hlogic⟩
    · have hpassed : opens "template".toList (before.toList ++
          ((block "script" attributes' logic).toList ++ between.toList)) = false := by
        rw [toList_block, opens_append template_letters, ← toList_block,
          opens_template_block hattributes' hlogic, hbefore.template, hbetween.template]
        rfl
      have hmarkup := htemplate after.toList hpassed
      simp only [String.toList_append, List.append_assoc] at hmarkup ⊢
      exact ⟨hmarkup, hscript _ hbefore.script⟩
  rw [ofText_of_blocks hfound.1 hfound.2]
  constructor
  · rintro ⟨c, hc, hvisible⟩
    refine if_neg fun hempty ↦ ?_
    exact absurd (isEmpty_trim_iff.1 hempty c hc) (by rw [hvisible]; decide)
  · exact fun hblank ↦ if_pos (isEmpty_trim_iff.2 hblank)

/-- Logic may stand first and behind stray tags, and a second block of markup is not looked at. -/
theorem blocks_found_logicFirst :
    IsTagless "<!-- </b> -->" ∧ IsAttributes " lang='html'" ∧ IsTagless "\n<p>a > b</p>" ∧
    IsTagless "\n" ∧ IsAttributes "\tsetup" ∧ IsTagless " 1 < 2; " ∧
    Blocks.ofText ("<!-- </b> -->" ++ block "script" "\tsetup" " 1 < 2; " ++ "\n" ++
        block "template" " lang='html'" "\n<p>a > b</p>" ++ "<template>b</template><script>") =
      .ok ⟨Text.trim "\n<p>a > b</p>", Text.trim " 1 < 2; "⟩ := by
  have hbefore : IsTagless "<!-- </b> -->" := by decide
  have hattributes : IsAttributes " lang='html'" := by decide
  have hmarkup : IsTagless "\n<p>a > b</p>" := by decide
  have hbetween : IsTagless "\n" := by decide
  have hattributes' : IsAttributes "\tsetup" := by decide
  have hlogic : IsTagless " 1 < 2; " := by decide
  refine ⟨hbefore, hattributes, hmarkup, hbetween, hattributes', hlogic, ?_⟩
  have hvisible : ∃ c ∈ "\n<p>a > b</p>".toList, Text.isBlank c = false :=
    ⟨'<', by decide, by decide⟩
  exact (blocks_found hbefore hattributes hmarkup hbetween hattributes' hlogic
    "<template>b</template><script>" _ (.tail _ (.head _))).1 hvisible

end Nodecraft.Definition
