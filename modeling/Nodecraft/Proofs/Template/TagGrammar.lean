import Mathlib.Data.Option.Basic
import Nodecraft.Proofs.Template.Names

/-!
# The grammar of tags

A tag is well formed if it is put together as `Tag.IsWellFormed` says, from a name, attributes with
white space before them, and white space and a slash before its end. Two such tags at the head of a
text are the same stretch of it, so reading is deterministic but for one thing: a slash behind an
unquoted value is part of the value, unless it is left to the end of the tag. Reading as much as
possible into the attributes decides that, and `Tag.read?_eq_some` says that `Tag.read?` finds a
well-formed tag whenever there is one, and the one that is so read.
-/

set_option autoImplicit false

namespace Nodecraft.Template

namespace Tag

/-! ### Kinds of characters -/

/-- The characters that are white space. -/
def blanks : List Char :=
  ['\t', '\n', '\x0b', '\x0c', '\r', ' ', '\u0085', '\u00A0', '\u1680', '\u2000', '\u2001',
    '\u2002', '\u2003', '\u2004', '\u2005', '\u2006', '\u2007', '\u2008', '\u2009', '\u200A',
    '\u2028', '\u2029', '\u202F', '\u205F', '\u3000']

/-- The blanks, listed. -/
theorem mem_blanks_of_isBlank {c : Char} (h : Text.isBlank c = true) : c ∈ blanks := by
  have hsmall : ∀ n ∈ List.range 14, 9 ≤ n → Char.ofNat n ∈ blanks := by decide
  have hlarge : ∀ n ∈ List.range 11, Char.ofNat (8192 + n) ∈ blanks := by decide
  simp only [Text.isBlank, Bool.or_eq_true, Bool.and_eq_true, decide_eq_true_eq, beq_iff_eq] at h
  rcases h with (((((((((h | h) | h) | h) | h) | h) | h) | h) | h) | h) | h
  · have hlow : 9 ≤ c.toNat := h.1
    have hhigh : c.toNat ≤ 13 := h.2
    rw [← Char.ofNat_toNat c]
    exact hsmall _ (List.mem_range.2 (by omega)) hlow
  all_goals try
    subst h
    decide
  · have hlow : 8192 ≤ c.toNat := h.1
    have hhigh : c.toNat ≤ 8202 := h.2
    rw [← Char.ofNat_toNat c, ← Nat.add_sub_cancel' hlow]
    exact hlarge _ (List.mem_range.2 (by omega))

theorem not_isNameChar_of_isBlank {c : Char} (h : Text.isBlank c = true) :
    isNameChar c = false := by
  have hall : blanks.all (fun c ↦ !isNameChar c) = true := by decide +kernel
  simpa using List.all_eq_true.1 hall c (mem_blanks_of_isBlank h)

/-- Letters belong to names. -/
theorem isNameChar_of_isAlpha {c : Char} (h : c.isAlpha = true) : isNameChar c = true := by
  have hall : ∀ n < 128, (Char.ofNat n).isAlpha = true → isNameChar (Char.ofNat n) = true := by
    decide +kernel
  rw [← Char.ofNat_toNat c] at h ⊢
  exact hall _ (by rw [Char.ofNat_toNat] at h; exact toNat_lt_of_isAlpha h) h

/-- What the kinds of characters leave out, besides the white space. -/
theorem isAttributeChar_iff {c : Char} : isAttributeChar c = true ↔
    Text.isBlank c = false ∧ c ≠ '"' ∧ c ≠ '\'' ∧ c ≠ '<' ∧ c ≠ '>' ∧ c ≠ '/' ∧ c ≠ '=' := by
  simp [isAttributeChar, and_assoc]

/-- What a bare value is made of. -/
theorem isBareChar_iff {c : Char} : isBareChar c = true ↔
    Text.isBlank c = false ∧ c ≠ '"' ∧ c ≠ '\'' ∧ c ≠ '=' ∧ c ≠ '<' ∧ c ≠ '>' ∧ c ≠ '\x60' := by
  simp [isBareChar, and_assoc]

/-! ### Runs of characters -/

/-- The text begins with no character of a kind. -/
def Stops (p : Char → Bool) (cs : List Char) : Prop := ∀ c ∈ cs.head?, p c = false

/-- A run ends where its characters do. -/
theorem run_append {p : Char → Bool} {cs next : List Char} (hcs : ∀ c ∈ cs, p c = true)
    (hnext : Stops p next) : run p (cs ++ next) = (cs, next) := by
  induction cs with
  | nil =>
    cases next with
    | nil => rfl
    | cons c next =>
      have hc : p c = false := hnext c rfl
      simp [run, hc]
  | cons c cs ih =>
    have hc : p c = true := hcs c List.mem_cons_self
    obtain ⟨htake, hdrop⟩ := Prod.mk.inj (ih fun d hd ↦ hcs d (List.mem_cons_of_mem c hd))
    unfold run
    rw [List.cons_append, List.takeWhile_cons_of_pos hc, List.dropWhile_cons_of_pos hc, htake,
      hdrop]

/-- A run takes as much as it can. -/
theorem run_eq {p : Char → Bool} {cs taken rest : List Char} (h : run p cs = (taken, rest)) :
    cs = taken ++ rest ∧ (∀ c ∈ taken, p c = true) ∧ Stops p rest := by
  obtain ⟨rfl, rfl⟩ := Prod.mk.inj h
  refine ⟨List.takeWhile_append_dropWhile.symm, List.all_eq_true.1 List.all_takeWhile,
    fun c hc ↦ ?_⟩
  exact Bool.eq_false_iff.2 fun hp ↦ absurd (List.head?_dropWhile_not p cs) (by rw [hc]; simp [hp])

/-! ### Well-formed tags -/

/-- A value as it is written, with its quotes if it has any. -/
inductive IsValue : List Char → Prop
  | quoted {q : Char} {inner : List Char} (hq : q = '"' ∨ q = '\'') (hinner : q ∉ inner) :
    IsValue (q :: inner ++ [q])
  | bare {c : Char} {cs : List Char} (hcs : ∀ d ∈ c :: cs, isBareChar d = true) :
    IsValue (c :: cs)

/-- White space, of which there may be none. -/
def IsGap (cs : List Char) : Prop := ∀ c ∈ cs, Text.isBlank c = true

def IsAttributeName (cs : List Char) : Prop := cs ≠ [] ∧ ∀ c ∈ cs, isAttributeChar c = true

/-- An attribute as it is written, with the white space before it. -/
inductive IsAttribute : List Char → Prop
  | alone {gap name : List Char} (hne : gap ≠ []) (hgap : IsGap gap)
    (hname : IsAttributeName name) : IsAttribute (gap ++ name)
  | assigned {gap name before after value : List Char} (hne : gap ≠ []) (hgap : IsGap gap)
    (hname : IsAttributeName name) (hbefore : IsGap before) (hafter : IsGap after)
    (hvalue : IsValue value) : IsAttribute (gap ++ name ++ (before ++ '=' :: after ++ value))

/-- Any number of attributes. -/
inductive AreAttributes : List Char → Prop
  | nil : AreAttributes []
  | cons {a more : List Char} : IsAttribute a → AreAttributes more → AreAttributes (a ++ more)

structure IsWellFormed (t : Tag) : Prop where
  /-- The name begins with a letter. -/
  name : ∃ c cs, t.name = c :: cs ∧ c.isAlpha = true ∧ ∀ d ∈ cs, isNameChar d = true
  attributes : AreAttributes t.attributes
  gap : IsGap t.gap

/-! ### What is read is well formed -/

/-- What is read as a value is one. -/
theorem value?_sound {cs value rest : List Char} (h : value? cs = some (value, rest)) :
    IsValue value ∧ cs = value ++ rest := by
  cases cs with
  | nil => cases h
  | cons q cs =>
    unfold value? at h
    dsimp only at h
    by_cases hq : q == '"' || q == '\''
    · rw [if_pos hq] at h
      cases hrun : run (· != q) cs with
      | mk inner behind =>
        rw [hrun] at h
        cases behind with
        | nil => cases h
        | cons d behind =>
          obtain ⟨rfl, rfl⟩ := Prod.mk.inj (Option.some.inj h)
          obtain ⟨rfl, hinner, hstop⟩ := run_eq hrun
          obtain rfl : d = q := by simpa using hstop d rfl
          refine ⟨.quoted (by simpa using hq) fun hmem ↦ ?_, by simp⟩
          simpa using hinner d hmem
    · rw [if_neg hq] at h
      cases hrun : run isBareChar (q :: cs) with
      | mk bare behind =>
        rw [hrun] at h
        obtain ⟨heq, hbare, -⟩ := run_eq hrun
        cases bare with
        | nil => cases h
        | cons c bare =>
          obtain ⟨rfl, rfl⟩ := Prod.mk.inj (Option.some.inj h)
          exact ⟨.bare hbare, heq⟩

/-- What is read as an assignment is one. -/
theorem assignment?_sound {cs assigned rest : List Char}
    (h : assignment? cs = some (assigned, rest)) :
    ∃ before after value, IsGap before ∧ IsGap after ∧ IsValue value ∧
      assigned = before ++ '=' :: after ++ value ∧ cs = assigned ++ rest := by
  unfold assignment? at h
  cases hbefore : run Text.isBlank cs with
  | mk before behind =>
    obtain ⟨rfl, hgap, -⟩ := run_eq hbefore
    rw [hbefore] at h
    dsimp only at h
    split at h
    · rename_i behind
      cases hafter : run Text.isBlank behind with
      | mk after behind =>
        obtain ⟨rfl, hgap', -⟩ := run_eq hafter
        rw [hafter] at h
        dsimp only at h
        obtain ⟨⟨value, rest'⟩, hvalue, heq⟩ := Option.map_eq_some_iff.1 h
        obtain ⟨rfl, rfl⟩ := Prod.mk.inj heq
        obtain ⟨hwritten, rfl⟩ := value?_sound hvalue
        exact ⟨before, after, value, hgap, hgap', hwritten, rfl, by simp⟩
    · cases h

/-- What is read as an attribute is one. -/
theorem attribute?_sound {cs a rest : List Char} (h : attribute? cs = some (a, rest)) :
    IsAttribute a ∧ cs = a ++ rest := by
  unfold attribute? at h
  cases hgap : run Text.isBlank cs with
  | mk gap behind =>
    rw [hgap] at h
    dsimp only at h
    cases hname : run isAttributeChar behind with
    | mk name behind' =>
      rw [hname] at h
      dsimp only at h
      obtain ⟨rfl, hblank, -⟩ := run_eq hgap
      obtain ⟨rfl, hchars, -⟩ := run_eq hname
      by_cases hempty : gap.isEmpty || name.isEmpty
      · rw [if_pos hempty] at h
        cases h
      · rw [if_neg hempty] at h
        simp only [Bool.or_eq_true, List.isEmpty_iff, not_or] at hempty
        cases hassigned : assignment? behind' with
        | none =>
          rw [hassigned] at h
          obtain ⟨rfl, rfl⟩ := Prod.mk.inj (Option.some.inj h)
          exact ⟨.alone hempty.1 hblank ⟨hempty.2, hchars⟩, by simp⟩
        | some found =>
          obtain ⟨assigned, rest'⟩ := found
          rw [hassigned] at h
          obtain ⟨rfl, rfl⟩ := Prod.mk.inj (Option.some.inj h)
          obtain ⟨before, after, value, hbefore, hafter, hvalue, rfl, rfl⟩ :=
            assignment?_sound hassigned
          exact ⟨.assigned hempty.1 hblank ⟨hempty.2, hchars⟩ hbefore hafter hvalue, by simp⟩

/-- What is read as attributes are some. -/
theorem attributesOf_sound {fuel : Nat} : ∀ {cs attributes rest : List Char},
    attributesOf fuel cs = (attributes, rest) →
      AreAttributes attributes ∧ cs = attributes ++ rest := by
  induction fuel with
  | zero =>
    intro cs attributes rest h
    obtain ⟨rfl, rfl⟩ := Prod.mk.inj h
    exact ⟨.nil, rfl⟩
  | succ fuel ih =>
    intro cs attributes rest h
    unfold attributesOf at h
    cases hattribute : attribute? cs with
    | none =>
      rw [hattribute] at h
      obtain ⟨rfl, rfl⟩ := Prod.mk.inj h
      exact ⟨.nil, rfl⟩
    | some found =>
      obtain ⟨a, behind⟩ := found
      rw [hattribute] at h
      obtain ⟨ha, rfl⟩ := attribute?_sound hattribute
      cases hrest : attributesOf fuel behind with
      | mk more rest' =>
        dsimp only at h
        rw [hrest] at h
        obtain ⟨rfl, rfl⟩ := Prod.mk.inj h
        obtain ⟨hmore, rfl⟩ := ih hrest
        exact ⟨.cons ha hmore, by rw [List.append_assoc]⟩

/-- What is read behind the beginning of a tag. -/
def inside? (closing : Bool) (cs : List Char) : Option (Tag × List Char) :=
  if cs.head?.any Char.isAlpha then
    let (name, rest) := run isNameChar cs
    let (attributes, rest) := attributesOf rest.length rest
    let (gap, rest) := run Text.isBlank rest
    match rest with
    | '>' :: rest => some (⟨closing, name, attributes, gap, false⟩, rest)
    | '/' :: '>' :: rest => some (⟨closing, name, attributes, gap, true⟩, rest)
    | _ => none
  else none

theorem read?_slash (cs : List Char) : read? ('<' :: '/' :: cs) = inside? true cs := by
  change ((guard (cs.head?.any Char.isAlpha = true) : Option Unit) >>= _) = _
  unfold inside?
  generalize cs.head?.any Char.isAlpha = begins
  cases begins
  · rfl
  · rfl

theorem read?_of_ne {cs : List Char} (hcs : cs.head? ≠ some '/') :
    read? ('<' :: cs) = inside? false cs := by
  unfold read?
  change (Option.bind (some cs) _) = _
  rw [Option.bind_some]
  split
  rename_i closing rest heq
  split at heq
  · exact absurd rfl hcs
  · obtain ⟨rfl, rfl⟩ := Prod.mk.inj heq
    unfold inside?
    change ((guard (cs.head?.any Char.isAlpha = true) : Option Unit) >>= _) = _
    generalize cs.head?.any Char.isAlpha = begins
    cases begins
    · rfl
    · rfl

theorem read?_of_ne_head {c : Char} (hc : c ≠ '<') (cs : List Char) : read? (c :: cs) = none := by
  have hknown : Text.dropKnown? ['<'] (c :: cs) = none := if_neg fun heq ↦ hc heq.symm
  unfold read?
  rw [hknown]
  rfl

/-- The end of a tag, with what may stand before it. -/
def ending (gap : List Char) (selfClosing : Bool) : List Char :=
  gap ++ ((if selfClosing then ['/'] else []) ++ ['>'])

theorem text_eq (t : Tag) : t.text =
    '<' :: ((if t.closing then ['/'] else []) ++ (t.name ++ (t.attributes ++
      ending t.gap t.selfClosing))) := by
  simp [text, ending]

/-- What is read inside of a tag is well formed. -/
theorem inside?_sound {closing : Bool} {cs rest : List Char} {t : Tag}
    (h : inside? closing cs = some (t, rest)) :
    t.IsWellFormed ∧ t.closing = closing ∧
      cs = t.name ++ (t.attributes ++ (ending t.gap t.selfClosing ++ rest)) := by
  unfold inside? at h
  split at h
  swap
  · cases h
  rename_i hbegins
  cases hname : run isNameChar cs with
  | mk name behind =>
    rw [hname] at h
    dsimp only at h
    cases hattributes : attributesOf behind.length behind with
    | mk attributes behind' =>
      rw [hattributes] at h
      dsimp only at h
      cases hgap : run Text.isBlank behind' with
      | mk gap behind'' =>
        rw [hgap] at h
        dsimp only at h
        obtain ⟨rfl, hchars, hstop⟩ := run_eq hname
        obtain ⟨hwritten, rfl⟩ := attributesOf_sound hattributes
        obtain ⟨rfl, hblank, -⟩ := run_eq hgap
        -- a letter is the first character of the name, and not of what is behind it
        have hletter : ∃ c cs, name = c :: cs ∧ c.isAlpha = true ∧
            ∀ d ∈ cs, isNameChar d = true := by
          cases name with
          | nil =>
            obtain ⟨c, hc, halpha⟩ := (Option.any_eq_true _ _).1 hbegins
            rw [List.nil_append] at hc
            exact absurd (isNameChar_of_isAlpha halpha) (Bool.eq_false_iff.1 (hstop c hc))
          | cons c cs =>
            exact ⟨c, cs, rfl, hbegins, fun d hd ↦ hchars d (List.mem_cons_of_mem c hd)⟩
        split at h
        · obtain ⟨rfl, rfl⟩ := Prod.mk.inj (Option.some.inj h)
          exact ⟨⟨hletter, hwritten, hblank⟩, rfl, by simp [ending]⟩
        · obtain ⟨rfl, rfl⟩ := Prod.mk.inj (Option.some.inj h)
          exact ⟨⟨hletter, hwritten, hblank⟩, rfl, by simp [ending]⟩
        · cases h

/-- What is read as a tag is well formed, and is what stands there. -/
theorem read?_sound {cs rest : List Char} {t : Tag} (h : read? cs = some (t, rest)) :
    t.IsWellFormed ∧ cs = t.text ++ rest := by
  cases cs with
  | nil => cases h
  | cons c cs =>
    by_cases hc : c = '<'
    · subst hc
      by_cases hslash : cs.head? = some '/'
      · obtain ⟨cs, rfl⟩ := List.head?_eq_some_iff.1 hslash
        rw [read?_slash] at h
        obtain ⟨hformed, hclosing, rfl⟩ := inside?_sound h
        exact ⟨hformed, by simp [text_eq, hclosing]⟩
      · rw [read?_of_ne hslash] at h
        obtain ⟨hformed, hclosing, rfl⟩ := inside?_sound h
        exact ⟨hformed, by simp [text_eq, hclosing]⟩
    · rw [read?_of_ne_head hc] at h
      cases h

/-! ### What is well formed is read -/

theorem stops_of_head {p : Char → Bool} {c : Char} (hc : p c = false) (cs : List Char) :
    Stops p (c :: cs) := by
  intro d hd
  obtain rfl : c = d := by simpa using hd
  exact hc

/-- What follows attributes: white space, if any, and then a character that assigns no value. With
no white space it is one that ends the tag. -/
def Follows (cs : List Char) : Prop :=
  ∃ gap c rest, cs = gap ++ c :: rest ∧ IsGap gap ∧ Text.isBlank c = false ∧ c ≠ '=' ∧
    (gap = [] → c = '/' ∨ c = '>')

/-- The end of a tag may follow its attributes. -/
theorem follows_ending {gap : List Char} (hgap : IsGap gap) (selfClosing : Bool)
    (rest : List Char) : Follows (ending gap selfClosing ++ rest) := by
  cases selfClosing with
  | false => exact ⟨gap, '>', rest, by simp [ending], hgap, by decide, by decide, fun _ ↦ .inr rfl⟩
  | true =>
    exact ⟨gap, '/', '>' :: rest, by simp [ending], hgap, by decide, by decide, fun _ ↦ .inl rfl⟩

/-- An attribute begins with white space and a character of its name. -/
theorem IsAttribute.exists_head {a : List Char} (ha : IsAttribute a) :
    ∃ gap c rest, a = gap ++ c :: rest ∧ gap ≠ [] ∧ IsGap gap ∧ isAttributeChar c = true := by
  cases ha with
  | @alone gap name hne hgap hname =>
    obtain ⟨c, cs, rfl⟩ := List.exists_cons_of_ne_nil hname.1
    exact ⟨gap, c, cs, rfl, hne, hgap, hname.2 c List.mem_cons_self⟩
  | @assigned gap name before after value hne hgap hname _ _ _ =>
    obtain ⟨c, cs, rfl⟩ := List.exists_cons_of_ne_nil hname.1
    exact ⟨gap, c, cs ++ (before ++ '=' :: after ++ value), by simp, hne, hgap,
      hname.2 c List.mem_cons_self⟩

/-- So may another attribute. -/
theorem IsAttribute.follows {a : List Char} (ha : IsAttribute a) (next : List Char) :
    Follows (a ++ next) := by
  obtain ⟨gap, c, rest, rfl, hne, hgap, hc⟩ := ha.exists_head
  obtain ⟨hblank, -, -, -, -, -, hequals⟩ := isAttributeChar_iff.1 hc
  exact ⟨gap, c, rest ++ next, by simp, hgap, hblank, hequals, fun hnil ↦ absurd hnil hne⟩

theorem IsAttribute.exists_blank {a : List Char} (ha : IsAttribute a) :
    ∃ c rest, a = c :: rest ∧ Text.isBlank c = true := by
  obtain ⟨gap, c, rest, rfl, hne, hgap, -⟩ := ha.exists_head
  obtain ⟨b, gap, rfl⟩ := List.exists_cons_of_ne_nil hne
  exact ⟨b, gap ++ c :: rest, rfl, hgap b List.mem_cons_self⟩

/-- What may follow ends every run of a tag. -/
theorem Follows.stops {p : Char → Bool} (hblank : ∀ {c}, Text.isBlank c = true → p c = false)
    (hslash : p '/' = false) (hend : p '>' = false) {next : List Char} (h : Follows next) :
    Stops p next := by
  obtain ⟨gap, c, rest, rfl, hgap, -, -, hnil⟩ := h
  cases gap with
  | cons b gap => exact stops_of_head (hblank (hgap b List.mem_cons_self)) _
  | nil =>
    rcases hnil rfl with rfl | rfl
    · exact stops_of_head hslash _
    · exact stops_of_head hend _

theorem not_isAttributeChar_of_isBlank {c : Char} (h : Text.isBlank c = true) :
    isAttributeChar c = false :=
  Bool.eq_false_iff.2 fun hname ↦ absurd h (Bool.eq_false_iff.1 (isAttributeChar_iff.1 hname).1)

theorem Follows.assignment?_eq_none {next : List Char} (h : Follows next) :
    assignment? next = none := by
  obtain ⟨gap, c, rest, rfl, hgap, hblank, hequals, -⟩ := h
  unfold assignment?
  rw [run_append hgap (stops_of_head hblank rest)]
  dsimp only
  split
  · exact absurd (List.cons.inj ‹_›).1 hequals
  · rfl

theorem IsValue.not_blank_head {value : List Char} (h : IsValue value) (next : List Char) :
    Stops Text.isBlank (value ++ next) := by
  cases h with
  | quoted hq _ =>
    rcases hq with rfl | rfl
    · exact stops_of_head (by decide) _
    · exact stops_of_head (by decide) _
  | @bare c cs hcs => exact stops_of_head (isBareChar_iff.1 (hcs c List.mem_cons_self)).1 _

/-- A name that ends where attributes may end is read with the white space before it. -/
theorem attribute?_eq {gap name next : List Char} (hne : gap ≠ []) (hgap : IsGap gap)
    (hname : IsAttributeName name) (hstops : Stops isAttributeChar next) :
    attribute? (gap ++ (name ++ next)) =
      some ((assignment? next).elim (gap ++ name, next)
        fun found ↦ (gap ++ name ++ found.1, found.2)) := by
  have hblank : Stops Text.isBlank (name ++ next) := by
    obtain ⟨c, cs, rfl⟩ := List.exists_cons_of_ne_nil hname.1
    exact stops_of_head (isAttributeChar_iff.1 (hname.2 c List.mem_cons_self)).1 _
  have hnonempty : (gap.isEmpty || name.isEmpty) = false := by
    rw [List.isEmpty_eq_false_iff.2 hne, List.isEmpty_eq_false_iff.2 hname.1]
    rfl
  unfold attribute?
  rw [run_append hgap hblank]
  dsimp only
  rw [run_append hname.2 hstops]
  dsimp only
  rw [hnonempty]
  cases assignment? next <;> rfl

/-- An attribute without a value is read. -/
theorem attribute?_alone {gap name next : List Char} (hne : gap ≠ []) (hgap : IsGap gap)
    (hname : IsAttributeName name) (hnext : Follows next) :
    attribute? (gap ++ name ++ next) = some (gap ++ name, next) := by
  rw [List.append_assoc, attribute?_eq hne hgap hname
      (hnext.stops not_isAttributeChar_of_isBlank (by decide) (by decide)),
    hnext.assignment?_eq_none]
  rfl

/-- So is one with a value. -/
theorem attribute?_assigned {gap name before after value value' next next' : List Char}
    (hne : gap ≠ []) (hgap : IsGap gap) (hname : IsAttributeName name) (hbefore : IsGap before)
    (hafter : IsGap after) (hwritten : IsValue value)
    (hvalue : value? (value ++ next) = some (value', next')) :
    attribute? (gap ++ name ++ (before ++ '=' :: after ++ value) ++ next) =
      some (gap ++ name ++ (before ++ '=' :: after ++ value'), next') := by
  have hassigned : assignment? (before ++ '=' :: (after ++ (value ++ next))) =
      some (before ++ '=' :: after ++ value', next') := by
    unfold assignment?
    rw [run_append hbefore (stops_of_head (by decide) _)]
    dsimp only
    split
    · obtain rfl := (List.cons.inj ‹_›).2
      rw [run_append hafter (hwritten.not_blank_head next)]
      dsimp only
      rw [hvalue]
      rfl
    · rename_i hne
      exact (hne _ rfl).elim
  have hstops : Stops isAttributeChar (before ++ '=' :: (after ++ (value ++ next))) := by
    cases before with
    | nil => exact stops_of_head (by decide) _
    | cons b before =>
      exact stops_of_head (not_isAttributeChar_of_isBlank (hbefore b List.mem_cons_self)) _
  have heq := attribute?_eq hne hgap hname hstops
  rw [hassigned] at heq
  simpa [List.append_assoc] using heq

/-- A value in quotes is read. -/
theorem value?_quoted {q : Char} {inner : List Char} (hq : q = '"' ∨ q = '\'') (hinner : q ∉ inner)
    (next : List Char) : value? (q :: inner ++ [q] ++ next) = some (q :: inner ++ [q], next) := by
  have hrun : run (· != q) (inner ++ (q :: next)) = (inner, q :: next) :=
    run_append (fun c hc ↦ by simpa using fun heq : c = q ↦ hinner (heq ▸ hc))
      (stops_of_head (by simp) _)
  have hquote : (q == '"' || q == '\'') = true := by simpa using hq
  have heq : q :: inner ++ [q] ++ next = q :: (inner ++ (q :: next)) := by simp
  rw [heq]
  unfold value?
  dsimp only
  rw [if_pos hquote, hrun]

/-- So is a bare one. -/
theorem value?_bare {c : Char} {cs next : List Char} (hcs : ∀ d ∈ c :: cs, isBareChar d = true)
    (hnext : Stops isBareChar next) : value? (c :: cs ++ next) = some (c :: cs, next) := by
  obtain ⟨-, hdouble, hsingle, -⟩ := isBareChar_iff.1 (hcs c List.mem_cons_self)
  have hquote : (c == '"' || c == '\'') = false := by simp [hdouble, hsingle]
  have hrun : run isBareChar (c :: (cs ++ next)) = (c :: cs, next) := run_append hcs hnext
  rw [List.cons_append]
  unfold value?
  dsimp only
  rw [hquote, hrun]
  rfl

/-- The end of a tag is no attribute. -/
theorem attribute?_ending {gap : List Char} (hgap : IsGap gap) (selfClosing : Bool)
    (rest : List Char) : attribute? (ending gap selfClosing ++ rest) = none := by
  have hread {c : Char} (hblank : Text.isBlank c = false) (hname : isAttributeChar c = false)
      (behind : List Char) : attribute? (gap ++ c :: behind) = none := by
    have hrun : run isAttributeChar ([] ++ c :: behind) = ([], c :: behind) :=
      run_append (fun _ h ↦ nomatch h) (stops_of_head hname behind)
    rw [List.nil_append] at hrun
    unfold attribute?
    rw [run_append hgap (stops_of_head hblank behind)]
    dsimp only
    rw [hrun]
    dsimp only
    rw [if_pos (by simp)]
  cases selfClosing with
  | false => simpa [ending] using hread (by decide) (by decide) rest
  | true => simpa [ending] using hread (by decide) (by decide) ('>' :: rest)

theorem attributesOf_of_none {cs : List Char} (h : attribute? cs = none) (fuel : Nat) :
    attributesOf fuel cs = ([], cs) := by
  cases fuel with
  | zero => rfl
  | succ fuel =>
    unfold attributesOf
    rw [h]

/-- Attributes are read one after the other. -/
theorem attributesOf_of_some {cs a attributes behind rest : List Char} {fuel : Nat}
    (h : attribute? cs = some (a, behind)) (hmore : attributesOf fuel behind = (attributes, rest)) :
    attributesOf (fuel + 1) cs = (a ++ attributes, rest) := by
  unfold attributesOf
  rw [h]
  dsimp only
  rw [hmore]

theorem AreAttributes.follows {attributes : List Char} (h : AreAttributes attributes)
    {gap : List Char} (hgap : IsGap gap) (selfClosing : Bool) (rest : List Char) :
    Follows (attributes ++ (ending gap selfClosing ++ rest)) := by
  cases h with
  | nil => exact follows_ending hgap selfClosing rest
  | cons ha _ =>
    rw [List.append_assoc]
    exact ha.follows _

/-- An unquoted value may go on only with the slash before the end of the tag. -/
theorem AreAttributes.stops_bare {attributes : List Char} (h : AreAttributes attributes)
    {gap : List Char} (hgap : IsGap gap) (selfClosing : Bool) (rest : List Char) :
    Stops isBareChar (attributes ++ (ending gap selfClosing ++ rest)) ∨
      (attributes = [] ∧ gap = [] ∧ selfClosing = true) := by
  have hblank {c : Char} (hc : Text.isBlank c = true) (cs : List Char) :
      Stops isBareChar (c :: cs) := by
    refine stops_of_head (Bool.eq_false_iff.2 fun hbare ↦ ?_) cs
    exact absurd hc (Bool.eq_false_iff.1 (isBareChar_iff.1 hbare).1)
  cases h with
  | cons ha _ =>
    obtain ⟨c, cs, rfl, hc⟩ := ha.exists_blank
    exact .inl (hblank hc _)
  | nil =>
    cases gap with
    | cons c gap => exact .inl (hblank (hgap c List.mem_cons_self) _)
    | nil =>
      cases selfClosing with
      | false => exact .inl (stops_of_head (by decide) rest)
      | true => exact .inr ⟨rfl, rfl, rfl⟩

/-- An attribute is read as it is written, or with the slash before the end of the tag. -/
theorem attribute?_complete {a more gap : List Char} (ha : IsAttribute a)
    (hmore : AreAttributes more) (hgap : IsGap gap) (selfClosing : Bool) (rest : List Char) :
    attribute? (a ++ (more ++ (ending gap selfClosing ++ rest))) =
        some (a, more ++ (ending gap selfClosing ++ rest)) ∨
      (more = [] ∧ gap = [] ∧ selfClosing = true ∧
        attribute? (a ++ (more ++ (ending gap selfClosing ++ rest))) =
          some (a ++ ['/'], '>' :: rest)) := by
  have hfollows := hmore.follows hgap selfClosing rest
  cases ha with
  | alone hne hblank hname => exact .inl (attribute?_alone hne hblank hname hfollows)
  | @assigned gap' name before after value hne hblank hname hbefore hafter hvalue =>
    cases hvalue with
    | quoted hq hinner =>
      exact .inl (attribute?_assigned hne hblank hname hbefore hafter (.quoted hq hinner)
        (value?_quoted hq hinner _))
    | @bare c cs hcs =>
      rcases hmore.stops_bare hgap selfClosing rest with hstops | ⟨rfl, rfl, rfl⟩
      · exact .inl (attribute?_assigned hne hblank hname hbefore hafter (.bare hcs)
          (value?_bare hcs hstops))
      · refine .inr ⟨rfl, rfl, rfl, ?_⟩
        have hslash : ∀ d ∈ c :: (cs ++ ['/']), isBareChar d = true := by
          intro d hd
          rcases List.mem_append.1 (List.cons_append ▸ hd : d ∈ c :: cs ++ ['/']) with hd | hd
          · exact hcs d hd
          · obtain rfl := List.mem_singleton.1 hd
            decide
        have hvalue : value? (c :: cs ++ ([] ++ (ending [] true ++ rest))) =
            some (c :: (cs ++ ['/']), '>' :: rest) := by
          have hstops : Stops isBareChar ('>' :: rest) := stops_of_head (by decide) rest
          simpa [ending] using value?_bare hslash hstops
        simpa using attribute?_assigned hne hblank hname hbefore hafter (.bare hcs) hvalue

/-- Attributes are read up to the end of the tag, or with the slash before it. -/
theorem attributesOf_complete {gap : List Char} (hgap : IsGap gap) (selfClosing : Bool)
    (rest : List Char) {attributes : List Char} (h : AreAttributes attributes) : ∀ {fuel : Nat},
    attributes.length ≤ fuel →
      attributesOf fuel (attributes ++ (ending gap selfClosing ++ rest)) =
          (attributes, ending gap selfClosing ++ rest) ∨
        (gap = [] ∧ selfClosing = true ∧
          attributesOf fuel (attributes ++ (ending gap selfClosing ++ rest)) =
            (attributes ++ ['/'], '>' :: rest)) := by
  induction h with
  | nil => exact fun _ ↦ .inl (attributesOf_of_none (attribute?_ending hgap selfClosing rest) _)
  | @cons a more ha hmore ih =>
    intro fuel hfuel
    obtain ⟨c, cs, hhead, -⟩ := ha.exists_blank
    have hlength : 0 < a.length := by
      rw [hhead]
      exact Nat.succ_pos _
    rw [List.length_append] at hfuel
    obtain ⟨fuel, rfl⟩ := Nat.exists_eq_add_one_of_ne_zero (by omega : fuel ≠ 0)
    rw [List.append_assoc]
    rcases attribute?_complete ha hmore hgap selfClosing rest with hread | ⟨rfl, rfl, rfl, hread⟩
    · rcases ih (by omega : more.length ≤ fuel) with hrest | ⟨rfl, rfl, hrest⟩
      · exact .inl (attributesOf_of_some hread hrest)
      · exact .inr ⟨rfl, rfl, by rw [attributesOf_of_some hread hrest, List.append_assoc]⟩
    · have hnone : attribute? ('>' :: rest) = none := attribute?_ending hgap false rest
      refine .inr ⟨rfl, rfl, ?_⟩
      rw [attributesOf_of_some hread (attributesOf_of_none hnone fuel)]
      simp

/-- A tag with the slash before its end in its attributes. -/
def slashed (t : Tag) : Tag :=
  { t with attributes := t.attributes ++ ['/'], selfClosing := false }

/-- A slash without a gap before it may be part of the last value. -/
theorem text_slashed {t : Tag} (hgap : t.gap = []) (hclosing : t.selfClosing = true) :
    t.slashed.text = t.text := by
  simp [slashed, text, hgap, hclosing]

theorem run_ending {gap : List Char} (hgap : IsGap gap) (selfClosing : Bool) (rest : List Char) :
    run Text.isBlank (ending gap selfClosing ++ rest) =
      (gap, (if selfClosing then ['/'] else []) ++ '>' :: rest) := by
  have hrun {c : Char} (hc : Text.isBlank c = false) (behind : List Char) :=
    run_append hgap (stops_of_head hc behind)
  cases selfClosing with
  | false => simpa [ending] using hrun (by decide) rest
  | true => simpa [ending] using hrun (by decide) ('>' :: rest)

/-- What is well formed is read, up to such a slash. -/
theorem inside?_complete {t : Tag} (h : t.IsWellFormed) (rest : List Char) :
    inside? t.closing (t.name ++ (t.attributes ++ (ending t.gap t.selfClosing ++ rest))) =
        some (t, rest) ∨
      (t.gap = [] ∧ t.selfClosing = true ∧
        inside? t.closing (t.name ++ (t.attributes ++ (ending t.gap t.selfClosing ++ rest))) =
          some (t.slashed, rest)) := by
  obtain ⟨closing, name, attributes, gap, selfClosing⟩ := t
  obtain ⟨⟨c, cs, rfl, halpha, hchars⟩, hattributes, hgap⟩ := h
  dsimp only at hattributes hgap ⊢
  have hname : ∀ d ∈ c :: cs, isNameChar d = true := by
    intro d hd
    rcases List.mem_cons.1 hd with rfl | hd
    · exact isNameChar_of_isAlpha halpha
    · exact hchars d hd
  have hstops := (hattributes.follows hgap selfClosing rest).stops not_isNameChar_of_isBlank
    (by decide +kernel) (by decide +kernel)
  have hlength : attributes.length ≤
      (attributes ++ (ending gap selfClosing ++ rest)).length := by
    rw [List.length_append]
    exact Nat.le_add_right _ _
  have hbegins : (c :: cs ++ (attributes ++ (ending gap selfClosing ++ rest))).head?.any
      Char.isAlpha = true := halpha
  unfold inside?
  rw [if_pos hbegins, run_append hname hstops]
  dsimp only
  rcases attributesOf_complete hgap selfClosing rest hattributes hlength with
    hread | ⟨rfl, rfl, hread⟩
  · left
    rw [hread]
    dsimp only
    rw [run_ending hgap selfClosing rest]
    cases selfClosing <;> rfl
  · refine .inr ⟨rfl, rfl, ?_⟩
    have hend : run Text.isBlank ('>' :: rest) = ([], '>' :: rest) := run_ending hgap false rest
    rw [hread]
    dsimp only
    rw [hend]
    rfl

/-- A well-formed tag at the head of a text is read, with as much of it in its attributes as
possible. -/
theorem read?_complete {t : Tag} (h : t.IsWellFormed) (rest : List Char) :
    read? (t.text ++ rest) = some (t, rest) ∨
      (t.gap = [] ∧ t.selfClosing = true ∧ read? (t.text ++ rest) = some (t.slashed, rest)) := by
  obtain ⟨c, cs, hname, halpha, -⟩ := h.name
  have hinside := inside?_complete h rest
  have hread : read? (t.text ++ rest) =
      inside? t.closing (t.name ++ (t.attributes ++ (ending t.gap t.selfClosing ++ rest))) := by
    rw [text_eq]
    cases hclosing : t.closing with
    | true => simpa using read?_slash _
    | false =>
      have hne : (t.name ++ (t.attributes ++ (ending t.gap t.selfClosing ++ rest))).head? ≠
          some '/' := by
        rw [hname]
        rintro heq
        obtain rfl : c = '/' := by simpa using heq
        exact absurd halpha (by decide)
      simpa using read?_of_ne hne
  rwa [hread]

/-- What is read at the head of a text is the well-formed tag that it begins with. If it begins
with two, they are one stretch of the text, and the one with more of it in its attributes is
read. -/
theorem read?_eq_some {cs rest : List Char} {t : Tag} :
    read? cs = some (t, rest) ↔ t.IsWellFormed ∧ cs = t.text ++ rest ∧
      ∀ t' rest', IsWellFormed t' → cs = t'.text ++ rest' →
        rest' = rest ∧ t'.attributes.length ≤ t.attributes.length := by
  have hread {t : Tag} (ht : t.IsWellFormed) {t' : Tag} {rest rest' : List Char}
      (h : read? (t.text ++ rest) = some (t', rest')) :
      rest' = rest ∧ (t' = t ∨ t.attributes.length < t'.attributes.length) := by
    rcases read?_complete ht rest with hsame | ⟨-, -, hslashed⟩
    · obtain ⟨rfl, rfl⟩ := Prod.mk.inj (Option.some.inj (h.symm.trans hsame))
      exact ⟨rfl, .inl rfl⟩
    · obtain ⟨rfl, rfl⟩ := Prod.mk.inj (Option.some.inj (h.symm.trans hslashed))
      exact ⟨rfl, .inr (by simp [slashed])⟩
  constructor
  · intro h
    obtain ⟨hformed, heq⟩ := read?_sound h
    refine ⟨hformed, heq, fun t' rest' hformed' heq' ↦ ?_⟩
    rw [heq'] at h
    obtain ⟨rfl, rfl | hless⟩ := hread hformed' h
    · exact ⟨rfl, Nat.le_refl _⟩
    · exact ⟨rfl, Nat.le_of_lt hless⟩
  · rintro ⟨hformed, rfl, hmost⟩
    rcases read?_complete hformed rest with hsame | ⟨-, -, hslashed⟩
    · exact hsame
    · obtain ⟨hformed', heq⟩ := read?_sound hslashed
      have hle := (hmost _ _ hformed' heq).2
      simp only [slashed, List.length_append, List.length_singleton] at hle
      exact absurd hle (Nat.not_succ_le_self _)

/-- Nothing is read only if no well-formed tag is there. -/
theorem read?_eq_none {cs : List Char} :
    read? cs = none ↔ ∀ t rest, IsWellFormed t → cs ≠ t.text ++ rest := by
  constructor
  · rintro h t rest hformed rfl
    rcases read?_complete hformed rest with hsame | ⟨-, -, hslashed⟩
    · exact nomatch h.symm.trans hsame
    · exact nomatch h.symm.trans hslashed
  · intro hnone
    cases h : read? cs with
    | none => rfl
    | some found =>
      obtain ⟨hformed, heq⟩ := read?_sound h
      exact absurd heq (hnone _ _ hformed)

end Tag

end Nodecraft.Template
