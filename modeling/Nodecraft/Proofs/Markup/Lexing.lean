import Mathlib.Data.List.Infix
import Nodecraft.Markup.Lexer

/-!
# Reading tags and texts

HTML reads a tag up to its end if it has a name (`IsTagName`), attributes with white space before them
(`Attributes`), and white space and a slash before its end. Character references in values stop at
the end of the value (`reference?_append`), so each value is read as a whole, whatever stands behind
it, and a tag up to its end (`tag?_of_written`). Only a slash right behind an unquoted value belongs
to the value, and not to the end of the tag.

Text is read character by character, or a reference at a time, as long as none of its brackets
begins a tag, a comment or a declaration (`IsText`). It is so in markup and in elements that hold
nothing but text alike (`step_of_isText`).
-/

set_option autoImplicit false

namespace Nodecraft.Markup

/-! ### References -/

/-- The characters that references are made of. -/
def isReferencePart (c : Char) : Bool := isNamePart c || c == '#'

theorem isAlphanum_of_isDigitIn {base : Nat} {c : Char} (h : Number.isDigitIn base c = true) :
    c.isAlphanum = true := by
  have hbetween {a b : Char} (hc : a ≤ c ∧ c ≤ b) : a.toNat ≤ c.toNat ∧ c.toNat ≤ b.toNat := hc
  have hall : ∀ n < 128, (48 ≤ n ∧ n ≤ 57) ∨ (97 ≤ n ∧ n ≤ 122) ∨ (65 ≤ n ∧ n ≤ 90) →
      (Char.ofNat n).isAlphanum = true := by decide
  unfold Number.isDigitIn Number.digitValue? at h
  rw [← Char.ofNat_toNat c]
  split at h
  · rename_i d hd
    split at hd
    · have := hbetween ‹_›
      exact hall _ (Nat.lt_of_le_of_lt this.2 (by decide)) (.inl this)
    split at hd
    · have := hbetween ‹_›
      exact hall _ (Nat.lt_of_le_of_lt this.2 (by decide)) (.inr (.inl this))
    split at hd
    · have := hbetween ‹_›
      exact hall _ (Nat.lt_of_le_of_lt this.2 (by decide)) (.inr (.inr this))
    · cases hd
  · cases h

/-- What a numeric reference takes are parts of references. -/
theorem numericReference?_consumes {cs value rest : List Char}
    (h : numericReference? cs = some (value, rest)) :
    ∃ taken, cs = taken ++ rest ∧ ∀ c ∈ taken, isReferencePart c = true := by
  have hpart {c : Char} (hc : c.isAlphanum = true) : isReferencePart c = true := by
    simp [isReferencePart, isNamePart, hc]
  unfold numericReference? at h
  split at h
  rename_i base body heq
  have hdigits : ∀ c ∈ body.takeWhile (Number.isDigitIn base), isReferencePart c = true :=
    fun c hc ↦ hpart (isAlphanum_of_isDigitIn (List.all_eq_true.1 List.all_takeWhile c hc))
  have hwhole := @List.takeWhile_append_dropWhile _ (Number.isDigitIn base) body
  have htaken : ∃ taken, body = taken ++ rest ∧ ∀ c ∈ taken, isReferencePart c = true := by
    dsimp only at h
    split at h
    · cases h
    split at h
    · rename_i rest' hdrop
      obtain ⟨-, rfl⟩ := Prod.mk.inj (Option.some.inj h)
      rw [hdrop] at hwhole
      refine ⟨body.takeWhile (Number.isDigitIn base) ++ [';'], by simpa using hwhole.symm, ?_⟩
      intro c hc
      rcases List.mem_append.1 hc with hc | hc
      · exact hdigits c hc
      · obtain rfl := List.mem_singleton.1 hc
        decide
    · obtain ⟨-, rfl⟩ := Prod.mk.inj (Option.some.inj h)
      exact ⟨_, hwhole.symm, hdigits⟩
  split at heq
  · obtain ⟨rfl, rfl⟩ := Prod.mk.inj heq
    obtain ⟨taken, rfl, hall⟩ := htaken
    exact ⟨'x' :: taken, rfl, List.forall_mem_cons.2 ⟨by decide, hall⟩⟩
  · obtain ⟨rfl, rfl⟩ := Prod.mk.inj heq
    obtain ⟨taken, rfl, hall⟩ := htaken
    exact ⟨'X' :: taken, rfl, List.forall_mem_cons.2 ⟨by decide, hall⟩⟩
  · obtain ⟨rfl, rfl⟩ := Prod.mk.inj heq
    exact htaken

/-- The name of an entity is at the beginning of what may be a name. -/
theorem isPrefix_of_longestEntity? {cs name value : List Char}
    (h : longestEntity? cs = some (name, value)) : name <+: cs.takeWhile isNamePart := by
  have hfold : ∀ table : List (List Char × List Char), ∀ best : Option (List Char × List Char),
      (∀ e ∈ best, e.1 <+: cs.takeWhile isNamePart) →
      ∀ e ∈ table.foldl (fun best e ↦
        if e.1.isPrefixOf (cs.takeWhile isNamePart) then longerName best e else best) best,
        e.1 <+: cs.takeWhile isNamePart := by
    intro table
    induction table with
    | nil => exact fun best hbest ↦ hbest
    | cons e table ih =>
      intro best hbest
      refine ih _ ?_
      dsimp only
      split
      · rename_i hstarts
        have he := List.isPrefixOf_iff_prefix.1 hstarts
        intro e' he'
        unfold longerName at he'
        split at he'
        · split at he'
          · exact Option.mem_some.1 he' ▸ he
          · exact hbest e' he'
        · exact Option.mem_some.1 he' ▸ he
      · exact hbest
  exact hfold entities none (fun _ h ↦ absurd h (Option.not_mem_none _)) _ h

/-- A reference takes nothing but letters, digits and the characters that set it off. -/
theorem reference?_consumes {inAttribute : Bool} {cs value rest : List Char}
    (h : reference? inAttribute cs = some (value, rest)) :
    ∃ taken, cs = taken ++ rest ∧ ∀ c ∈ taken, isReferencePart c = true := by
  unfold reference? at h
  split at h
  · obtain ⟨taken, rfl, hall⟩ := numericReference?_consumes h
    exact ⟨'#' :: taken, rfl, List.forall_mem_cons.2 ⟨by decide, hall⟩⟩
  · unfold namedReference? at h
    split at h
    · cases h
    · rename_i name value' hentity
      have hstarts := isPrefix_of_longestEntity? hentity
      dsimp only at h
      split at h
      · cases h
      · obtain ⟨-, rfl⟩ := Prod.mk.inj (Option.some.inj h)
        obtain ⟨more, rfl⟩ := hstarts.trans (List.takeWhile_prefix _)
        refine ⟨name, by rw [List.drop_left], fun c hc ↦ ?_⟩
        have hpart := List.all_eq_true.1 List.all_takeWhile c (hstarts.subset hc)
        simp [isReferencePart, hpart]

/-- A reference does not go on behind a character that is no part of one. -/
theorem reference?_stops {inAttribute : Bool} {cs value rest behind : List Char} {stop : Char}
    (hstop : isReferencePart stop = false)
    (h : reference? inAttribute (cs ++ stop :: behind) = some (value, rest)) :
    ∃ left, rest = left ++ stop :: behind ∧ left <:+ cs := by
  obtain ⟨taken, heq, hall⟩ := reference?_consumes h
  rcases List.append_eq_append_iff.1 heq with ⟨between, rfl, hrest⟩ | ⟨left, rfl, rfl⟩
  · cases between with
    | nil => exact ⟨[], hrest.symm, List.nil_suffix⟩
    | cons c between =>
      obtain ⟨rfl, -⟩ := List.cons.inj hrest
      exact absurd (hall stop (by simp)) (Bool.eq_false_iff.1 hstop)
  · exact ⟨left, rfl, List.suffix_append _ _⟩

/-- What may stand right behind a value that ends in a reference. -/
def endsReference (c : Char) : Bool := !isReferencePart c && c != '='

/-- A character that does not belong ends what is taken, whatever stands behind it. -/
theorem takeWhile_append_stop {p : Char → Bool} {stop : Char} (hstop : p stop = false)
    (cs behind : List Char) : (cs ++ stop :: behind).takeWhile p = cs.takeWhile p := by
  induction cs with
  | nil => simp [hstop]
  | cons c cs ih =>
    rw [List.cons_append, List.takeWhile_cons, List.takeWhile_cons, ih]

theorem dropWhile_append_stop {p : Char → Bool} {stop : Char} (hstop : p stop = false)
    (cs behind : List Char) :
    (cs ++ stop :: behind).dropWhile p = cs.dropWhile p ++ stop :: behind := by
  induction cs with
  | nil => simp [hstop]
  | cons c cs ih =>
    rw [List.cons_append, List.dropWhile_cons, List.dropWhile_cons, ih]
    split <;> rfl

/-- The base of a numeric reference and what stands behind its mark. -/
def baseMark (cs : List Char) : Nat × List Char :=
  match cs with
  | 'x' :: rest => (16, rest)
  | 'X' :: rest => (16, rest)
  | _ => (10, cs)

/-- The text behind a semicolon, if it begins with one. -/
def behindSemicolon : List Char → List Char
  | ';' :: rest => rest
  | rest => rest

/-- The character that the digits at the head of a text stand for, and what is behind them. -/
def numbered? (base : Nat) (body : List Char) : Option (List Char × List Char) :=
  if (body.takeWhile (Number.isDigitIn base)).isEmpty then none
  else some ([numberedChar (Number.digitsValue base (body.takeWhile (Number.isDigitIn base)))],
    behindSemicolon (body.dropWhile (Number.isDigitIn base)))

theorem behindSemicolon_of_ne {c : Char} (hc : c ≠ ';') (cs : List Char) :
    behindSemicolon (c :: cs) = c :: cs := by
  unfold behindSemicolon
  split
  · exact absurd (List.cons.inj ‹_›).1 hc
  · rfl

/-- The mark of the base, then the digits. -/
theorem numericReference?_eq (cs : List Char) :
    numericReference? cs = numbered? (baseMark cs).1 (baseMark cs).2 := by
  unfold numericReference?
  split
  rename_i base body heq
  rw [show baseMark cs = (base, body) from heq]
  unfold numbered?
  dsimp only
  split
  · rfl
  · cases body.dropWhile (Number.isDigitIn base) with
    | nil => rfl
    | cons c behind =>
      by_cases hc : c = ';'
      · subst hc
        rfl
      · rw [behindSemicolon_of_ne hc]
        split
        · exact absurd (List.cons.inj ‹_›).1 hc
        · rfl

theorem behindSemicolon_append {stop : Char} (hstop : stop ≠ ';') (cs behind : List Char) :
    behindSemicolon (cs ++ stop :: behind) = behindSemicolon cs ++ stop :: behind := by
  cases cs with
  | nil => exact behindSemicolon_of_ne hstop behind
  | cons c cs =>
    by_cases hc : c = ';'
    · subst hc
      rfl
    · rw [List.cons_append, behindSemicolon_of_ne hc, behindSemicolon_of_ne hc]
      rfl

theorem baseMark_append {stop : Char} (hx : stop ≠ 'x') (hX : stop ≠ 'X') (cs behind : List Char) :
    baseMark (cs ++ stop :: behind) = ((baseMark cs).1, (baseMark cs).2 ++ stop :: behind) := by
  cases cs with
  | nil =>
    unfold baseMark
    split
    · exact absurd (List.cons.inj ‹_›).1 hx
    · exact absurd (List.cons.inj ‹_›).1 hX
    · rfl
  | cons c cs =>
    by_cases hc : c = 'x'
    · subst hc
      rfl
    by_cases hc' : c = 'X'
    · subst hc'
      rfl
    unfold baseMark
    split
    · exact absurd (List.cons.inj ‹_›).1 hc
    · exact absurd (List.cons.inj ‹_›).1 hc'
    split
    · exact absurd (List.cons.inj ‹_›).1 hc
    · exact absurd (List.cons.inj ‹_›).1 hc'
    · rfl

theorem behindSemicolon_suffix (cs : List Char) : behindSemicolon cs <:+ cs := by
  unfold behindSemicolon
  split
  · exact List.suffix_cons _ _
  · exact List.suffix_refl _

theorem baseMark_suffix (cs : List Char) : (baseMark cs).2 <:+ cs := by
  unfold baseMark
  split
  · exact List.suffix_cons _ _
  · exact List.suffix_cons _ _
  · exact List.suffix_refl _

theorem isNamePart_of_isDigitIn {base : Nat} {c : Char} (h : isNamePart c = false) :
    Number.isDigitIn base c = false := by
  refine Bool.eq_false_iff.2 fun hdigit ↦ absurd h ?_
  unfold isNamePart
  rw [isAlphanum_of_isDigitIn hdigit]
  exact Bool.noConfusion

/-- The name of an entity does not depend on what follows a character that is none of its own. -/
theorem longestEntity?_append {stop : Char} (hstop : isNamePart stop = false)
    (cs behind : List Char) : longestEntity? (cs ++ stop :: behind) = longestEntity? cs := by
  unfold longestEntity?
  rw [takeWhile_append_stop hstop]

/-- What stands behind a numeric reference is the end of the text. -/
theorem numericReference?_suffix {digits : List Char} {found : List Char × List Char}
    (h : numericReference? digits = some found) : found.2 <:+ digits := by
  rw [numericReference?_eq] at h
  unfold numbered? at h
  split at h
  · cases h
  · obtain rfl := Option.some.inj h
    exact (behindSemicolon_suffix _).trans
      ((List.dropWhile_suffix _).trans (baseMark_suffix digits))

/-- A numeric reference does not depend on what follows it. -/
theorem numericReference?_append {stop : Char} (hpart : isNamePart stop = false)
    (digits behind : List Char) : numericReference? (digits ++ stop :: behind) =
      (numericReference? digits).map fun f ↦ (f.1, f.2 ++ stop :: behind) := by
  have hdigit (base : Nat) : Number.isDigitIn base stop = false := isNamePart_of_isDigitIn hpart
  have hne {c : Char} (hc : isNamePart c = true) : stop ≠ c := by
    rintro rfl
    rw [hpart] at hc
    cases hc
  rw [numericReference?_eq, numericReference?_eq,
    baseMark_append (hne (by decide)) (hne (by decide))]
  unfold numbered?
  rw [takeWhile_append_stop (hdigit _), dropWhile_append_stop (hdigit _),
    behindSemicolon_append (hne (by decide))]
  split <;> rfl

/-- What stands behind a named reference is the end of the text. -/
theorem namedReference?_suffix {inValue : Bool} {cs : List Char} {found : List Char × List Char}
    (h : namedReference? inValue cs = some found) : found.2 <:+ cs := by
  unfold namedReference? at h
  split at h
  · cases h
  · dsimp only at h
    split at h
    · cases h
    · obtain rfl := Option.some.inj h
      exact List.drop_suffix _ _

/-- A named reference does not depend on what follows it. -/
theorem namedReference?_append {stop : Char} (hpart : isNamePart stop = false)
    (hequals : stop ≠ '=') (cs behind : List Char) : namedReference? true (cs ++ stop :: behind) =
      (namedReference? true cs).map fun f ↦ (f.1, f.2 ++ stop :: behind) := by
  unfold namedReference?
  rw [longestEntity?_append hpart]
  cases hentity : longestEntity? cs with
  | none => rfl
  | some found =>
    obtain ⟨name, value⟩ := found
    have hlength : name.length ≤ cs.length :=
      ((isPrefix_of_longestEntity? hentity).trans (List.takeWhile_prefix _)).length_le
    have hgoesOn : ((cs ++ stop :: behind).drop name.length).head?.any
        (fun c ↦ c == '=' || c.isAlphanum) =
          (cs.drop name.length).head?.any fun c ↦ c == '=' || c.isAlphanum := by
      rw [List.drop_append_of_le_length hlength]
      cases cs.drop name.length with
      | nil =>
        have halnum : stop.isAlphanum = false := (Bool.or_eq_false_iff.1 hpart).1
        simp [hequals, halnum]
      | cons c rest => rfl
    dsimp only
    rw [hgoesOn]
    split
    · rfl
    · rw [List.drop_append_of_le_length hlength]
      rfl

/-- In a value, a reference does not depend on what stands behind the value. -/
theorem reference?_append (cs : List Char) : ∃ found : Option (List Char × List Char),
    (∀ f ∈ found, f.2 <:+ cs) ∧ ∀ stop behind, endsReference stop = true →
      reference? true (cs ++ stop :: behind) = found.map fun f ↦ (f.1, f.2 ++ stop :: behind) := by
  have hstops {stop : Char} (hstop : endsReference stop = true) :
      isNamePart stop = false ∧ stop ≠ '#' ∧ stop ≠ '=' := by
    simpa [endsReference, isReferencePart, and_assoc] using hstop
  by_cases hnumeric : ∃ digits, cs = '#' :: digits
  · obtain ⟨digits, rfl⟩ := hnumeric
    exact ⟨numericReference? digits,
      fun f hf ↦ (numericReference?_suffix hf).trans (List.suffix_cons _ _),
      fun stop behind hstop ↦ numericReference?_append (hstops hstop).1 digits behind⟩
  · have hnamed {next : List Char} (hnext : ∀ digits, next ≠ '#' :: digits) :
        reference? true next = namedReference? true next := by
      unfold reference?
      split
      · exact (hnext _ rfl).elim
      · rfl
    refine ⟨namedReference? true cs, fun f ↦ namedReference?_suffix, fun stop behind hstop ↦ ?_⟩
    obtain ⟨hpart, hmark, hequals⟩ := hstops hstop
    rw [hnamed fun digits heq ↦ ?_, namedReference?_append hpart hequals]
    cases cs with
    | nil => exact hmark (List.cons.inj heq).1
    | cons c cs =>
      obtain ⟨rfl, -⟩ := List.cons.inj heq
      exact hnumeric ⟨cs, rfl⟩

namespace Lexer

/-! ### Values -/

/-- White space ends references. -/
theorem isReferencePart_of_isSpace {c : Char} (h : isSpace c = true) :
    isReferencePart c = false := by
  simp only [isSpace, Bool.or_eq_true, beq_iff_eq] at h
  rcases h with (((rfl | rfl) | rfl) | rfl) | rfl
  all_goals decide

/-- Where an unquoted value ends. -/
def endsValue (c : Char) : Bool := isSpace c || c == '>'

/-- What ends a bare value ends references in it. -/
theorem endsReference_of_endsValue {c : Char} (h : endsValue c = true) :
    endsReference c = true := by
  unfold endsReference
  rcases Bool.or_eq_true_iff.1 h with h | h
  · rw [isReferencePart_of_isSpace h, Bool.not_false, Bool.true_and]
    refine bne_iff_ne.2 ?_
    rintro rfl
    exact absurd h (by decide)
  · rw [beq_iff_eq.1 h]
    decide

/-- A quoted text is read as a value, whatever stands behind it. -/
def ReadsQuoted (quote : Char) (inner value : List Char) : Prop :=
  ∀ rest fuel, inner.length < fuel →
    quotedValue? quote fuel [] (inner ++ quote :: rest) = some (value, rest)

/-- An unquoted text is read as a value, whatever stands behind it. -/
def ReadsBare (cs value : List Char) : Prop :=
  ∀ stop rest fuel, endsValue stop = true → cs.length ≤ fuel →
    bareValue fuel [] (cs ++ stop :: rest) = (value, stop :: rest)

/-- A character of a quoted value is read, or a reference that begins with it. -/
theorem quotedValue?_step {quote c : Char} (hquote : endsReference quote = true) (hc : c ≠ quote)
    (cs : List Char) : ∃ shown left, left <:+ cs ∧ ∀ acc rest fuel,
      quotedValue? quote (fuel + 1) acc (c :: cs ++ quote :: rest) =
        quotedValue? quote fuel (shown ++ acc) (left ++ quote :: rest) := by
  have hne : ¬(c == quote) = true := by simpa using hc
  by_cases hmark : (c == '&') = true
  · obtain ⟨found, hsuffix, hfound⟩ := reference?_append cs
    cases found with
    | none =>
      refine ⟨['&'], cs, List.suffix_refl _, fun acc rest fuel ↦ ?_⟩
      rw [List.cons_append, quotedValue?, if_neg hne, if_pos hmark, hfound quote rest hquote]
      rfl
    | some f =>
      refine ⟨f.1.reverse, f.2, hsuffix f rfl, fun acc rest fuel ↦ ?_⟩
      rw [List.cons_append, quotedValue?, if_neg hne, if_pos hmark, hfound quote rest hquote]
      rfl
  · refine ⟨[visible c], cs, List.suffix_refl _, fun acc rest fuel ↦ ?_⟩
    rw [List.cons_append, quotedValue?, if_neg hne, if_neg hmark]
    rfl

/-- A bare value is read in steps that do not depend on what follows it. -/
theorem bareValue_step {c : Char} (hc : endsValue c = false) (cs : List Char) :
    ∃ shown left, left <:+ cs ∧ ∀ stop acc rest fuel, endsValue stop = true →
      bareValue (fuel + 1) acc (c :: cs ++ stop :: rest) =
        bareValue fuel (shown ++ acc) (left ++ stop :: rest) := by
  have hne : ¬(isSpace c || c == '>') = true := Bool.eq_false_iff.1 hc
  by_cases hmark : (c == '&') = true
  · obtain ⟨found, hsuffix, hfound⟩ := reference?_append cs
    cases found with
    | none =>
      refine ⟨['&'], cs, List.suffix_refl _, fun stop acc rest fuel hstop ↦ ?_⟩
      rw [List.cons_append, bareValue, if_neg hne, if_pos hmark,
        hfound stop rest (endsReference_of_endsValue hstop)]
      rfl
    | some f =>
      refine ⟨f.1.reverse, f.2, hsuffix f rfl, fun stop acc rest fuel hstop ↦ ?_⟩
      rw [List.cons_append, bareValue, if_neg hne, if_pos hmark,
        hfound stop rest (endsReference_of_endsValue hstop)]
      rfl
  · refine ⟨[visible c], cs, List.suffix_refl _, fun stop acc rest fuel _ ↦ ?_⟩
    rw [List.cons_append, bareValue, if_neg hne, if_neg hmark]
    rfl

/-- What stands between quotes is a value, whatever follows. -/
theorem exists_readsQuoted {quote : Char} (hquote : endsReference quote = true) {inner : List Char}
    (hinner : quote ∉ inner) : ∃ value, ReadsQuoted quote inner value := by
  have hread (n : Nat) : ∀ inner acc : List Char, inner.length ≤ n → quote ∉ inner → ∃ value,
      ∀ rest fuel, inner.length < fuel →
        quotedValue? quote fuel acc (inner ++ quote :: rest) = some (value, rest) := by
    have hend (acc : List Char) : ∃ value, ∀ rest fuel, ([] : List Char).length < fuel →
        quotedValue? quote fuel acc ([] ++ quote :: rest) = some (value, rest) := by
      refine ⟨acc.reverse, fun rest fuel hfuel ↦ ?_⟩
      obtain ⟨fuel, rfl⟩ := Nat.exists_eq_add_one_of_ne_zero (Nat.ne_of_gt hfuel)
      rw [List.nil_append, quotedValue?, if_pos (beq_self_eq_true _)]
    -- a reference may take more than one character
    induction n with
    | zero =>
      intro inner acc hlength _
      obtain rfl := List.eq_nil_of_length_eq_zero (Nat.le_zero.1 hlength)
      exact hend acc
    | succ n ih =>
      intro inner acc hlength hinner
      cases inner with
      | nil => exact hend acc
      | cons c cs =>
        obtain ⟨hc, hcs⟩ := not_or.1 (mt List.mem_cons.2 hinner)
        obtain ⟨shown, left, hleft, hstep⟩ := quotedValue?_step hquote (Ne.symm hc) cs
        have hle := hleft.length_le
        rw [List.length_cons] at hlength
        obtain ⟨value, hvalue⟩ := ih left (shown ++ acc) (by omega) fun h ↦ hcs (hleft.subset h)
        refine ⟨value, fun rest fuel hfuel ↦ ?_⟩
        rw [List.length_cons] at hfuel
        obtain ⟨fuel, rfl⟩ := Nat.exists_eq_add_one_of_ne_zero (by omega : fuel ≠ 0)
        rw [hstep, hvalue rest fuel (by omega)]
  exact hread inner.length inner [] (Nat.le_refl _) hinner

/-- So is what a bare value is made of. -/
theorem exists_readsBare {cs : List Char} (hcs : ∀ c ∈ cs, endsValue c = false) :
    ∃ value, ReadsBare cs value := by
  have hread (n : Nat) : ∀ cs acc : List Char, cs.length ≤ n → (∀ c ∈ cs, endsValue c = false) →
      ∃ value, ∀ stop rest fuel, endsValue stop = true → cs.length ≤ fuel →
        bareValue fuel acc (cs ++ stop :: rest) = (value, stop :: rest) := by
    have hend (acc : List Char) : ∃ value, ∀ stop rest fuel, endsValue stop = true →
        ([] : List Char).length ≤ fuel →
          bareValue fuel acc ([] ++ stop :: rest) = (value, stop :: rest) := by
      refine ⟨acc.reverse, fun stop rest fuel hstop _ ↦ ?_⟩
      cases fuel with
      | zero => rfl
      | succ fuel =>
        rw [List.nil_append, bareValue]
        exact if_pos hstop
    induction n with
    | zero =>
      intro cs acc hlength _
      obtain rfl := List.eq_nil_of_length_eq_zero (Nat.le_zero.1 hlength)
      exact hend acc
    | succ n ih =>
      intro cs acc hlength hcs
      cases cs with
      | nil => exact hend acc
      | cons c cs =>
        obtain ⟨hc, hcs⟩ := List.forall_mem_cons.1 hcs
        obtain ⟨shown, left, hleft, hstep⟩ := bareValue_step hc cs
        have hle := hleft.length_le
        rw [List.length_cons] at hlength
        obtain ⟨value, hvalue⟩ := ih left (shown ++ acc) (by omega) fun d hd ↦ hcs d (hleft.subset hd)
        refine ⟨value, fun stop rest fuel hstop hfuel ↦ ?_⟩
        rw [List.length_cons] at hfuel
        obtain ⟨fuel, rfl⟩ := Nat.exists_eq_add_one_of_ne_zero (by omega : fuel ≠ 0)
        rw [hstep stop acc rest fuel hstop, hvalue stop rest fuel hstop (by omega)]
  exact hread cs.length cs [] (Nat.le_refl _) hcs

/-- A quoted value without references is read as it is written. -/
theorem quotedValue?_of_plain {quote : Char} (rest : List Char) : ∀ {fuel : Nat}
    {inner acc : List Char}, (∀ c ∈ inner, c ≠ quote ∧ c ≠ '&' ∧ c ≠ '\x00') → inner.length < fuel →
      quotedValue? quote fuel acc (inner ++ quote :: rest) =
        some (acc.reverse ++ inner, rest) := by
  intro fuel
  induction fuel with
  | zero => exact fun _ hlength ↦ absurd hlength (Nat.not_lt_zero _)
  | succ fuel ih =>
    intro inner acc hinner hlength
    cases inner with
    | nil => rw [List.nil_append, quotedValue?, if_pos (beq_self_eq_true _), List.append_nil]
    | cons c inner =>
      obtain ⟨⟨hquote, hreference, hnull⟩, hinner⟩ := List.forall_mem_cons.1 hinner
      have hvisible : visible c = c := by
        unfold visible
        rw [if_neg (by simpa using hnull)]
      rw [List.cons_append, quotedValue?, if_neg (by simpa using hquote),
        if_neg (by simpa using hreference), hvisible, ih hinner (Nat.lt_of_succ_lt_succ hlength)]
      simp

/-! ### Attributes -/

/-- White space, of which there may be none. -/
def IsGap (cs : List Char) : Prop := ∀ c ∈ cs, isSpace c = true

/-- Whether a character goes on an attribute's name. -/
def isNamed (c : Char) : Bool := !(endsName c || c == '=')

def IsName (cs : List Char) : Prop := cs ≠ [] ∧ ∀ c ∈ cs, isNamed c = true

/-- Attributes as they are written, each with the white space before it, and as they are read: in
order, each with its value. It is told apart whether the last value is unquoted. -/
inductive Attributes : Bool → List Char → List (String × String) → Prop
  | nil : Attributes false [] []
  | alone {gap name more : List Char} {read : List (String × String)} {bare : Bool} (hne : gap ≠ [])
    (hgap : IsGap gap) (hname : IsName name) : Attributes bare more read →
    Attributes bare (gap ++ (name ++ more)) ((lowered name, "") :: read)
  | quoted {gap name before after inner value more : List Char} {q : Char}
    {read : List (String × String)} {bare : Bool} (hne : gap ≠ []) (hgap : IsGap gap)
    (hname : IsName name) (hbefore : IsGap before) (hafter : IsGap after)
    (hq : q = '"' ∨ q = '\'') (hread : ReadsQuoted q inner value) : Attributes bare more read →
    Attributes bare (gap ++ (name ++ (before ++ '=' :: (after ++ (q :: (inner ++ q :: more))))))
      ((lowered name, String.ofList value) :: read)
  | bare {gap name before after cs value more : List Char} {c : Char}
    {read : List (String × String)} {bare : Bool} (hne : gap ≠ []) (hgap : IsGap gap)
    (hname : IsName name) (hbefore : IsGap before) (hafter : IsGap after) (hdouble : c ≠ '"')
    (hsingle : c ≠ '\'') (hcs : ∀ d ∈ c :: cs, endsValue d = false)
    (hread : ReadsBare (c :: cs) value) : Attributes bare more read →
    Attributes (bare || more.isEmpty)
      (gap ++ (name ++ (before ++ '=' :: (after ++ (c :: cs ++ more)))))
      ((lowered name, String.ofList value) :: read)

theorem isNamed_iff {c : Char} : isNamed c = true ↔
    isSpace c = false ∧ c ≠ '/' ∧ c ≠ '>' ∧ c ≠ '=' := by
  simp [isNamed, endsName, and_assoc]

theorem skipSpace_gap {gap : List Char} (hgap : IsGap gap) (cs : List Char) :
    skipSpace (gap ++ cs) = skipSpace cs := List.dropWhile_append_of_pos hgap

theorem skipSpace_cons {c : Char} (hc : isSpace c = false) (cs : List Char) :
    skipSpace (c :: cs) = c :: cs :=
  List.dropWhile_cons_of_neg (Bool.eq_false_iff.1 hc)

/-- What may follow a name: white space, if any, and then a character that assigns no value. With
no white space it is one that ends the tag. -/
def Follows (cs : List Char) : Prop :=
  ∃ gap c rest, cs = gap ++ c :: rest ∧ IsGap gap ∧ isSpace c = false ∧ c ≠ '=' ∧
    (gap = [] → c = '/' ∨ c = '>')

/-- What may follow a name ends it. -/
theorem Follows.exists_ends {cs : List Char} (h : Follows cs) :
    ∃ c rest, cs = c :: rest ∧ endsName c = true := by
  obtain ⟨gap, c, rest, rfl, hgap, -, -, hends⟩ := h
  cases gap with
  | nil =>
    refine ⟨c, rest, rfl, ?_⟩
    rcases hends rfl with rfl | rfl
    · decide
    · decide
  | cons b gap =>
    refine ⟨b, gap ++ c :: rest, rfl, ?_⟩
    unfold endsName
    rw [hgap b List.mem_cons_self]
    rfl

/-- A name is read to the character that ends it. -/
theorem attributeName_eq {name : List Char} (hname : IsName name) {stop : Char}
    (hstop : isNamed stop = false) (rest : List Char) :
    attributeName (name ++ stop :: rest) = (name, stop :: rest) := by
  obtain ⟨c, cs, rfl⟩ := List.exists_cons_of_ne_nil hname.1
  have hcs : ∀ d ∈ cs, isNamed d = true := fun d hd ↦ hname.2 d (List.mem_cons_of_mem c hd)
  change (c :: (cs ++ stop :: rest).takeWhile isNamed, (cs ++ stop :: rest).dropWhile isNamed) = _
  rw [List.takeWhile_append_of_pos hcs, List.dropWhile_append_of_pos hcs,
    List.takeWhile_cons_of_neg (Bool.eq_false_iff.1 hstop),
    List.dropWhile_cons_of_neg (Bool.eq_false_iff.1 hstop), List.append_nil]

theorem isNamed_of_endsName {c : Char} (h : endsName c = true) : isNamed c = false := by
  unfold isNamed
  rw [h]
  rfl

/-- An attribute without a value. -/
theorem attribute?_alone {name next : List Char} (hname : IsName name) (hnext : Follows next) :
    attribute? (name ++ next) = some ((lowered name, ""), next) := by
  obtain ⟨stop, rest, heq, hstop⟩ := hnext.exists_ends
  obtain ⟨gap, c, behind, hgaps, hgap, hspace, hequals, -⟩ := hnext
  have hread := attributeName_eq hname (isNamed_of_endsName hstop) rest
  rw [← heq] at hread
  unfold attribute?
  rw [hread]
  dsimp only
  rw [hgaps, skipSpace_gap hgap, skipSpace_cons hspace]
  split
  · exact absurd (List.cons.inj ‹_›).1 hequals
  · rfl

/-- An attribute with a value, with gaps around the sign. -/
theorem attribute?_assigned {name before behind value rest : List Char} (hname : IsName name)
    (hbefore : IsGap before) (hvalue : attributeValue? behind = some (value, rest)) :
    attribute? (name ++ (before ++ '=' :: behind)) =
      some ((lowered name, String.ofList value), rest) := by
  obtain ⟨stop, more, heq, hstop⟩ : ∃ stop more, before ++ '=' :: behind = stop :: more ∧
      isNamed stop = false := by
    cases before with
    | nil => exact ⟨'=', behind, rfl, by decide⟩
    | cons b before =>
      refine ⟨b, _, rfl, isNamed_of_endsName ?_⟩
      unfold endsName
      rw [hbefore b List.mem_cons_self]
      rfl
  have hread := attributeName_eq hname hstop more
  rw [← heq] at hread
  unfold attribute?
  rw [hread]
  dsimp only
  rw [skipSpace_gap hbefore, skipSpace_cons (by decide)]
  change (attributeValue? behind).map (fun x ↦ ((lowered name, String.ofList x.1), x.2)) = _
  rw [hvalue]
  rfl

/-- An attribute is read behind the white space before it. -/
theorem attributes?_cons {gap name next rest : List Char} {a : String × String} (hgap : IsGap gap)
    (hname : IsName name) (h : attribute? (name ++ next) = some (a, rest)) (fuel : Nat)
    (acc : List (String × String)) :
    attributes? (fuel + 1) acc (gap ++ (name ++ next)) =
      attributes? fuel (addAttribute acc a) rest := by
  obtain ⟨c, cs, rfl⟩ := List.exists_cons_of_ne_nil hname.1
  obtain ⟨hspace, hslash, hend, -⟩ := isNamed_iff.1 (hname.2 c List.mem_cons_self)
  rw [attributes?, skipSpace_gap hgap, List.cons_append, skipSpace_cons hspace]
  rw [List.cons_append] at h
  split
  · exact absurd ‹_› (List.cons_ne_nil _ _)
  · exact absurd (List.cons.inj ‹_›).1 hend
  · exact absurd (List.cons.inj ‹_›).1 hslash
  · exact absurd (List.cons.inj ‹_›).1 hslash
  · rw [h]

/-- The end of a tag, with what may stand before it. -/
def tagEnd (gap : List Char) (selfClosing : Bool) (rest : List Char) : List Char :=
  gap ++ ((if selfClosing then ['/'] else []) ++ '>' :: rest)

/-- The end of the tag ends its attributes. -/
theorem attributes?_tagEnd {gap : List Char} (hgap : IsGap gap) (selfClosing : Bool)
    (rest : List Char) (fuel : Nat) (acc : List (String × String)) :
    attributes? (fuel + 1) acc (tagEnd gap selfClosing rest) = some (acc, selfClosing, rest) := by
  unfold tagEnd
  rw [attributes?, skipSpace_gap hgap]
  cases selfClosing with
  | false => rfl
  | true => rfl

theorem follows_tagEnd {gap : List Char} (hgap : IsGap gap) (selfClosing : Bool)
    (rest : List Char) : Follows (tagEnd gap selfClosing rest) := by
  unfold tagEnd
  cases selfClosing with
  | false => exact ⟨gap, '>', rest, rfl, hgap, by decide, by decide, fun _ ↦ .inr rfl⟩
  | true => exact ⟨gap, '/', '>' :: rest, rfl, hgap, by decide, by decide, fun _ ↦ .inl rfl⟩

/-- Attributes may follow the name of a tag. -/
theorem Attributes.follows {bare : Bool} {attributes : List Char} {read : List (String × String)}
    (h : Attributes bare attributes read) {next : List Char} (hnext : Follows next) :
    Follows (attributes ++ next) := by
  have hhead {gap name : List Char} (hne : gap ≠ []) (hgap : IsGap gap) (hname : IsName name)
      (behind : List Char) : Follows (gap ++ (name ++ behind)) := by
    obtain ⟨c, cs, rfl⟩ := List.exists_cons_of_ne_nil hname.1
    obtain ⟨hspace, -, -, hequals⟩ := isNamed_iff.1 (hname.2 c List.mem_cons_self)
    exact ⟨gap, c, cs ++ behind, rfl, hgap, hspace, hequals, fun hnil ↦ absurd hnil hne⟩
  cases h with
  | nil => exact hnext
  | alone hne hgap hname _ =>
    rw [List.append_assoc, List.append_assoc]
    exact hhead hne hgap hname _
  | quoted hne hgap hname _ _ _ _ =>
    rw [List.append_assoc, List.append_assoc]
    exact hhead hne hgap hname _
  | bare hne hgap hname _ _ _ _ _ _ =>
    rw [List.append_assoc, List.append_assoc]
    exact hhead hne hgap hname _

/-- A value in quotes is read to the closing one. -/
theorem attributeValue?_quoted {q : Char} {inner after value : List Char} (hq : q = '"' ∨ q = '\'')
    (hread : ReadsQuoted q inner value) (hafter : IsGap after) (rest : List Char) :
    attributeValue? (after ++ (q :: (inner ++ q :: rest))) = some (value, rest) := by
  have hvalue := hread rest ((inner ++ q :: rest).length + 1) (by rw [List.length_append]; omega)
  unfold attributeValue?
  rw [skipSpace_gap hafter]
  rcases hq with rfl | rfl
  · rw [skipSpace_cons (by decide)]
    exact hvalue
  · rw [skipSpace_cons (by decide)]
    exact hvalue

/-- A bare value is read to what ends it. -/
theorem attributeValue?_bare {c stop : Char} {cs after value : List Char} (hdouble : c ≠ '"')
    (hsingle : c ≠ '\'') (hcs : ∀ d ∈ c :: cs, endsValue d = false)
    (hread : ReadsBare (c :: cs) value) (hafter : IsGap after) (hstop : endsValue stop = true)
    (rest : List Char) :
    attributeValue? (after ++ (c :: cs ++ stop :: rest)) = some (value, stop :: rest) := by
  have hfirst := hcs c List.mem_cons_self
  obtain ⟨hspace, hend⟩ : isSpace c = false ∧ c ≠ '>' := by simpa [endsValue] using hfirst
  have hvalue := hread stop rest (c :: cs ++ stop :: rest).length hstop
    (by rw [List.length_append]; omega)
  rw [List.cons_append] at hvalue ⊢
  unfold attributeValue?
  rw [skipSpace_gap hafter, skipSpace_cons hspace]
  split
  · exact absurd (List.cons.inj ‹_›).1 hdouble
  · exact absurd (List.cons.inj ‹_›).1 hsingle
  · exact absurd (List.cons.inj ‹_›).1 hend
  · rw [hvalue]

/-- Behind an unquoted value there are other attributes, or an end of the tag that ends the value. -/
theorem Attributes.ends_value {bare : Bool} {more gap : List Char} {read : List (String × String)}
    (h : Attributes bare more read) (hgap : IsGap gap) {selfClosing : Bool}
    (hslash : more = [] → selfClosing = true → gap ≠ []) (rest : List Char) :
    ∃ stop behind, more ++ tagEnd gap selfClosing rest = stop :: behind ∧
      endsValue stop = true := by
  have hspace {gap : List Char} (hne : gap ≠ []) (hgap : IsGap gap) (behind : List Char) :
      ∃ stop rest, gap ++ behind = stop :: rest ∧ endsValue stop = true := by
    obtain ⟨b, gap, rfl⟩ := List.exists_cons_of_ne_nil hne
    refine ⟨b, gap ++ behind, rfl, ?_⟩
    unfold endsValue
    rw [hgap b List.mem_cons_self]
    rfl
  cases h with
  | alone hne hgap' _ _ =>
    rw [List.append_assoc]
    exact hspace hne hgap' _
  | quoted hne hgap' _ _ _ _ _ _ =>
    rw [List.append_assoc]
    exact hspace hne hgap' _
  | bare hne hgap' _ _ _ _ _ _ _ _ =>
    rw [List.append_assoc]
    exact hspace hne hgap' _
  | nil =>
    by_cases hne : gap = []
    · subst hne
      cases selfClosing with
      | false => exact ⟨'>', rest, rfl, by decide⟩
      | true => exact absurd rfl (hslash rfl rfl)
    · exact hspace hne hgap _

/-- Attributes are read up to the end of their tag, unless the slash of that end stands right behind
an unquoted value. -/
theorem Attributes.attributes?_eq {bare : Bool} {attributes : List Char}
    {read : List (String × String)} (h : Attributes bare attributes read) {gap : List Char}
    (hgap : IsGap gap) {selfClosing : Bool}
    (hslash : bare = true → selfClosing = true → gap ≠ []) (rest : List Char) :
    ∀ {fuel : Nat} {acc : List (String × String)}, attributes.length < fuel →
      attributes? fuel acc (attributes ++ tagEnd gap selfClosing rest) =
        some (read.foldl addAttribute acc, selfClosing, rest) := by
  induction h with
  | nil =>
    intro fuel acc hfuel
    obtain ⟨fuel, rfl⟩ := Nat.exists_eq_add_one_of_ne_zero (Nat.ne_of_gt hfuel)
    exact attributes?_tagEnd hgap selfClosing rest fuel acc
  | @alone gap' name more read bare hne hgap' hname hmore ih =>
    intro fuel acc hfuel
    simp only [List.length_append] at hfuel
    obtain ⟨fuel, rfl⟩ := Nat.exists_eq_add_one_of_ne_zero (by omega : fuel ≠ 0)
    have hpos := List.length_pos_iff.2 hne
    have hfollows := hmore.follows (follows_tagEnd hgap selfClosing rest)
    rw [List.append_assoc, List.append_assoc,
      attributes?_cons hgap' hname (attribute?_alone hname hfollows), ih hslash (by omega)]
    rfl
  | @quoted gap' name before after inner value more q read bare hne hgap' hname hbefore hafter hq
      hread hmore ih =>
    intro fuel acc hfuel
    simp only [List.length_append, List.length_cons] at hfuel
    obtain ⟨fuel, rfl⟩ := Nat.exists_eq_add_one_of_ne_zero (by omega : fuel ≠ 0)
    have hpos := List.length_pos_iff.2 hne
    have hvalue := attributeValue?_quoted hq hread hafter (more ++ tagEnd gap selfClosing rest)
    have hone := attributes?_cons hgap' hname (attribute?_assigned hname hbefore hvalue) fuel acc
    rw [ih hslash (by omega)] at hone
    rw [List.foldl_cons, ← hone]
    simp only [List.append_assoc, List.cons_append]
  | @bare gap' name before after cs value more c read bare hne hgap' hname hbefore hafter hdouble
      hsingle hcs hread hmore ih =>
    intro fuel acc hfuel
    simp only [List.length_append, List.length_cons] at hfuel
    obtain ⟨fuel, rfl⟩ := Nat.exists_eq_add_one_of_ne_zero (by omega : fuel ≠ 0)
    have hpos := List.length_pos_iff.2 hne
    have hends : more = [] → selfClosing = true → gap ≠ [] := by
      rintro rfl
      exact hslash (Bool.or_true _)
    obtain ⟨stop, behind, heq, hstop⟩ := hmore.ends_value hgap hends rest
    have hvalue := attributeValue?_bare hdouble hsingle hcs hread hafter hstop behind
    rw [← heq] at hvalue
    have hone := attributes?_cons hgap' hname (attribute?_assigned hname hbefore hvalue) fuel acc
    rw [ih (fun hb ↦ hslash (by rw [hb]; rfl)) (by omega)] at hone
    rw [List.foldl_cons, ← hone]
    simp only [List.append_assoc, List.cons_append]

/-- A slash behind an unquoted value is part of it. -/
theorem Attributes.slash {attributes : List Char} {read : List (String × String)}
    (h : Attributes true attributes read) : ∃ read', Attributes true (attributes ++ ['/']) read' ∧
      read'.map Prod.fst = read.map Prod.fst := by
  generalize hbare : true = bare at h
  induction h with
  | nil => cases hbare
  | alone hne hgap hname hmore ih =>
    obtain ⟨read', hread', hnames⟩ := ih hbare
    rw [List.append_assoc, List.append_assoc]
    exact ⟨_, .alone hne hgap hname hread', by rw [List.map_cons, hnames]; rfl⟩
  | quoted hne hgap hname hbefore hafter hq hread hmore ih =>
    obtain ⟨read', hread', hnames⟩ := ih hbare
    have hall := Attributes.quoted hne hgap hname hbefore hafter hq hread hread'
    exact ⟨_, by simpa only [List.append_assoc, List.cons_append] using hall, by simp [hnames]⟩
  | @bare gap name before after cs value more c read bare hne hgap hname hbefore hafter hdouble
      hsingle hcs hread hmore ih =>
    cases more with
    | nil =>
      have hslash : ∀ d ∈ c :: (cs ++ ['/']), endsValue d = false := by
        rw [← List.cons_append]
        refine List.forall_mem_append.2 ⟨hcs, fun d hd ↦ ?_⟩
        rw [List.mem_singleton.1 hd]
        decide
      obtain ⟨value', hread'⟩ := exists_readsBare hslash
      have hall := Attributes.bare hne hgap hname hbefore hafter hdouble hsingle hslash hread' hmore
      refine ⟨(lowered name, String.ofList value') :: read, ?_, rfl⟩
      simpa only [List.append_assoc, List.cons_append, List.nil_append, List.append_nil] using hall
    | cons d more =>
      obtain ⟨read', hread', hnames⟩ := ih (by simpa using hbare)
      have hall := Attributes.bare hne hgap hname hbefore hafter hdouble hsingle hcs hread hread'
      refine ⟨(lowered name, String.ofList value) :: read', ?_, by simp [hnames]⟩
      simpa only [List.append_assoc, List.cons_append, List.isEmpty_cons, Bool.or_false] using hall

/-- An attribute in front of others that notes something in quotes. -/
theorem Attributes.noted {bare : Bool} {attributes : List Char} {read : List (String × String)}
    (h : Attributes bare attributes read) {key value : List Char} (hkey : IsName key)
    (hvalue : ∀ c ∈ value, c ≠ '"' ∧ c ≠ '&' ∧ c ≠ '\x00') :
    Attributes bare (' ' :: (key ++ '=' :: '"' :: (value ++ '"' :: attributes)))
      ((lowered key, String.ofList value) :: read) := by
  have hnone : IsGap [] := fun _ h ↦ absurd h List.not_mem_nil
  have hspace : IsGap [' '] := fun c hc ↦ by
    rw [List.mem_singleton.1 hc]
    decide
  have hread : ReadsQuoted '"' value value := fun rest fuel hfuel ↦
    quotedValue?_of_plain rest hvalue hfuel
  exact .quoted (List.cons_ne_nil _ _) hspace hkey hnone hnone (.inl rfl) hread h

/-- No name gets lost. -/
theorem key_mem_foldl {key : String} {read acc : List (String × String)}
    (h : key ∈ acc.map Prod.fst ∨ key ∈ read.map Prod.fst) :
    key ∈ (read.foldl addAttribute acc).map Prod.fst := by
  induction read generalizing acc with
  | nil => exact h.resolve_right List.not_mem_nil
  | cons a read ih =>
    refine ih ?_
    rw [List.map_cons, List.mem_cons] at h
    unfold addAttribute
    split
    · rename_i hany
      obtain ⟨b, hb, hkey⟩ := List.any_eq_true.1 hany
      rcases h with hmem | rfl | hmem
      · exact .inl hmem
      · exact .inl (List.mem_map.2 ⟨b, hb, beq_iff_eq.1 hkey⟩)
      · exact .inr hmem
    · rw [List.map_append, List.mem_append, List.map_singleton, List.mem_singleton]
      rcases h with hmem | heq | hmem
      · exact .inl (.inl hmem)
      · exact .inl (.inr heq)
      · exact .inr hmem

/-- Of several attributes of one name the first is kept, so none is made up. -/
theorem mem_foldl_addAttribute {a : String × String} {read acc : List (String × String)}
    (h : a ∈ read.foldl addAttribute acc) : a ∈ acc ∨ a ∈ read := by
  induction read generalizing acc with
  | nil => exact .inl h
  | cons b read ih =>
    rcases ih h with hmem | hmem
    · unfold addAttribute at hmem
      split at hmem
      · exact .inl hmem
      · rcases List.mem_append.1 hmem with hmem | hmem
        · exact .inl hmem
        · exact .inr (List.mem_singleton.1 hmem ▸ List.mem_cons_self)
    · exact .inr (List.mem_cons_of_mem b hmem)

/-! ### Tags -/

/-- The name of a tag as it is written. -/
structure IsTagName (name : List Char) : Prop where
  letter : ∃ c cs, name = c :: cs ∧ c.isAlpha = true
  plain : ∀ c ∈ name, endsName c = false ∧ c ≠ '\x00'

section

variable {name : List Char} (hname : IsTagName name) (rest : List Char)

include hname

/-- A tag is its name and its attributes. -/
theorem tag?_eq {behind : List Char} {read : List (String × String)} {closes : Bool}
    (hends : ∃ c cs, behind = c :: cs ∧ endsName c = true)
    (h : attributes? (behind.length + 1) [] behind = some (read, closes, rest)) :
    tag? (name ++ behind) = some (⟨lowered name, read, closes⟩, rest) := by
  obtain ⟨c, cs, rfl, hc⟩ := hends
  have hname : ∀ c ∈ name, (!endsName c) = true := fun c hc ↦ by rw [(hname.plain c hc).1]; rfl
  have htake : (c :: cs).takeWhile (fun c ↦ !endsName c) = [] :=
    List.takeWhile_cons_of_neg (by simp [hc])
  have hdrop : (c :: cs).dropWhile (fun c ↦ !endsName c) = c :: cs :=
    List.dropWhile_cons_of_neg (by simp [hc])
  unfold tag?
  rw [List.takeWhile_append_of_pos hname, List.dropWhile_append_of_pos hname, htake, hdrop,
    List.append_nil]
  dsimp only
  rw [h]
  rfl

/-- A tag is read up to its end. -/
theorem tag?_of_written {bare : Bool} {attributes gap : List Char} {read : List (String × String)}
    (hattributes : Attributes bare attributes read) (hgap : IsGap gap) {selfClosing : Bool}
    (hslash : bare = true → selfClosing = true → gap ≠ []) :
    tag? (name ++ (attributes ++ tagEnd gap selfClosing rest)) =
      some (⟨lowered name, read.foldl addAttribute [], selfClosing⟩, rest) := by
  have hlength : attributes.length < (attributes ++ tagEnd gap selfClosing rest).length + 1 := by
    rw [List.length_append]
    omega
  have hends := (hattributes.follows (follows_tagEnd hgap selfClosing rest)).exists_ends
  exact tag?_eq hname rest hends (hattributes.attributes?_eq hgap hslash rest hlength)

end

/-! ### Steps -/

/-- Characters that a bracket begins more than text with. -/
def beginsMarkup (c : Char) : Bool := c.isAlpha || c == '/' || c == '!' || c == '?'

/-- Text none of whose brackets begins a tag, a comment or a declaration. -/
def IsText (cs : List Char) : Prop := ∀ c rest, '<' :: c :: rest <:+ cs → beginsMarkup c = false

/-- The end of a text is one. -/
theorem IsText.of_suffix {cs left : List Char} (h : IsText cs) (hleft : left <:+ cs) :
    IsText left := fun c rest hsuffix ↦ h c rest (hsuffix.trans hleft)

/-- Kinds of text that elements may be in, or that they hold. -/
inductive IsTextKind : TextMode → Prop
  | markup : IsTextKind .markup
  | references (name : String) : IsTextKind (.references name)
  | raw (name : String) : IsTextKind (.raw name)
  | script : IsTextKind (.script .none)

/-- The text ends, or a tag begins. -/
def EndsText (cs : List Char) : Prop := cs = [] ∨ ∃ rest, cs = '<' :: rest

/-- A bracket that begins no markup is text. -/
theorem bracketStep_of_text (foreign : Bool) {c : Char} (hc : beginsMarkup c = false)
    (cs : List Char) : bracketStep foreign (c :: cs) = ⟨[.char '<'], .markup, c :: cs⟩ := by
  simp only [beginsMarkup, Bool.or_eq_false_iff, beq_eq_false_iff_ne] at hc
  obtain ⟨⟨⟨halpha, hslash⟩, hbang⟩, hquestion⟩ := hc
  unfold bracketStep
  split
  · exact absurd (List.cons.inj ‹_›).1 hbang
  · exact absurd (List.cons.inj ‹_›).1 hslash
  · exact absurd (List.cons.inj ‹_›).1 hslash
  · exact absurd (List.cons.inj ‹_›).1 hquestion
  · obtain ⟨rfl, rfl⟩ := List.cons.inj ‹_›
    rw [halpha]
    rfl
  · exact absurd ‹_› (List.cons_ne_nil _ _)

section

variable {c : Char} {cs rest : List Char} (hrest : EndsText rest)

include hrest

/-- A reference in a text ends in it. -/
theorem reference?_left {value behind : List Char}
    (h : reference? false (cs ++ rest) = some (value, behind)) :
    ∃ left, behind = left ++ rest ∧ left <:+ cs := by
  rcases hrest with rfl | ⟨more, rfl⟩
  · obtain ⟨taken, heq, -⟩ := reference?_consumes h
    rw [List.append_nil] at heq
    exact ⟨behind, (List.append_nil _).symm, taken, heq.symm⟩
  · exact reference?_stops (by decide) h

/-- What stands for a reference is text. -/
theorem referenceStep_left (kind : TextMode) : ∃ (shown left : List Char),
    referenceStep kind (cs ++ rest) = ⟨shown.map Token.char, kind, left ++ rest⟩ ∧ left <:+ cs := by
  unfold referenceStep
  split
  · rename_i value behind hreference
    obtain ⟨left, rfl, hleft⟩ := reference?_left hrest hreference
    exact ⟨value, left, rfl, hleft⟩
  · exact ⟨['&'], cs, rfl, List.suffix_rfl⟩

variable (h : IsText (c :: cs))

include h

/-- What follows a bracket in a text begins no markup. -/
theorem head_of_bracket (hc : c = '<') {d : Char} {more : List Char}
    (heq : cs ++ rest = d :: more) : beginsMarkup d = false := by
  subst hc
  cases cs with
  | nil =>
    rcases hrest with rfl | ⟨behind, rfl⟩
    · cases heq
    · obtain ⟨rfl, -⟩ := List.cons.inj heq
      decide
  | cons e cs =>
    obtain ⟨rfl, -⟩ := List.cons.inj heq
    exact h _ _ List.suffix_rfl

/-- A text holds no closing tag. -/
theorem ownClosing?_of_isText (name : String) : ownClosing? name (c :: (cs ++ rest)) = none := by
  unfold ownClosing?
  split
  · rename_i behind heq
    obtain ⟨hc, hslash⟩ := List.cons.inj heq
    exact absurd (head_of_bracket hrest h hc hslash) (by decide)
  · rfl

/-- A step into a text takes a part of it, and the text goes on behind it. -/
theorem step_of_isText {kind : TextMode} (hkind : IsTextKind kind) (foreign : Bool) :
    ∃ (shown left : List Char),
      step kind foreign c (cs ++ rest) = ⟨shown.map Token.char, kind, left ++ rest⟩ ∧ left <:+ cs := by
  have hone (shown : Char) : ∃ (chars left : List Char),
      (⟨[.char shown], kind, cs ++ rest⟩ : Step) = ⟨chars.map Token.char, kind, left ++ rest⟩ ∧
        left <:+ cs := ⟨[shown], cs, rfl, List.suffix_rfl⟩
  have hclosing := ownClosing?_of_isText hrest h
  cases hkind with
  | markup =>
    unfold step
    dsimp only
    split
    · rename_i hc
      cases heq : cs ++ rest with
      | nil =>
        rw [heq] at hone
        exact hone '<'
      | cons d more =>
        rw [heq] at hone
        rw [bracketStep_of_text foreign (head_of_bracket hrest h (beq_iff_eq.1 hc) heq)]
        exact hone '<'
    · split
      · exact referenceStep_left hrest _
      · exact hone c
  | references name =>
    unfold step textStep
    dsimp only
    rw [hclosing name]
    dsimp only
    split
    · exact referenceStep_left hrest _
    · exact hone _
  | raw name =>
    unfold step textStep
    dsimp only
    rw [hclosing name]
    exact hone _
  | script =>
    have hcomment : Text.dropKnown? "<!--".toList (c :: (cs ++ rest)) = none := by
      have hword : "<!--".toList = ['<', '!', '-', '-'] := rfl
      rw [hword, Text.dropKnown?]
      split
      · rename_i hc
        cases heq : cs ++ rest with
        | nil => rfl
        | cons d more =>
          have hd := head_of_bracket hrest h hc.symm heq
          rw [Text.dropKnown?, if_neg]
          rintro rfl
          exact absurd hd (by decide)
      · rfl
    unfold step scriptStep
    dsimp only
    rw [hclosing "script", hcomment]
    exact hone _

end

section

variable {name behind rest : List Char} (hname : IsTagName name) {tag : Tag}
  (h : tag? (name ++ behind) = some (tag, rest))

include hname h

/-- An opening tag is one step. -/
theorem step_opening (foreign : Bool) :
    step .markup foreign '<' (name ++ behind) = ⟨[.opening tag], .markup, rest⟩ := by
  obtain ⟨c, cs, rfl, hc⟩ := hname.letter
  have hne {d : Char} (hd : d.isAlpha = false) : c ≠ d := by
    rintro rfl
    exact absurd hc (Bool.eq_false_iff.1 hd)
  change bracketStep foreign (c :: (cs ++ behind)) = _
  unfold bracketStep
  split
  · exact absurd (List.cons.inj ‹_›).1 (hne (by decide))
  · exact absurd (List.cons.inj ‹_›).1 (hne (by decide))
  · exact absurd (List.cons.inj ‹_›).1 (hne (by decide))
  · exact absurd (List.cons.inj ‹_›).1 (hne (by decide))
  · obtain ⟨rfl, rfl⟩ := List.cons.inj ‹_›
    rw [if_pos hc]
    unfold tagStep
    rw [List.cons_append] at h
    rw [h]
  · exact absurd ‹_› (List.cons_ne_nil _ _)

/-- A closing tag is one step. -/
theorem step_closing (foreign : Bool) :
    step .markup foreign '<' ('/' :: (name ++ behind)) = ⟨[.closing tag.name], .markup, rest⟩ := by
  obtain ⟨c, cs, rfl, hc⟩ := hname.letter
  have hend : c ≠ '>' := by
    rintro rfl
    exact absurd hc (by decide)
  change bracketStep foreign ('/' :: c :: (cs ++ behind)) = _
  unfold bracketStep
  split
  · exact absurd (List.cons.inj ‹_›).1 (by decide)
  · exact absurd (List.cons.inj (List.cons.inj ‹_›).2).1 hend
  · obtain ⟨rfl, rfl⟩ := List.cons.inj (List.cons.inj ‹_›).2
    rw [if_pos hc]
    unfold tagStep
    rw [List.cons_append] at h
    rw [h]
  · exact absurd (List.cons.inj ‹_›).1 (by decide)
  · rename_i hslash _ heq
    obtain ⟨rfl, rfl⟩ := List.cons.inj heq
    exact (hslash _ _ rfl rfl).elim
  · exact absurd ‹_› (List.cons_ne_nil _ _)

end

/-- A name is found as it is written, in any case. -/
theorem dropWord?_lowered {name : List Char} (hname : ∀ c ∈ name, c ≠ '\x00') (behind : List Char) :
    dropWord? (lowered name).toList (name ++ behind) = some behind := by
  unfold lowered
  rw [String.toList_ofList]
  induction name with
  | nil => rfl
  | cons c name ih =>
    obtain ⟨hc, hname⟩ := List.forall_mem_cons.1 hname
    have hvisible : visible c = c := by
      unfold visible
      rw [if_neg (by simpa using hc)]
    rw [List.map_cons, List.cons_append, dropWord?, hvisible, if_pos (beq_self_eq_true _)]
    exact ih hname

/-- Kinds of text that the closing tag of an element ends. -/
inductive EndsWith (name : String) : TextMode → Prop
  | references : EndsWith name (.references name)
  | raw : EndsWith name (.raw name)
  | script : name = "script" → EndsWith name (.script .none)

theorem EndsWith.isTextKind {name : String} {kind : TextMode} (h : EndsWith name kind) :
    IsTextKind kind := by
  cases h with
  | references => exact .references name
  | raw => exact .raw name
  | script => exact .script

/-- The closing tag of the element ends its text. -/
theorem step_ownClosing {name behind rest : List Char} (hname : IsTagName name)
    (hends : ∃ c cs, behind = c :: cs ∧ endsName c = true) {tag : Tag}
    (h : tag? (name ++ behind) = some (tag, rest)) {kind : TextMode}
    (hkind : EndsWith (lowered name) kind) (foreign : Bool) :
    step kind foreign '<' ('/' :: (name ++ behind)) = ⟨[.closing tag.name], .markup, rest⟩ := by
  obtain ⟨d, ds, rfl, hd⟩ := hends
  have hown : ownClosing? (lowered name) ('<' :: '/' :: (name ++ d :: ds)) =
      some (name ++ d :: ds) := by
    have hword := dropWord?_lowered (fun c hc ↦ (hname.plain c hc).2) (d :: ds)
    simp only [ownClosing?, hword]
    exact if_pos hd
  have htag : tagStep .markup (name ++ d :: ds) (fun tag ↦ .closing tag.name) =
      ⟨[.closing tag.name], .markup, rest⟩ := by
    unfold tagStep
    rw [h]
  cases hkind with
  | references =>
    unfold step textStep
    dsimp only
    rw [hown]
    exact htag
  | raw =>
    unfold step textStep
    dsimp only
    rw [hown]
    exact htag
  | script hscript =>
    rw [hscript] at hown
    unfold step scriptStep
    dsimp only
    rw [hown]
    exact htag

end Lexer

end Nodecraft.Markup
