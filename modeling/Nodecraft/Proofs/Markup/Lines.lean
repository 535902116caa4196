import Nodecraft.Proofs.Markup.Scanning

/-!
# Line endings

Before a text is read as HTML, its line endings become line feeds. Within a tag, line endings are
white space between attributes or stand in quoted values, so that the tag stays a tag with the same
attributes by name (`Attributes.lines`), and in a text they make no markup (`IsText.lines`).
-/

set_option autoImplicit false

namespace Nodecraft.Markup.Lexer

open normalized (lines)

theorem lines_cons {c : Char} (hc : c ≠ '\r') (cs : List Char) : lines (c :: cs) = c :: lines cs := by
  rw [lines]
  · rintro _ rfl
    exact absurd rfl hc
  · exact hc

/-- A return that is alone is a line end. -/
theorem lines_return {cs : List Char} (hcs : cs.head? ≠ some '\n') :
    lines ('\r' :: cs) = '\n' :: lines cs := by
  rw [lines]
  rintro rest rfl
  exact hcs rfl

/-- A part of a text that does not end within a line ending. -/
theorem lines_append {cs next : List Char} (h : next.head? ≠ some '\n' ∨ cs.getLast? ≠ some '\r') :
    lines (cs ++ next) = lines cs ++ lines next := by
  fun_induction lines cs with
  | case1 rest ih =>
    rw [List.cons_append, List.cons_append, lines, ih (h.imp_right fun hlast hrest ↦ hlast ?_)]
    · rfl
    · rw [List.getLast?_cons_cons]
      cases rest with
      | nil => cases hrest
      | cons d rest => rwa [List.getLast?_cons_cons]
  | case2 rest hrest ih =>
    have hhead : (rest ++ next).head? ≠ some '\n' := by
      cases rest with
      | nil => exact h.resolve_right fun hlast ↦ hlast rfl
      | cons d rest =>
        rintro heq
        obtain rfl := Option.some.inj heq
        exact hrest rest rfl
    rw [List.cons_append, lines_return hhead, ih (h.imp_right fun hlast hr ↦ hlast ?_)]
    · rfl
    · cases rest with
      | nil => cases hr
      | cons d rest => rwa [List.getLast?_cons_cons]
  | case3 c rest hcrlf hcr ih =>
    rw [List.cons_append, lines_cons hcr, ih (h.imp_right fun hlast hr ↦ hlast ?_)]
    · rfl
    · cases rest with
      | nil => cases hr
      | cons d rest => rwa [List.getLast?_cons_cons]
  | case4 => rfl

/-- A text without returns is left as it is. -/
theorem lines_eq_self {cs : List Char} (h : ∀ c ∈ cs, c ≠ '\r') : lines cs = cs := by
  induction cs with
  | nil => rfl
  | cons c cs ih =>
    obtain ⟨hc, hcs⟩ := List.forall_mem_cons.1 h
    rw [lines_cons hc, ih hcs]

/-- Only line ends are new. -/
theorem mem_lines {c : Char} {cs : List Char} (h : c ∈ lines cs) :
    c ∈ cs ∨ (c = '\n' ∧ '\r' ∈ cs) := by
  fun_induction lines cs with
  | case1 rest ih =>
    rcases List.mem_cons.1 h with rfl | h
    · exact .inr ⟨rfl, List.mem_cons_self⟩
    · rcases ih h with hmem | ⟨heq, -⟩
      · exact .inl (List.mem_cons_of_mem _ (List.mem_cons_of_mem _ hmem))
      · exact .inr ⟨heq, List.mem_cons_self⟩
  | case2 rest _ ih =>
    rcases List.mem_cons.1 h with rfl | h
    · exact .inr ⟨rfl, List.mem_cons_self⟩
    · rcases ih h with hmem | ⟨heq, -⟩
      · exact .inl (List.mem_cons_of_mem _ hmem)
      · exact .inr ⟨heq, List.mem_cons_self⟩
  | case3 d rest _ _ ih =>
    rcases List.mem_cons.1 h with rfl | h
    · exact .inl List.mem_cons_self
    · rcases ih h with hmem | ⟨heq, hmem⟩
      · exact .inl (List.mem_cons_of_mem _ hmem)
      · exact .inr ⟨heq, List.mem_cons_of_mem _ hmem⟩
  | case4 => cases h

/-- A gap stays one. -/
theorem IsGap.lines {gap : List Char} (h : IsGap gap) : IsGap (lines gap) := by
  intro c hc
  rcases mem_lines hc with hmem | ⟨rfl, -⟩
  · exact h c hmem
  · decide

theorem lines_ne_nil {cs : List Char} (h : cs ≠ []) : lines cs ≠ [] := by
  fun_cases lines cs with
  | case1 => exact List.cons_ne_nil _ _
  | case2 => exact List.cons_ne_nil _ _
  | case3 => exact List.cons_ne_nil _ _
  | case4 => exact absurd rfl h

/-! ### Attributes -/

/-- Names have no line ends. -/
theorem ne_return_of_isNamed {c : Char} (h : isNamed c = true) : c ≠ '\r' ∧ c ≠ '\n' := by
  constructor
  · rintro rfl
    exact absurd h (by decide)
  · rintro rfl
    exact absurd h (by decide)

/-- A name is no part of a line ending. -/
theorem lines_name {name : List Char} (hname : IsName name) (gap more : List Char) :
    lines (gap ++ (name ++ more)) = lines gap ++ (name ++ lines more) := by
  obtain ⟨c, cs, rfl⟩ := List.exists_cons_of_ne_nil hname.1
  have hhead : (c :: cs ++ more).head? ≠ some '\n' := by
    rintro heq
    exact (ne_return_of_isNamed (hname.2 c List.mem_cons_self)).2 (Option.some.inj heq)
  have hlast : (c :: cs).getLast? ≠ some '\r' := by
    rintro heq
    exact (ne_return_of_isNamed (hname.2 _ (List.mem_of_getLast? heq))).1 rfl
  rw [lines_append (.inl hhead), lines_append (.inr hlast),
    lines_eq_self fun d hd ↦ (ne_return_of_isNamed (hname.2 d hd)).1]

/-- A character that is no part of a line ending. -/
theorem lines_char {c : Char} (hcr : c ≠ '\r') (hlf : c ≠ '\n') (cs more : List Char) :
    lines (cs ++ c :: more) = lines cs ++ c :: lines more := by
  have hhead : (c :: more).head? ≠ some '\n' := fun heq ↦ hlf (Option.some.inj heq)
  rw [lines_append (.inl hhead), lines_cons hcr]

/-- What is read between quotes has no quote. -/
theorem not_mem_of_readsQuoted {q : Char} (hq : endsReference q = true) {inner value : List Char}
    (h : ReadsQuoted q inner value) : q ∉ inner := by
  intro hmem
  obtain ⟨taken, left, rfl, hnone⟩ := List.eq_append_cons_of_mem hmem
  obtain ⟨value', hfirst⟩ := exists_readsQuoted hq hnone
  have hall := h [] ((taken ++ q :: left).length + 1) (Nat.lt_succ_self _)
  have hpart := hfirst (left ++ [q]) ((taken ++ q :: left).length + 1)
    (by rw [List.length_append]; omega)
  rw [List.append_assoc, List.cons_append, hpart] at hall
  exact absurd (Prod.mk.inj (Option.some.inj hall)).2 (by simp)

theorem not_isSpace_of_endsValue {c : Char} (h : endsValue c = false) : isSpace c = false :=
  (Bool.or_eq_false_iff.1 h).1

/-- Attributes keep their names. -/
theorem Attributes.lines {bare : Bool} {attributes : List Char} {read : List (String × String)}
    (h : Attributes bare attributes read) : ∃ read', Attributes bare (lines attributes) read' ∧
      read'.map Prod.fst = read.map Prod.fst := by
  induction h with
  | nil => exact ⟨[], .nil, rfl⟩
  | @alone gap name more read bare hne hgap hname _ ih =>
    obtain ⟨read', hmore, hkeys⟩ := ih
    rw [lines_name hname]
    refine ⟨_, .alone (lines_ne_nil hne) hgap.lines hname hmore, ?_⟩
    rw [List.map_cons, List.map_cons, hkeys]
  | @quoted gap name before after inner value more q read bare hne hgap hname hbefore hafter hq
      hread _ ih =>
    obtain ⟨read', hmore, hkeys⟩ := ih
    have hends : endsReference q = true := by rcases hq with rfl | rfl <;> decide
    have hplain : q ≠ '\r' ∧ q ≠ '\n' := by rcases hq with rfl | rfl <;> decide
    have hinner : q ∉ Lexer.normalized.lines inner := fun hmem ↦ by
      rcases mem_lines hmem with hmem | ⟨heq, -⟩
      · exact not_mem_of_readsQuoted hends hread hmem
      · exact hplain.2 heq
    obtain ⟨value', hvalue⟩ := exists_readsQuoted hends hinner
    rw [lines_name hname, lines_char (by decide) (by decide), lines_char hplain.1 hplain.2,
      lines_char hplain.1 hplain.2]
    refine ⟨_, .quoted (lines_ne_nil hne) hgap.lines hname hbefore.lines hafter.lines hq hvalue hmore,
      ?_⟩
    rw [List.map_cons, List.map_cons, hkeys]
  | @bare gap name before after cs value more c read bare hne hgap hname hbefore hafter hdouble
      hsingle hcs hread _ ih =>
    obtain ⟨read', hmore, hkeys⟩ := ih
    have hplain : ∀ d ∈ c :: cs, d ≠ '\r' ∧ d ≠ '\n' := by
      intro d hd
      have hspace := not_isSpace_of_endsValue (hcs d hd)
      constructor
      · rintro rfl
        exact absurd hspace (by decide)
      · rintro rfl
        exact absurd hspace (by decide)
    obtain ⟨hc, htail⟩ := List.forall_mem_cons.1 hplain
    have hrest : Lexer.normalized.lines (cs ++ more) = cs ++ Lexer.normalized.lines more := by
      rw [lines_append (.inr fun heq ↦ (htail _ (List.mem_of_getLast? heq)).1 rfl),
        lines_eq_self fun d hd ↦ (htail d hd).1]
    have hempty : (Lexer.normalized.lines more).isEmpty = more.isEmpty := by
      cases more with
      | nil => rfl
      | cons d more => exact List.isEmpty_eq_false_iff.2 (lines_ne_nil (List.cons_ne_nil d more))
    have hall := Attributes.bare (lines_ne_nil hne) hgap.lines hname hbefore.lines hafter.lines hdouble
      hsingle hcs hread hmore
    rw [hempty] at hall
    rw [lines_name hname, lines_char (by decide) (by decide), List.cons_append,
      lines_char hc.1 hc.2, hrest]
    refine ⟨_, hall, ?_⟩
    rw [List.map_cons, List.map_cons, hkeys]

/-! ### Tags -/

/-- A text ends as its last part does. -/
theorem getLast?_append_ne {cs more : List Char} {c : Char} (hcs : cs.getLast? ≠ some c)
    (hmore : more.getLast? ≠ some c) : (cs ++ more).getLast? ≠ some c := by
  rw [List.getLast?_append]
  cases hlast : more.getLast? with
  | none => exact hcs
  | some d =>
    rw [hlast] at hmore
    exact hmore

theorem getLast?_name {name : List Char} (hname : IsName name) : name.getLast? ≠ some '\r' :=
  fun heq ↦ (ne_return_of_isNamed (hname.2 _ (List.mem_of_getLast? heq))).1 rfl

theorem getLast?_behind {cs more : List Char} {c : Char} (hne : cs ≠ [])
    (hcs : cs.getLast? ≠ some c) (before : List Char) (hmore : more.getLast? ≠ some c) :
    (before ++ (cs ++ more)).getLast? ≠ some c := by
  have hall : (cs ++ more).getLast? ≠ some c := getLast?_append_ne hcs hmore
  rw [List.getLast?_append_of_ne_nil _ fun h ↦ hne (List.append_eq_nil_iff.1 h).1]
  exact hall

/-- Attributes do not end within a line ending. -/
theorem Attributes.getLast?_ne {bare : Bool} {attributes : List Char} {read : List (String × String)}
    (h : Attributes bare attributes read) : attributes.getLast? ≠ some '\r' := by
  induction h with
  | nil => exact (Option.some_ne_none _).symm
  | alone hne hgap hname _ ih => exact getLast?_behind hname.1 (getLast?_name hname) _ ih
  | @quoted gap name before after inner value more q read bare hne hgap hname hbefore hafter hq
      hread _ ih =>
    have hq' : [q].getLast? ≠ some '\r' := by
      rcases hq with rfl | rfl <;> decide
    have hvalue := getLast?_behind (List.cons_ne_nil q []) hq'
      (gap ++ (name ++ (before ++ '=' :: (after ++ (q :: inner))))) ih
    simpa only [List.append_assoc, List.cons_append, List.nil_append] using hvalue
  | @bare gap name before after cs value more c read bare hne hgap hname hbefore hafter hdouble
      hsingle hcs hread _ ih =>
    have hlast : (c :: cs).getLast? ≠ some '\r' := by
      intro heq
      have hspace := not_isSpace_of_endsValue (hcs _ (List.mem_of_getLast? heq))
      exact absurd hspace (by decide)
    have hvalue := getLast?_behind (List.cons_ne_nil c cs) hlast
      (gap ++ (name ++ (before ++ '=' :: after))) ih
    simpa only [List.append_assoc, List.cons_append, List.nil_append] using hvalue

/-- The line endings of a tag are in its attributes and in its white space. -/
theorem lines_tag {name attributes gap : List Char} {bare : Bool} {read : List (String × String)}
    (hname : IsTagName name) (h : Attributes bare attributes read) (selfClosing : Bool)
    (rest : List Char) : lines (name ++ (attributes ++ tagEnd gap selfClosing rest)) =
      name ++ (lines attributes ++ tagEnd (lines gap) selfClosing (lines rest)) := by
  have hplain : ∀ c ∈ name, c ≠ '\r' := by
    rintro c hc rfl
    exact absurd (hname.plain _ hc).1 (by decide)
  have hlast : name.getLast? ≠ some '\r' := fun heq ↦ hplain _ (List.mem_of_getLast? heq) rfl
  have hend : lines (tagEnd gap selfClosing rest) = tagEnd (lines gap) selfClosing (lines rest) := by
    unfold tagEnd
    cases selfClosing with
    | true =>
      change lines (gap ++ '/' :: '>' :: rest) = _
      rw [lines_char (by decide) (by decide), lines_cons (by decide)]
      rfl
    | false =>
      change lines (gap ++ '>' :: rest) = _
      rw [lines_char (by decide) (by decide)]
      rfl
  rw [lines_append (.inr hlast), lines_eq_self hplain, lines_append (.inr h.getLast?_ne), hend]

/-- An unquoted value may take in the slash that ends its tag. -/
theorem Attributes.exists_isTag {name attributes gap : List Char} {bare : Bool}
    {read : List (String × String)} (h : Attributes bare attributes read) (hgap : IsGap gap)
    (hname : IsTagName name) (selfClosing : Bool) : ∃ attributes' gap' selfClosing' read',
      (∀ rest, attributes ++ tagEnd gap selfClosing rest =
        attributes' ++ tagEnd gap' selfClosing' rest) ∧
      IsTag name attributes' gap' selfClosing' read' ∧ read'.map Prod.fst = read.map Prod.fst ∧
      (selfClosing' = true → selfClosing = true) := by
  by_cases hslash : bare = true ∧ selfClosing = true ∧ gap = []
  · obtain ⟨rfl, rfl, rfl⟩ := hslash
    obtain ⟨read', hread', hkeys⟩ := h.slash
    refine ⟨attributes ++ ['/'], [], false, read', fun rest ↦ ?_,
      ⟨hname, ⟨true, hread', fun _ h ↦ absurd h Bool.false_ne_true⟩, hgap⟩, hkeys,
      fun h ↦ absurd h Bool.false_ne_true⟩
    unfold tagEnd
    rw [List.append_assoc]
    rfl
  · exact ⟨attributes, gap, selfClosing, read, fun _ ↦ rfl,
      ⟨hname, ⟨bare, h, fun hbare hself hnone ↦ hslash ⟨hbare, hself, hnone⟩⟩, hgap⟩, rfl, id⟩

/-! ### Texts -/

/-- Any other character stays at the front. -/
theorem head?_of_lines {cs rest : List Char} {c : Char} (h : lines cs = c :: rest) (hc : c ≠ '\n') :
    ∃ more, cs = c :: more := by
  fun_cases lines cs with
  | case1 more =>
    rw [lines] at h
    exact absurd (List.cons.inj h).1.symm hc
  | case2 more hmore =>
    rw [lines] at h
    · exact absurd (List.cons.inj h).1.symm hc
    · exact hmore
  | case3 d more hcrlf hcr =>
    rw [lines_cons hcr] at h
    obtain rfl := (List.cons.inj h).1
    exact ⟨more, rfl⟩
  | case4 => cases h

/-- What follows a character that is no line break once lines are normalized follows it before. -/
theorem suffix_of_lines {cs next : List Char} {c : Char} (h : c :: next <:+ lines cs) (hc : c ≠ '\n') :
    ∃ more, c :: more <:+ cs ∧ lines more = next := by
  fun_induction lines cs with
  | case1 rest ih =>
    rcases List.suffix_cons_iff.1 h with heq | h
    · exact absurd (List.cons.inj heq).1 hc
    · obtain ⟨more, hmore, heq⟩ := ih h
      exact ⟨more, hmore.trans ((List.suffix_cons _ rest).trans (List.suffix_cons _ _)), heq⟩
  | case2 rest _ ih =>
    rcases List.suffix_cons_iff.1 h with heq | h
    · exact absurd (List.cons.inj heq).1 hc
    · obtain ⟨more, hmore, heq⟩ := ih h
      exact ⟨more, hmore.trans (List.suffix_cons _ rest), heq⟩
  | case3 d rest _ _ ih =>
    rcases List.suffix_cons_iff.1 h with heq | h
    · obtain ⟨rfl, rfl⟩ := List.cons.inj heq
      exact ⟨rest, List.suffix_rfl, rfl⟩
    · obtain ⟨more, hmore, heq⟩ := ih h
      exact ⟨more, hmore.trans (List.suffix_cons _ rest), heq⟩
  | case4 => exact absurd (List.suffix_nil.1 h) (List.cons_ne_nil _ _)

/-- A text without markup stays one. -/
theorem IsText.lines {cs : List Char} (h : IsText cs) : IsText (lines cs) := by
  intro c rest hsuffix
  obtain ⟨more, hmore, heq⟩ := suffix_of_lines hsuffix (by decide)
  cases hc : decide (c = '\n') with
  | true =>
    obtain rfl := of_decide_eq_true hc
    decide
  | false =>
    obtain ⟨behind, rfl⟩ := head?_of_lines heq (of_decide_eq_false hc)
    exact h c behind hmore

end Nodecraft.Markup.Lexer
