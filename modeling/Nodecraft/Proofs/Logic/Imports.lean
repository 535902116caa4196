import Mathlib.Data.List.TakeWhile
import Nodecraft.Logic.Form
import Nodecraft.Proofs.Text.Search

/-!
# Import declarations

Logic may begin with import declarations, which are left out before it is read. A declaration is
found if it begins its line: then what is behind it counts from its semicolon on, or from the end of
its line (`afterImport?_declaration`). So logic behind declarations that each begin a line is read
as it would be on its own (`imports_are_stripped`), whether they end in semicolons or not, and
whether they name what they import on one line or on several. A declaration behind another one on
the same line stays in the text (`neighbour_stays`).
-/

set_option autoImplicit false

namespace Nodecraft.Logic

/-! ### Reading through a text -/

/-- What is left of a text, which may begin a line, without its imports. -/
inductive Strips : Bool → List Char → List Char → Prop
  | nil {atLineStart : Bool} : Strips atLineStart [] []
  | char {atLineStart : Bool} {c : Char} {cs left : List Char} :
    (atLineStart = true → afterImport? (c :: cs) = none) → Strips (c == '\n') cs left →
    Strips atLineStart (c :: cs) (c :: left)
  | declaration {cs rest left : List Char} :
    afterImport? cs = some rest → Strips false rest left → Strips true cs left

theorem suffix_of_dropKnown? {known cs rest : List Char} (h : Text.dropKnown? known cs = some rest) :
    rest <:+ cs :=
  ⟨known, (Text.eq_append_of_dropKnown? h).symm⟩

theorem suffix_of_afterQuoted? {cs rest : List Char} (h : afterQuoted? cs = some rest) :
    rest <:+ cs := by
  unfold afterQuoted? at h
  split at h
  · cases h
  rename_i c cs
  split at h
  · have hsuffix : (cs.dropWhile fun c ↦ !isQuote c && c != '\n') <:+ cs := List.dropWhile_suffix _
    split at h
    · rename_i q behind hbehind
      rw [hbehind] at hsuffix
      split at h
      · cases h
        exact (List.suffix_cons q _).trans (hsuffix.trans (List.suffix_cons c cs))
      · cases h
    · cases h
  · cases h

theorem suffix_of_afterModule? {cs rest : List Char} (h : afterModule? cs = some rest) :
    rest <:+ cs :=
  (suffix_of_afterQuoted? h).trans (List.dropWhile_suffix _)

/-- What stands behind the source of an import is the end of the text. -/
theorem suffix_of_afterFrom? {cs rest : List Char} :
    ∀ {before : Char}, afterFrom? before cs = some rest → rest <:+ cs := by
  induction cs with
  | nil => exact fun h ↦ absurd h (by simp [afterFrom?])
  | cons c cs ih =>
    intro before h
    unfold afterFrom? at h
    dsimp only at h
    split at h
    · rename_i found hfound
      cases h
      split at hfound
      · cases hfound
      · obtain ⟨behind, hknown, hmodule⟩ := Option.bind_eq_some_iff.1 hfound
        exact (suffix_of_afterModule? hmodule).trans (suffix_of_dropKnown? hknown)
    · split at h
      · cases h
      · exact (ih h).trans (List.suffix_cons c cs)

/-- What stands behind the names of an import is the end of the text. -/
theorem suffix_of_afterNames? {cs rest : List Char} (h : afterNames? cs = some rest) :
    rest <:+ cs := by
  unfold afterNames? at h
  split at h
  · cases h
  · split at h
    · exact (suffix_of_afterFrom? h).trans (List.suffix_cons _ _)
    · cases h

theorem dropSemicolon_suffix (cs : List Char) : dropSemicolon cs <:+ cs := by
  unfold dropSemicolon
  have hsuffix : cs.dropWhile isIndent <:+ cs := List.dropWhile_suffix _
  split
  · rename_i rest hrest
    exact (List.suffix_cons ';' rest).trans (hrest ▸ hsuffix)
  · exact hsuffix

/-- A declaration takes up some of the text. -/
theorem length_lt_of_afterImport? {cs rest : List Char} (h : afterImport? cs = some rest) :
    rest.length < cs.length := by
  unfold afterImport? at h
  obtain ⟨behind, hknown, h⟩ := Option.bind_eq_some_iff.1 h
  obtain ⟨after, hafter, h⟩ := Option.bind_eq_some_iff.1 h
  obtain rfl := Option.some.inj h
  have hafter : after <:+ behind :=
    (Option.or_eq_some_iff.1 hafter).elim suffix_of_afterModule? fun h ↦ suffix_of_afterNames? h.2
  have hrest := ((dropSemicolon_suffix after).trans hafter).length_le
  have hlength := (List.dropWhile_suffix (l := cs) isIndent).length_le
  rw [Text.eq_append_of_dropKnown? hknown, List.length_append] at hlength
  have hword : "import".toList.length = 6 := rfl
  omega

/-- The pass over the text strips it, with as much fuel as there are characters. -/
theorem strips_withoutImports {fuel : Nat} {cs : List Char} (h : cs.length ≤ fuel)
    (atLineStart : Bool) : Strips atLineStart cs (withoutImports fuel atLineStart cs) := by
  induction fuel generalizing cs atLineStart with
  | zero =>
    obtain rfl := List.eq_nil_of_length_eq_zero (Nat.le_zero.1 h)
    exact .nil
  | succ fuel ih =>
    cases cs with
    | nil => exact .nil
    | cons c cs =>
      have hkept (hnone : atLineStart = true → afterImport? (c :: cs) = none) :
          Strips atLineStart (c :: cs) (c :: withoutImports fuel (c == '\n') cs) :=
        .char hnone (ih (Nat.le_of_succ_le_succ h) _)
      unfold withoutImports
      cases atLineStart with
      | false => exact hkept fun h ↦ absurd h Bool.false_ne_true
      | true =>
        rw [if_pos rfl]
        cases hafter : afterImport? (c :: cs) with
        | none => exact hkept fun _ ↦ hafter
        | some rest =>
          have hshort := length_lt_of_afterImport? hafter
          exact .declaration hafter (ih (by omega) false)

/-- There is one way to strip a text. -/
theorem Strips.eq {atLineStart : Bool} {cs left other : List Char} (h : Strips atLineStart cs left)
    (hother : Strips atLineStart cs other) : left = other := by
  induction h generalizing other with
  | nil =>
    cases hother with
    | nil => rfl
    | declaration hafter _ => cases hafter
  | char hnone _ ih =>
    cases hother with
    | char _ hmore => rw [ih hmore]
    | declaration hafter _ => rw [hnone rfl] at hafter; cases hafter
  | declaration hafter _ ih =>
    cases hother with
    | nil => cases hafter
    | char hnone _ => rw [hnone rfl] at hafter; cases hafter
    | declaration hagain hmore =>
      rw [hafter] at hagain
      cases hagain
      exact ih hmore

/-- Whatever strips the text is what the pass makes of it. -/
theorem stripImports_eq {cs left : List Char} (h : Strips true cs left) :
    stripImports (String.ofList cs) = String.ofList left := by
  unfold stripImports
  rw [String.toList_ofList]
  exact congrArg String.ofList ((strips_withoutImports (by simp) true).eq h)

/-! ### White space -/

/-- No declaration begins with white space that goes beyond the line. -/
theorem afterImport?_blank {gap rest : List Char} (hgap : ∀ c ∈ gap, Text.isBlank c = true)
    (hbeyond : ∃ c ∈ gap, isIndent c = false) : afterImport? (gap ++ rest) = none := by
  have hdrop : ∃ c more, (gap ++ rest).dropWhile isIndent = c :: more ∧ Text.isBlank c = true := by
    induction gap with
    | nil => simp at hbeyond
    | cons c gap ih =>
      cases hc : isIndent c with
      | false => exact ⟨c, gap ++ rest, by simp [hc], hgap c List.mem_cons_self⟩
      | true =>
        obtain ⟨d, hd, hindent⟩ := hbeyond
        rcases List.mem_cons.1 hd with rfl | hd
        · rw [hc] at hindent
          cases hindent
        · obtain ⟨e, more, hmore, he⟩ := ih (fun e he ↦ hgap e (List.mem_cons_of_mem _ he))
            ⟨d, hd, hindent⟩
          exact ⟨e, more, by rw [List.cons_append, List.dropWhile_cons_of_pos hc, hmore], he⟩
  obtain ⟨c, more, hmore, hblank⟩ := hdrop
  have hne : 'i' ≠ c := by
    rintro rfl
    exact absurd hblank (by decide)
  have hknown : Text.dropKnown? "import".toList (c :: more) = none := if_neg hne
  unfold afterImport?
  rw [hmore, hknown]
  rfl

/-- An import may be indented. -/
theorem afterImport?_indent {indent : List Char} (h : ∀ c ∈ indent, isIndent c = true)
    (cs : List Char) : afterImport? (indent ++ cs) = afterImport? cs := by
  unfold afterImport?
  rw [List.dropWhile_append_of_pos h]

/-- Where no import begins, it does not matter whether a line does. -/
theorem Strips.of_none {atLineStart : Bool} {cs left : List Char} (h : Strips true cs left)
    (hnone : afterImport? cs = none) : Strips atLineStart cs left := by
  cases h with
  | nil => exact .nil
  | char _ hrest => exact .char (fun _ ↦ hnone) hrest
  | declaration hafter _ =>
    rw [hnone] at hafter
    cases hafter

/-- White space in front of something that is no declaration. -/
theorem Strips.blank {gap rest left : List Char} (hgap : ∀ c ∈ gap, Text.isBlank c = true)
    (hrest : Strips true rest left) (hnone : afterImport? rest = none) (atLineStart : Bool) :
    Strips atLineStart (gap ++ rest) (gap ++ left) := by
  induction gap generalizing atLineStart with
  | nil => exact hrest.of_none hnone
  | cons c gap ih =>
    have hbehind : afterImport? (c :: gap ++ rest) = none := by
      by_cases hindent : ∀ d ∈ c :: gap, isIndent d = true
      · rw [afterImport?_indent hindent, hnone]
      · refine afterImport?_blank hgap ?_
        simpa only [not_forall, Bool.not_eq_true, exists_prop] using hindent
    exact .char (fun _ ↦ hbehind) (ih (fun d hd ↦ hgap d (List.mem_cons_of_mem _ hd)) _)

/-- Lines of white space. -/
structure AreBlankLines (lines : List Char) : Prop where
  blank : ∀ c ∈ lines, Text.isBlank c = true
  ended : lines ≠ [] → lines.getLast? = some '\n'

/-- The rest of blank lines is blank. -/
theorem AreBlankLines.of_suffix {lines more : List Char} (h : AreBlankLines lines)
    (hsuffix : more <:+ lines) : AreBlankLines more where
  blank c hc := h.blank c (hsuffix.subset hc)
  ended hne := by
    obtain ⟨before, rfl⟩ := hsuffix
    have hlast := h.ended (List.append_ne_nil_of_right_ne_nil before hne)
    rwa [List.getLast?_append_of_ne_nil _ hne] at hlast

/-- What follows lines of white space begins a line. -/
theorem Strips.lines {lines rest left : List Char} (hlines : AreBlankLines lines) (hne : lines ≠ [])
    (hrest : Strips true rest left) (atLineStart : Bool) :
    Strips atLineStart (lines ++ rest) (lines ++ left) := by
  induction lines generalizing atLineStart with
  | nil => exact absurd rfl hne
  | cons c lines ih =>
    have hlast : (c :: lines).getLast? = some '\n' := hlines.ended hne
    have hnone : afterImport? (c :: lines ++ rest) = none :=
      afterImport?_blank hlines.blank ⟨'\n', List.mem_of_getLast? hlast, by decide⟩
    refine .char (fun _ ↦ hnone) ?_
    cases lines with
    | nil =>
      obtain rfl := Option.some.inj hlast
      exact hrest
    | cons d lines => exact ih (hlines.of_suffix (List.suffix_cons c _)) (List.cons_ne_nil _ _) _

/-! ### Declarations -/

/-- What stands between `import` and `from`: the name of a default, of a namespace, or names in
braces, also on several lines. -/
structure AreNames (names : List Char) : Prop where
  begun : names.head?.any fun c ↦ Text.isBlank c || c == '\x7b' || c == '*'
  ended : names.getLast?.any fun c ↦ !Text.isWordChar c
  plain : ∀ c ∈ names, isQuote c = false ∧ c ≠ ';'

/-- An import declaration, in front of what is on its line or begins the next one. -/
structure Import where
  /-- The lines of white space in front of its own line. -/
  lines : List Char
  indent : List Char
  /-- What is imported, if anything is named. -/
  names : Option (List Char)
  /-- The white space in front of the module's name. -/
  gap : List Char
  quote : Char
  module : List Char
  /-- The space behind the module's name. -/
  trail : List Char
  semicolon : Bool
  areLines : AreBlankLines lines
  isIndented : ∀ c ∈ indent, isIndent c = true
  areNames : ∀ ns ∈ names, AreNames ns
  isGap : ∀ c ∈ gap, Text.isBlank c = true
  isQuoted : isQuote quote = true
  isModule : ∀ c ∈ module, isQuote c = false ∧ c ≠ '\n'
  isTrail : ∀ c ∈ trail, isIndent c = true

namespace Import

/-- The module's name in quotes, with the white space in front of it. -/
def source (i : Import) : List Char := i.gap ++ i.quote :: (i.module ++ [i.quote])

/-- What stands behind `import`. -/
def clause (i : Import) : List Char :=
  (i.names.elim [] fun names ↦ names ++ "from".toList) ++ i.source

def ending (i : Import) : List Char := i.trail ++ if i.semicolon then [';'] else []

def text (i : Import) : List Char :=
  i.lines ++ (i.indent ++ ("import".toList ++ (i.clause ++ i.ending)))

end Import

/-- The module of an import is named in quotes. -/
theorem afterModule?_eq_none {c : Char} (rest : List Char) (hblank : Text.isBlank c = false)
    (hquote : isQuote c = false) : afterModule? (c :: rest) = none := by
  unfold afterModule?
  rw [List.dropWhile_cons_of_neg (Bool.eq_false_iff.1 hblank)]
  exact if_neg (Bool.eq_false_iff.1 hquote)

/-- Names come to an end before a module's name does. -/
theorem afterModule?_from {names rest : List Char} (hnames : ∀ c ∈ names, isQuote c = false) :
    afterModule? (names ++ ("from".toList ++ rest)) = none := by
  induction names with
  | nil => exact afterModule?_eq_none _ (by decide) (by decide)
  | cons c names ih =>
    obtain ⟨hc, hmore⟩ := List.forall_mem_cons.1 hnames
    cases hblank : Text.isBlank c with
    | false => exact afterModule?_eq_none _ hblank hc
    | true =>
      have hskip : afterModule? (c :: (names ++ ("from".toList ++ rest))) =
          afterModule? (names ++ ("from".toList ++ rest)) := by
        unfold afterModule?
        rw [List.dropWhile_cons_of_pos hblank]
      rw [List.cons_append, hskip, ih hmore]

section

variable (i : Import) (rest : List Char)

/-- The module of an import is read to its closing quote. -/
theorem Import.afterModule?_source : afterModule? (i.source ++ rest) = some rest := by
  have hstop : i.quote = '"' ∨ i.quote = '\'' := by
    simpa only [isQuote, Bool.or_eq_true, beq_iff_eq] using i.isQuoted
  have hblank : Text.isBlank i.quote = false := by
    obtain h | h := hstop <;> rw [h] <;> decide
  have hmodule : ∀ c ∈ i.module, (!isQuote c && c != '\n') = true := by
    intro c hc
    obtain ⟨hquote, hline⟩ := i.isModule c hc
    rw [hquote]
    exact bne_iff_ne.2 hline
  have hname : (i.module ++ i.quote :: rest).dropWhile (fun c ↦ !isQuote c && c != '\n') =
      i.quote :: rest := by
    rw [List.dropWhile_append_of_pos hmodule, List.dropWhile_cons, i.isQuoted]
    rfl
  unfold afterModule? Import.source
  rw [List.append_assoc, List.cons_append, List.append_assoc, List.singleton_append,
    List.dropWhile_append_of_pos i.isGap, List.dropWhile_cons_of_neg (Bool.eq_false_iff.1 hblank)]
  unfold afterQuoted?
  dsimp only
  rw [if_pos i.isQuoted, hname]
  exact if_pos i.isQuoted

end

/-- The first `from` that a module's name follows is the one behind the names. -/
theorem afterFrom?_names {names source rest : List Char}
    (hplain : ∀ c ∈ names, isQuote c = false ∧ c ≠ ';') (hsource : afterModule? source = some rest) :
    ∀ {before : Char}, Text.isWordChar ((before :: names).getLast (List.cons_ne_nil _ _)) = false →
      afterFrom? before (names ++ ("from".toList ++ source)) = some rest := by
  induction names with
  | nil =>
    intro before hword
    have hbefore : Text.isWordChar before = false := hword
    have hhere : (Text.dropKnown? ['f', 'r', 'o', 'm'] ('f' :: ("rom".toList ++ source))).bind
        afterModule? = some rest := by
      change (Text.dropKnown? "from".toList ("from".toList ++ source)).bind afterModule? = _
      rw [Text.dropKnown?_append]
      exact hsource
    change afterFrom? before ('f' :: ("rom".toList ++ source)) = _
    unfold afterFrom?
    dsimp only
    rw [hbefore, if_neg Bool.false_ne_true, hhere]
  | cons c names ih =>
    intro before hword
    rw [List.getLast_cons (List.cons_ne_nil _ _)] at hword
    obtain ⟨⟨hquote, hsemicolon⟩, hmore⟩ := List.forall_mem_cons.1 hplain
    have hquotes : ∀ d ∈ c :: names, isQuote d = false := fun d hd ↦ (hplain d hd).1
    have hhere : (Text.dropKnown? ['f', 'r', 'o', 'm']
        (c :: names ++ ("from".toList ++ source))).bind afterModule? = none := by
      cases hknown : Text.dropKnown? ['f', 'r', 'o', 'm']
          (c :: names ++ ("from".toList ++ source)) with
      | none => rfl
      | some behind =>
        rcases List.append_eq_append_iff.1 (Text.eq_append_of_dropKnown? hknown) with
          ⟨inner, hinner, -⟩ | ⟨inner, hinner, rfl⟩
        · -- the names end in no letter
          have hlast : (c :: names).getLast (List.cons_ne_nil _ _) ∈ ['f', 'r', 'o', 'm'] := by
            rw [hinner]
            exact List.mem_append_left _ (List.getLast_mem _)
          have hletters : ∀ d ∈ ['f', 'r', 'o', 'm'], Text.isWordChar d = true :=
            List.all_eq_true.1 (by decide +kernel)
          rw [hletters _ hlast] at hword
          cases hword
        · refine afterModule?_from fun d hd ↦ hquotes d ?_
          rw [hinner]
          exact List.mem_append_right _ hd
    rw [List.cons_append]
    unfold afterFrom?
    dsimp only
    rw [List.cons_append] at hhere
    rw [hhere, ite_self, if_neg (by simpa using hsemicolon)]
    exact ih hmore hword

/-- Behind a declaration that begins a line is what follows it and its semicolon. -/
theorem Import.afterImport?_text (i : Import) (rest : List Char) :
    afterImport? (i.indent ++ ("import".toList ++ (i.clause ++ rest))) =
      some (dropSemicolon rest) := by
  have hclause : (afterModule? (i.clause ++ rest)).or (afterNames? (i.clause ++ rest)) =
      some rest := by
    have hsource := i.afterModule?_source rest
    unfold Import.clause
    cases hnames : i.names with
    | none =>
      rw [Option.elim_none, List.nil_append, hsource]
      rfl
    | some names =>
      obtain ⟨hbegun, hended, hplain⟩ := i.areNames names hnames
      rw [Option.elim_some, List.append_assoc, List.append_assoc,
        afterModule?_from fun c hc ↦ (hplain c hc).1, Option.none_or]
      cases names with
      | nil => cases hbegun
      | cons c names =>
        have hword : Text.isWordChar ((c :: names).getLast (List.cons_ne_nil _ _)) = false := by
          rw [List.getLast?_eq_some_getLast (List.cons_ne_nil _ _)] at hended
          simpa using hended
        rw [List.cons_append]
        unfold afterNames?
        refine (if_pos hbegun).trans ?_
        exact afterFrom?_names (List.forall_mem_cons.1 hplain).2 hsource hword
  rw [afterImport?_indent i.isIndented]
  unfold afterImport?
  have hstart : ("import".toList ++ (i.clause ++ rest)).dropWhile isIndent =
      "import".toList ++ (i.clause ++ rest) := rfl
  rw [hstart, Text.dropKnown?_append]
  change ((afterModule? (i.clause ++ rest)).or (afterNames? (i.clause ++ rest))).bind _ = _
  rw [hclause]
  rfl

/-! ### Declarations one after the other -/

/-- What is left behind a declaration: white space, without the space on the declaration's line. -/
theorem Import.dropSemicolon_ending (i : Import) {gap : List Char} (rest : List Char)
    (hgap : ∀ c ∈ gap, Text.isBlank c = true) (hended : i.semicolon = true ∨ '\n' ∈ gap) :
    ∃ kept, dropSemicolon (i.ending ++ (gap ++ rest)) = kept ++ rest ∧ kept <:+ gap ∧
      ('\n' ∈ gap → '\n' ∈ kept) := by
  unfold dropSemicolon Import.ending
  rw [List.append_assoc, List.dropWhile_append_of_pos i.isTrail]
  cases hsemicolon : i.semicolon with
  | true => exact ⟨gap, rfl, List.suffix_refl _, id⟩
  | false =>
    have hline : '\n' ∈ gap := hended.resolve_left (by rw [hsemicolon]; exact Bool.false_ne_true)
    have hkept : '\n' ∈ gap.dropWhile isIndent := by
      have hall := List.takeWhile_append_dropWhile (p := isIndent) (l := gap)
      rw [← hall] at hline
      exact (List.mem_append.1 hline).resolve_left fun h ↦
        absurd (List.mem_takeWhile_imp h) (by decide)
    refine ⟨gap.dropWhile isIndent, ?_, List.dropWhile_suffix _, fun _ ↦ hkept⟩
    have hdrop : (gap ++ rest).dropWhile isIndent = gap.dropWhile isIndent ++ rest := by
      rw [List.dropWhile_append, if_neg (by simpa using List.ne_nil_of_mem hkept)]
    rw [if_neg Bool.false_ne_true, List.nil_append, hdrop]
    cases hkeep : gap.dropWhile isIndent with
    | nil => exact absurd hkeep (List.ne_nil_of_mem hkept)
    | cons c kept =>
      have hc : Text.isBlank c = true :=
        hgap c ((List.dropWhile_suffix isIndent).subset (hkeep ▸ List.mem_cons_self))
      have hne : c ≠ ';' := by
        rintro rfl
        exact absurd hc (by decide)
      rw [List.cons_append]
      split
      · rename_i heq
        exact absurd (List.cons.inj heq).1 hne
      · rfl

/-- The text of declarations one after the other. -/
def textOf (imports : List Import) : List Char := imports.flatMap Import.text

section

variable {gap rest left : List Char} (hgap : ∀ c ∈ gap, Text.isBlank c = true)
  (hrest : afterImport? rest = none) (hleft : Strips true rest left)

include hgap hrest hleft

/-- White space is left of the declarations behind one that ends or whose line ends. -/
theorem strips_behind (i : Import) {more : List Import} (hlines : ∀ j ∈ more, j.lines ≠ [])
    (hended : ((i :: more).getLast (List.cons_ne_nil _ _)).semicolon = true ∨ '\n' ∈ gap) :
    ∃ kept, (∀ c ∈ kept, Text.isBlank c = true) ∧
      Strips false (dropSemicolon (i.ending ++ (textOf more ++ (gap ++ rest)))) (kept ++ left) := by
  induction more generalizing i with
  | nil =>
    obtain ⟨kept, heq, hsuffix, -⟩ := i.dropSemicolon_ending rest hgap hended
    have hkept : ∀ c ∈ kept, Text.isBlank c = true := fun c hc ↦ hgap c (hsuffix.subset hc)
    refine ⟨kept, hkept, ?_⟩
    rw [textOf, List.flatMap_nil, List.nil_append, heq]
    exact hleft.blank hkept hrest false
  | cons j more ih =>
    obtain ⟨hne, hmore⟩ := List.forall_mem_cons.1 hlines
    rw [List.getLast_cons (List.cons_ne_nil _ _)] at hended
    obtain ⟨space, hspace, hstrips⟩ := ih j hmore hended
    have hnewline : '\n' ∈ j.lines := List.mem_of_getLast? (j.areLines.ended hne)
    have htext : textOf (j :: more) ++ (gap ++ rest) = j.lines ++ (j.indent ++ ("import".toList ++
        (j.clause ++ (j.ending ++ (textOf more ++ (gap ++ rest)))))) := by
      simp only [textOf, List.flatMap_cons, Import.text, List.append_assoc]
    rw [htext]
    obtain ⟨kept, heq, hsuffix, hkeeps⟩ := i.dropSemicolon_ending (j.indent ++ ("import".toList ++
      (j.clause ++ (j.ending ++ (textOf more ++ (gap ++ rest)))))) j.areLines.blank (.inr hnewline)
    have hkept := j.areLines.of_suffix hsuffix
    refine ⟨kept ++ space, fun c hc ↦ (List.mem_append.1 hc).elim (hkept.blank c) (hspace c), ?_⟩
    rw [heq, List.append_assoc]
    exact .lines hkept (List.ne_nil_of_mem (hkeeps hnewline))
      (.declaration (j.afterImport?_text _) hstrips) false

/-- White space is left of declarations that each begin a line. -/
theorem strips_imports {imports : List Import} (hlines : ∀ i ∈ imports.tail, i.lines ≠ [])
    (hended : (∀ i ∈ imports.getLast?, i.semicolon = true) ∨ '\n' ∈ gap) :
    ∃ kept, (∀ c ∈ kept, Text.isBlank c = true) ∧
      Strips true (textOf imports ++ (gap ++ rest)) (kept ++ left) := by
  cases imports with
  | nil => exact ⟨gap, hgap, hleft.blank hgap hrest true⟩
  | cons i more =>
    have hended : ((i :: more).getLast (List.cons_ne_nil _ _)).semicolon = true ∨ '\n' ∈ gap :=
      hended.imp_left fun h ↦ h _ (List.getLast?_eq_some_getLast _)
    obtain ⟨space, hspace, hstrips⟩ := strips_behind hgap hrest hleft i hlines hended
    have hdeclaration := Strips.declaration (i.afterImport?_text _) hstrips
    have htext : textOf (i :: more) ++ (gap ++ rest) = i.lines ++ (i.indent ++ ("import".toList ++
        (i.clause ++ (i.ending ++ (textOf more ++ (gap ++ rest)))))) := by
      simp only [textOf, List.flatMap_cons, Import.text, List.append_assoc]
    rw [htext]
    refine ⟨i.lines ++ space, fun c hc ↦ (List.mem_append.1 hc).elim (i.areLines.blank c) (hspace c),
      ?_⟩
    rw [List.append_assoc]
    by_cases hne : i.lines = []
    · rw [hne]
      exact hdeclaration
    · exact .lines i.areLines hne hdeclaration true

end

/-! ### Forms -/

/-- Logic is what is left of it without imports and blanks. -/
theorem asFunctionBody_congr {logic other : String}
    (h : Text.trim (stripImports logic) = Text.trim (stripImports other)) :
    asFunctionBody logic = asFunctionBody other := by
  unfold asFunctionBody
  rw [h]

theorem trim_blank_append {blank cs : List Char} (h : ∀ c ∈ blank, Text.isBlank c = true) :
    Text.trim (String.ofList (blank ++ cs)) = Text.trim (String.ofList cs) := by
  unfold Text.trim Text.trimChars Text.trimStartChars
  rw [String.toList_ofList, String.toList_ofList, List.dropWhile_append_of_pos h]

/-- Blank logic is empty. -/
theorem asFunctionBody_blank {logic : String} (h : ∀ c ∈ logic.toList, Text.isBlank c = true) :
    asFunctionBody logic = (.empty, "") := by
  have hstrip : stripImports (String.ofList (logic.toList ++ [])) =
      String.ofList (logic.toList ++ []) :=
    stripImports_eq (Strips.nil.blank h rfl true)
  have htrim : Text.trim (stripImports logic) = "" := by
    rw [List.append_nil, String.ofList_toList] at hstrip
    rw [hstrip, ← String.ofList_toList (s := logic), ← List.append_nil logic.toList,
      trim_blank_append h]
    rfl
  unfold asFunctionBody
  rw [htrim]
  rfl

/-- Logic behind imports that each begin a line is read like the logic alone, if it does not begin
with an import itself. White space may stand between imports and behind them; the last one ends in a
semicolon or with its line. -/
theorem imports_are_stripped {imports : List Import} {gap : List Char} {rest : String}
    (hlines : ∀ i ∈ imports.tail, i.lines ≠ []) (hgap : ∀ c ∈ gap, Text.isBlank c = true)
    (hended : (∀ i ∈ imports.getLast?, i.semicolon = true) ∨ '\n' ∈ gap)
    (hrest : afterImport? rest.toList = none) :
    asFunctionBody (String.ofList (textOf imports ++ (gap ++ rest.toList))) = asFunctionBody rest ∧
    ((∀ c ∈ rest.toList, Text.isBlank c = true) →
      asFunctionBody (String.ofList (textOf imports ++ (gap ++ rest.toList))) = (.empty, "")) := by
  have hsame : asFunctionBody (String.ofList (textOf imports ++ (gap ++ rest.toList))) =
      asFunctionBody rest := by
    have hleft : Strips true rest.toList (stripImports rest).toList := by
      unfold stripImports
      rw [String.toList_ofList]
      exact strips_withoutImports (Nat.le_of_eq String.length_toList) true
    obtain ⟨kept, hkept, hstrips⟩ := strips_imports hgap hrest hleft hlines hended
    refine asFunctionBody_congr ?_
    rw [stripImports_eq hstrips, trim_blank_append hkept, String.ofList_toList]
  exact ⟨hsame, fun hblank ↦ hsame.trans (asFunctionBody_blank hblank)⟩

/-- `import { a,⏎ b } from 'c'`, behind an empty line and with the line's end. -/
def bracedImport : Import where
  lines := ['\n']
  indent := [' ']
  names := some " \x7b a,\n b \x7d ".toList
  gap := [' ']
  quote := '\''
  module := "c".toList
  trail := [' ']
  semicolon := false
  areLines := ⟨List.all_eq_true.1 (by decide), fun _ ↦ rfl⟩
  isIndented := List.all_eq_true.1 (by decide)
  areNames := by
    rintro _ ⟨⟩
    have hplain : " \x7b a,\n b \x7d ".toList.all fun c ↦ !isQuote c && c != ';' := by decide
    exact ⟨by decide, by decide +kernel, fun c hc ↦ by simpa using List.all_eq_true.1 hplain c hc⟩
  isGap := List.all_eq_true.1 (by decide)
  isQuoted := rfl
  isModule := by simp [isQuote]
  isTrail := List.all_eq_true.1 (by decide)

/-- `import "d";` on a line of its own. -/
def bareImport : Import where
  lines := ['\n']
  indent := []
  names := none
  gap := [' ']
  quote := '"'
  module := "d".toList
  trail := []
  semicolon := true
  areLines := ⟨List.all_eq_true.1 (by decide), fun _ ↦ rfl⟩
  isIndented := List.all_eq_true.1 rfl
  areNames := by rintro _ ⟨⟩
  isGap := List.all_eq_true.1 (by decide)
  isQuoted := rfl
  isModule := by simp [isQuote]
  isTrail := List.all_eq_true.1 rfl

theorem imports_are_stripped_braced :
    textOf [bracedImport, bareImport] =
      "\n import \x7b a,\n b \x7d from 'c' \nimport \"d\";".toList ∧
    asFunctionBody (String.ofList (textOf [bracedImport, bareImport] ++
      ([' '] ++ "const x = 1;".toList))) =
        (.imperative, "return \x7b setup() \x7b\nconst x = 1;\n\x7d \x7d;") := by
  refine ⟨by decide, ?_⟩
  have hsame := (@imports_are_stripped [bracedImport, bareImport] [' '] "const x = 1;"
    (by simp [bareImport]) (List.all_eq_true.1 (by decide)) (.inl (by simp [bareImport]))
    (by decide)).1
  rw [hsame]
  decide +kernel

/-- A declaration behind another one on its line stays, and so does what a module's name has behind
a quote. -/
theorem neighbour_stays :
    asFunctionBody "const x = 1;" =
      (.imperative, "return \x7b setup() \x7b\nconst x = 1;\n\x7d \x7d;") ∧
    asFunctionBody "import 'a'; import 'b';\nconst x = 1;" = (.imperative,
      "return \x7b setup() \x7b\nimport 'b';\nconst x = 1;\n\x7d \x7d;") ∧
    asFunctionBody "import \"it's\";\nconst x = 1;" = (.imperative,
      "return \x7b setup() \x7b\ns\";\nconst x = 1;\n\x7d \x7d;") := by
  decide +kernel

end Nodecraft.Logic
