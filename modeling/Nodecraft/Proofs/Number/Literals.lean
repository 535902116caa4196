import Mathlib.Data.Nat.Digits.Lemmas
import Nodecraft.Proofs.Number.Rounding
import Nodecraft.Sandbox.Conversion

/-!
# Numeric literals

A string that is used as a number is stripped of white space and then read as a literal: nothing,
the name of infinity, a decimal numeral or hexadecimal digits (`Literal`). A decimal is read as the
double nearest to it, however many digits it has (`roundDecimal_rounds`), and what is no literal is
read as NaN. Two exceptions stand beside the grammar (`Sandbox.number_string`). Hexadecimal
literals from `2 ^ 63` on are read as NaN (`IsLong`). Other spellings of infinity, and hexadecimal
digits behind a sign, are read as numbers without being literals (`Lax`).
-/

set_option autoImplicit false

namespace Nodecraft.Number

/-! ### Decimals of all sizes -/

section

variable {m : ℕ} {e : ℤ}

/-- A number has as many digits as it has powers of ten below it. -/
theorem digits_bounds (hpos : 0 < m) : ∃ k : ℕ, (Nat.toDigits 10 m).length = k + 1 ∧
    10 ^ k ≤ m ∧ m < 10 ^ (k + 1) := by
  have hle (k : ℕ) (hk : 0 < k) := Nat.length_toDigits_le_iff (n := m) (by decide : 1 < 10) hk
  obtain ⟨k, hk⟩ : ∃ k, (Nat.toDigits 10 m).length = k + 1 :=
    Nat.exists_eq_succ_of_ne_zero (List.length_pos_iff.2 Nat.toDigits_ne_nil).ne'
  refine ⟨k, hk, ?_, (hle (k + 1) k.succ_pos).1 hk.le⟩
  rcases Nat.eq_zero_or_pos k with rfl | hkpos
  · exact hpos
  · by_contra hlt
    have := (hle k hkpos).2 (Nat.lt_of_not_le hlt)
    omega

theorem overflow_le_ten_pow : overflow ≤ 10 ^ (310 : ℤ) := by
  calc overflow ≤ 2 ^ (1024 : ℤ) := overflow_le_two_pow
    _ ≤ 2 ^ (1025 : ℤ) := zpow_le_zpow_right₀ (by norm_num) (by decide)
    _ = (2 ^ 205) ^ 5 := by rw [← pow_mul, ← zpow_natCast]; rfl
    _ ≤ (10 ^ 62) ^ 5 := pow_le_pow_left₀ (by norm_num) (by norm_num) 5
    _ = 10 ^ (310 : ℤ) := by rw [← pow_mul, ← zpow_natCast]; rfl

theorem ten_pow_le_least : (10 : ℚ) ^ (-330 : ℤ) ≤ 2 ^ (-1075 : ℤ) := by
  have hpow : (2 : ℚ) ^ (1075 : ℤ) ≤ 10 ^ (330 : ℤ) := by
    calc (2 : ℚ) ^ (1075 : ℤ) ≤ 2 ^ (1090 : ℤ) := zpow_le_zpow_right₀ (by norm_num) (by decide)
      _ = (2 ^ 109) ^ 10 := by rw [← pow_mul, ← zpow_natCast]; rfl
      _ ≤ (10 ^ 33) ^ 10 := pow_le_pow_left₀ (by norm_num) (by norm_num) 10
      _ = 10 ^ (330 : ℤ) := by rw [← pow_mul, ← zpow_natCast]; rfl
  rw [zpow_neg, zpow_neg]
  exact inv_anti₀ (two_zpow_pos 1075) hpow

/-- A decimal is read as the double nearest to it, of whatever size it is. -/
theorem roundDecimal_rounds (m : ℕ) (e : ℤ) : Rounds false (m * 10 ^ e) (roundDecimal m e) := by
  have hten : (0 : ℚ) < 10 ^ e := zpow_pos (by norm_num) e
  unfold roundDecimal
  split
  · rename_i hzero
    rw [hzero, Nat.cast_zero, zero_mul]
    exact rounds_zero (by decide) le_rfl (two_zpow_pos _).le
  rename_i hne
  have hpos := Nat.pos_of_ne_zero hne
  obtain ⟨k, hk, hle, hlt⟩ := digits_bounds hpos
  have hle' : (10 : ℚ) ^ (k : ℤ) ≤ m := by
    rw [zpow_natCast]
    exact_mod_cast hle
  have hlt' : (m : ℚ) ≤ 10 ^ ((k + 1 : ℕ) : ℤ) := by
    rw [zpow_natCast]
    exact_mod_cast hlt.le
  dsimp only
  rw [hk]
  split
  · have hsize : overflow ≤ m * 10 ^ e := by
      calc overflow ≤ 10 ^ (310 : ℤ) := overflow_le_ten_pow
        _ ≤ 10 ^ ((k : ℤ) + e) := zpow_le_zpow_right₀ (by norm_num) (by omega)
        _ = 10 ^ (k : ℤ) * 10 ^ e := zpow_add₀ (by norm_num) _ _
        _ ≤ m * 10 ^ e := mul_le_mul_of_nonneg_right hle' hten.le
    exact .infinite hsize rfl
  split
  · have hsize : (m : ℚ) * 10 ^ e ≤ 2 ^ (-1075 : ℤ) := by
      calc (m : ℚ) * 10 ^ e ≤ 10 ^ ((k + 1 : ℕ) : ℤ) * 10 ^ e :=
            mul_le_mul_of_nonneg_right hlt' hten.le
        _ = 10 ^ (((k + 1 : ℕ) : ℤ) + e) := (zpow_add₀ (by norm_num) _ _).symm
        _ ≤ 10 ^ (-330 : ℤ) := zpow_le_zpow_right₀ (by norm_num) (by omega)
        _ ≤ 2 ^ (-1075 : ℤ) := ten_pow_le_least
    exact rounds_zero (by decide) (mul_nonneg (Nat.cast_nonneg m) hten.le) hsize
  split
  · obtain ⟨n, rfl⟩ := Int.eq_ofNat_of_zero_le ‹0 ≤ e›
    exact rounds_ofScientific hpos false n
  · obtain ⟨n, rfl⟩ : ∃ n : ℕ, e = -n := ⟨(-e).toNat, by omega⟩
    have hn : (-(-(n : ℤ))).toNat = n := by omega
    rw [hn]
    exact rounds_ofScientific hpos true n

end

/-- Whole numbers are rounded correctly. -/
theorem ofNat_rounds (n : ℕ) : Rounds false n (Float.ofNat n) := by
  rcases Nat.eq_zero_or_pos n with rfl | hpos
  · rw [Nat.cast_zero]
    exact rounds_zero (by decide) le_rfl (two_zpow_pos _).le
  · have hround := rounds_ofScientific hpos false 0
    rwa [show scale false 0 = 0 from rfl, zpow_zero, mul_one] at hround

/-- A whole number is read as the double nearest to it. -/
theorem ofInt_rounds (n : ℤ) : Rounds (decide (n < 0)) n.natAbs (Float.ofInt n) := by
  cases n with
  | ofNat n => exact ofNat_rounds n
  | negSucc n =>
    rw [decide_eq_true (Int.negSucc_lt_zero n)]
    exact (ofNat_rounds (n + 1)).neg

/-! ### The grammar -/

/-- The number that a digit sequence stands for by the places of its digits. -/
def positional (base : ℕ) (ds : List Char) : ℕ :=
  Nat.ofDigits base (ds.reverse.map fun c ↦ (digitValue? c).getD 0)

/-- At least one digit, and no other character. -/
structure IsDigits (base : ℕ) (ds : List Char) : Prop where
  ne_nil : ds ≠ []
  digits : ∀ c ∈ ds, isDigitIn base c = true

/-- A sign that may be left out. -/
inductive IsSign : Bool → List Char → Prop
  | absent : IsSign false []
  | plus : IsSign false ['+']
  | minus : IsSign true ['-']

/-- The exponent of a decimal literal as it is written, which may be left out. -/
inductive IsExponent : List Char → ℤ → Prop
  | absent : IsExponent [] 0
  | present {mark : Char} (hmark : mark = 'e' ∨ mark = 'E') {negative : Bool} {sign ds : List Char}
    (hsign : IsSign negative sign) (hds : IsDigits 10 ds) :
    IsExponent (mark :: (sign ++ ds)) (scale negative (positional 10 ds))

/-- A decimal literal without a sign, and the number it stands for. One side of the point may be
without digits, and without a point there is no fraction. -/
inductive IsDecimal : List Char → ℚ → Prop
  | intro {whole point fraction exponent : List Char} {e : ℤ}
    (hds : IsDigits 10 (whole ++ fraction)) (hpoint : point = ['.'] ∨ point = [] ∧ fraction = [])
    (hexponent : IsExponent exponent e) :
    IsDecimal (whole ++ (point ++ (fraction ++ exponent)))
      (positional 10 (whole ++ fraction) * 10 ^ (e - fraction.length))

/-- What a text says about a number. -/
inductive Meaning
  | infinity (negative : Bool)
  | rational (negative : Bool) (q : ℚ)

/-- The number is what the text says, up to rounding. -/
def Meaning.Is : Meaning → Float → Prop
  | .infinity negative, x => x = negateIf negative Number.infinity
  | .rational negative q, x => Rounds negative q x

/-- The numeric literals, and blank text, which stands for zero. -/
inductive Literal : List Char → Meaning → Prop
  | blank : Literal [] (.rational false 0)
  | infinity {negative : Bool} {sign : List Char} (hsign : IsSign negative sign) :
    Literal (sign ++ "Infinity".toList) (.infinity negative)
  | decimal {negative : Bool} {sign ds : List Char} {q : ℚ} (hsign : IsSign negative sign)
    (hds : IsDecimal ds q) : Literal (sign ++ ds) (.rational negative q)
  | hexadecimal {x : Char} (hx : x = 'x' ∨ x = 'X') {ds : List Char} (hds : IsDigits 16 ds) :
    Literal ('0' :: x :: ds) (.rational false (positional 16 ds))

/-- Hexadecimal literals for numbers that are not below `2 ^ 63`. -/
inductive IsLong : List Char → Prop
  | intro {x : Char} (hx : x = 'x' ∨ x = 'X') {ds : List Char} (hds : IsDigits 16 ds)
    (hle : 2 ^ 63 ≤ positional 16 ds) : IsLong ('0' :: x :: ds)

/-- The names of infinity, in lower case. -/
def infinityNames : List (List Char) := ["inf".toList, "infinity".toList]

/-- Texts that are no literals and are still read as numbers: other names of infinity, and
hexadecimal digits behind a sign. -/
inductive Lax : List Char → Meaning → Prop
  | infinity {negative : Bool} {sign name : List Char} (hsign : IsSign negative sign)
    (hname : name.map Char.toLower ∈ infinityNames) (hne : name ≠ "Infinity".toList) :
    Lax (sign ++ name) (.infinity negative)
  | hexadecimal {x : Char} (hx : x = 'x' ∨ x = 'X') {negative : Bool} {sign ds : List Char}
    (hsign : IsSign negative sign) (hne : sign ≠ []) (hds : IsDigits 16 ds)
    (hrange : -2 ^ 63 ≤ scale negative (positional 16 ds) ∧
      scale negative (positional 16 ds) < 2 ^ 63) :
    Lax ('0' :: x :: (sign ++ ds))
      (.rational (scale negative (positional 16 ds) < 0) (positional 16 ds))

/-! ### Digits and signs -/

/-- The value of digits is positional. -/
theorem digitsValue_eq (base : ℕ) (ds : List Char) : digitsValue base ds = positional base ds := by
  induction ds using List.reverseRecOn with
  | nil => rfl
  | append_singleton ds c ih =>
    have hstep : digitsValue base (ds ++ [c]) =
        digitsValue base ds * base + (digitValue? c).getD 0 := List.foldl_concat ..
    unfold positional at ih ⊢
    rw [hstep, ih, List.reverse_append, List.reverse_singleton, List.singleton_append,
      List.map_cons, Nat.ofDigits_cons, Nat.mul_comm, Nat.add_comm]

/-- The check for digits is exact. -/
theorem isDigits_iff (base : ℕ) (ds : List Char) :
    (ds.isEmpty || !ds.all (isDigitIn base)) = false ↔ IsDigits base ds := by
  rw [Bool.or_eq_false_iff, Bool.not_eq_false', List.isEmpty_eq_false_iff, List.all_eq_true]
  exact ⟨fun h ↦ ⟨h.1, h.2⟩, fun h ↦ ⟨h.ne_nil, h.digits⟩⟩

/-- A body that has no sign of its own. -/
def Unsigned (body : List Char) : Prop := ∀ c ∈ body.head?, c ≠ '+' ∧ c ≠ '-'

theorem IsDigits.unsigned {base : ℕ} {ds : List Char} (h : IsDigits base ds) : Unsigned ds := by
  intro c hc
  have hdigit := h.digits c (List.mem_of_mem_head? hc)
  constructor <;> rintro rfl <;> exact absurd hdigit Bool.false_ne_true

/-- A sign is split off. -/
theorem splitSign_append {negative : Bool} {sign body : List Char} (h : IsSign negative sign)
    (hbody : Unsigned body) : splitSign (sign ++ body) = (negative, body) := by
  cases h with
  | plus => rfl
  | minus => rfl
  | absent =>
    rw [List.nil_append]
    unfold splitSign
    split
    · exact absurd rfl (hbody _ rfl).2
    · exact absurd rfl (hbody _ rfl).1
    · rfl

/-- Whatever is split off is a sign. -/
theorem exists_sign (cs : List Char) :
    ∃ sign, IsSign (splitSign cs).1 sign ∧ cs = sign ++ (splitSign cs).2 := by
  unfold splitSign
  split
  · exact ⟨_, .minus, rfl⟩
  · exact ⟨_, .plus, rfl⟩
  · exact ⟨_, .absent, rfl⟩

/-! ### Decimal literals -/

theorem readExponent?_cons (mark : Char) (rest : List Char) : readExponent? (mark :: rest) =
    if mark = 'e' ∨ mark = 'E' then
      if (splitSign rest).2.isEmpty || !(splitSign rest).2.all (isDigitIn 10) then none
      else some (scale (splitSign rest).1 (digitsValue 10 (splitSign rest).2))
    else none := by
  rfl

/-- An exponent is read. -/
theorem IsExponent.reads {cs : List Char} {e : ℤ} (h : IsExponent cs e) :
    readExponent? cs = some e := by
  cases h with
  | absent => rfl
  | present hmark hsign hds =>
    rw [readExponent?_cons, if_pos hmark, splitSign_append hsign hds.unsigned, digitsValue_eq]
    dsimp only
    rw [(isDigits_iff 10 _).2 hds]
    rfl

/-- What is read as an exponent is one. -/
theorem isExponent_of_reads {cs : List Char} {e : ℤ} (h : readExponent? cs = some e) :
    IsExponent cs e := by
  cases cs with
  | nil =>
    obtain rfl := Option.some.inj h
    exact .absent
  | cons mark rest =>
    obtain ⟨sign, hsign, hrest⟩ := exists_sign rest
    rw [readExponent?_cons] at h
    split at h
    · rename_i hmark
      split at h
      · exact nomatch h
      · rename_i hds
        have hds' := (isDigits_iff 10 _).1 (Bool.eq_false_iff.2 hds)
        obtain rfl := Option.some.inj h
        rw [digitsValue_eq]
        conv => arg 1; rw [hrest]
        exact .present hmark hsign hds'
    · exact nomatch h

/-- A text that has no digit at its start. -/
def Undigited (rest : List Char) : Prop := ∀ c ∈ rest.head?, isDigitIn 10 c = false

section

variable {whole rest : List Char}

theorem Undigited.takeWhile_eq (h : Undigited rest) : rest.takeWhile (isDigitIn 10) = [] := by
  cases rest with
  | nil => rfl
  | cons c rest => exact List.takeWhile_cons_of_neg (by simp [h c rfl])

theorem Undigited.dropWhile_eq (h : Undigited rest) : rest.dropWhile (isDigitIn 10) = rest := by
  cases rest with
  | nil => rfl
  | cons c rest => exact List.dropWhile_cons_of_neg (by simp [h c rfl])

/-- Behind all digits there is none. -/
theorem undigited_dropWhile (cs : List Char) : Undigited (cs.dropWhile (isDigitIn 10)) := by
  intro c hc
  have hnot := List.head?_dropWhile_not (isDigitIn 10) cs
  rw [Option.mem_def.1 hc] at hnot
  exact hnot

theorem takeWhile_digits (hwhole : ∀ c ∈ whole, isDigitIn 10 c = true) (hrest : Undigited rest) :
    (whole ++ rest).takeWhile (isDigitIn 10) = whole := by
  rw [List.takeWhile_append_of_pos hwhole, hrest.takeWhile_eq, List.append_nil]

theorem dropWhile_digits (hwhole : ∀ c ∈ whole, isDigitIn 10 c = true) (hrest : Undigited rest) :
    (whole ++ rest).dropWhile (isDigitIn 10) = rest := by
  rw [List.dropWhile_append_of_pos hwhole, hrest.dropWhile_eq]

/-- A decimal with a point. -/
theorem readDecimal?_point {fraction : List Char} (hwhole : ∀ c ∈ whole, isDigitIn 10 c = true)
    (hfraction : ∀ c ∈ fraction, isDigitIn 10 c = true) (hrest : Undigited rest) :
    readDecimal? (whole ++ '.' :: (fraction ++ rest)) =
      if whole.isEmpty && fraction.isEmpty then none
      else (readExponent? rest).map (⟨whole, fraction, ·⟩) := by
  have hpoint : Undigited ('.' :: (fraction ++ rest)) := by
    rintro c ⟨⟩
    rfl
  unfold readDecimal?
  rw [takeWhile_digits hwhole hpoint, dropWhile_digits hwhole hpoint]
  change (if whole.isEmpty && ((fraction ++ rest).takeWhile (isDigitIn 10)).isEmpty then none
    else (readExponent? ((fraction ++ rest).dropWhile (isDigitIn 10))).map
      (DecimalParts.mk whole ((fraction ++ rest).takeWhile (isDigitIn 10)) ·)) = _
  rw [takeWhile_digits hfraction hrest, dropWhile_digits hfraction hrest]

/-- A decimal without a point. -/
theorem readDecimal?_bare (hwhole : ∀ c ∈ whole, isDigitIn 10 c = true) (hrest : Undigited rest)
    (hpoint : rest.head? ≠ some '.') : readDecimal? (whole ++ rest) =
      if whole.isEmpty then none else (readExponent? rest).map (⟨whole, [], ·⟩) := by
  unfold readDecimal?
  rw [takeWhile_digits hwhole hrest, dropWhile_digits hwhole hrest]
  split
  rename_i fraction rest' heq
  split at heq
  · exact absurd rfl hpoint
  · obtain ⟨rfl, rfl⟩ := Prod.mk.inj heq
    dsimp only
    rw [List.isEmpty_nil, Bool.and_true]

end

/-- The number that a literal stands for before it is rounded. -/
def DecimalParts.exact (p : DecimalParts) : ℚ :=
  positional 10 (p.whole ++ p.fraction) * 10 ^ (p.exponent - p.fraction.length)

/-- The value of a decimal is its exact value, rounded. -/
theorem DecimalParts.value_rounds (p : DecimalParts) : Rounds false p.exact p.value := by
  unfold DecimalParts.exact
  rw [← digitsValue_eq]
  exact roundDecimal_rounds _ _

theorem IsExponent.undigited {cs : List Char} {e : ℤ} (h : IsExponent cs e) : Undigited cs := by
  cases h with
  | absent => exact fun c hc ↦ nomatch hc
  | present hmark => rintro c ⟨⟩; rcases hmark with rfl | rfl <;> rfl

/-- A decimal is read. -/
theorem IsDecimal.reads {cs : List Char} {q : ℚ} (h : IsDecimal cs q) :
    ∃ p, readDecimal? cs = some p ∧ p.exact = q := by
  obtain ⟨hds, hpoint, hexponent⟩ := h
  rename_i whole point fraction exponent e
  have hwhole (c : Char) (hc : c ∈ whole) := hds.digits c (List.mem_append_left _ hc)
  have hfraction (c : Char) (hc : c ∈ fraction) := hds.digits c (List.mem_append_right _ hc)
  refine ⟨⟨whole, fraction, e⟩, ?_, rfl⟩
  rcases hpoint with rfl | ⟨rfl, rfl⟩
  · have hne : ¬ (whole.isEmpty && fraction.isEmpty) = true := by
      rw [Bool.and_eq_true, List.isEmpty_iff, List.isEmpty_iff, ← List.append_eq_nil_iff]
      exact hds.ne_nil
    rw [List.singleton_append, readDecimal?_point hwhole hfraction hexponent.undigited, if_neg hne,
      hexponent.reads]
    rfl
  · have hne : ¬ whole.isEmpty = true := by
      rw [List.isEmpty_iff]
      exact fun h ↦ hds.ne_nil (by rw [h]; rfl)
    have hpoint : exponent.head? ≠ some '.' := by
      cases hexponent with
      | absent => exact fun h ↦ nomatch h
      | present hmark => rintro ⟨⟩; rcases hmark with h | h <;> exact absurd h (by decide)
    rw [List.nil_append, List.nil_append, readDecimal?_bare hwhole hexponent.undigited hpoint,
      if_neg hne, hexponent.reads]
    rfl

/-- What is read as a decimal is one. -/
theorem isDecimal_of_reads {cs : List Char} {p : DecimalParts} (h : readDecimal? cs = some p) :
    IsDecimal cs p.exact := by
  have hwhole := List.all_eq_true.1 (List.all_takeWhile (p := isDigitIn 10) (l := cs))
  have hcs := List.takeWhile_append_dropWhile (p := isDigitIn 10) (l := cs)
  have hrest := undigited_dropWhile cs
  revert hwhole hcs hrest
  generalize cs.takeWhile (isDigitIn 10) = whole
  generalize cs.dropWhile (isDigitIn 10) = rest
  rintro hwhole rfl hrest
  by_cases hpoint : rest.head? = some '.'
  · obtain ⟨after, rfl⟩ := List.head?_eq_some_iff.1 hpoint
    have hfraction := List.all_eq_true.1 (List.all_takeWhile (p := isDigitIn 10) (l := after))
    have hafter := List.takeWhile_append_dropWhile (p := isDigitIn 10) (l := after)
    have hend := undigited_dropWhile after
    revert hfraction hafter hend
    generalize after.takeWhile (isDigitIn 10) = fraction
    generalize after.dropWhile (isDigitIn 10) = exponent
    rintro hfraction rfl hend
    rw [readDecimal?_point hwhole hfraction hend] at h
    split at h
    · exact nomatch h
    · rename_i hne
      obtain ⟨e, he, rfl⟩ := Option.map_eq_some_iff.1 h
      rw [Bool.and_eq_true, List.isEmpty_iff, List.isEmpty_iff, ← List.append_eq_nil_iff] at hne
      have hds : IsDigits 10 (whole ++ fraction) :=
        ⟨hne, fun c hc ↦ (List.mem_append.1 hc).elim (hwhole c) (hfraction c)⟩
      exact @IsDecimal.intro whole ['.'] fraction exponent e hds (.inl rfl) (isExponent_of_reads he)
  · rw [readDecimal?_bare hwhole hrest hpoint] at h
    split at h
    · exact nomatch h
    · rename_i hne
      obtain ⟨e, he, rfl⟩ := Option.map_eq_some_iff.1 h
      rw [List.isEmpty_iff] at hne
      have hds : IsDigits 10 (whole ++ []) := by
        rw [List.append_nil]
        exact ⟨hne, hwhole⟩
      exact @IsDecimal.intro whole [] [] rest e hds (.inr ⟨rfl, rfl⟩) (isExponent_of_reads he)

/-- The characters of a decimal literal. -/
theorem IsDecimal.mem {cs : List Char} {q : ℚ} (h : IsDecimal cs q) : ∀ c ∈ cs,
    isDigitIn 10 c = true ∨ c ∈ ['.', 'e', 'E', '+', '-'] := by
  obtain ⟨hds, hpoint, hexponent⟩ := h
  intro c hc
  rcases List.mem_append.1 hc with hc | hc
  · exact .inl (hds.digits c (List.mem_append_left _ hc))
  rcases List.mem_append.1 hc with hc | hc
  · rcases hpoint with rfl | ⟨rfl, -⟩
    · exact .inr (List.mem_of_mem_head? (by rw [List.mem_singleton.1 hc]; rfl))
    · exact nomatch hc
  rcases List.mem_append.1 hc with hc | hc
  · exact .inl (hds.digits c (List.mem_append_right _ hc))
  cases hexponent with
  | absent => exact nomatch hc
  | present hmark hsign hexp =>
    rcases List.mem_cons.1 hc with rfl | hc
    · rcases hmark with rfl | rfl <;> exact .inr (by decide)
    rcases List.mem_append.1 hc with hc | hc
    · cases hsign with
      | absent => exact nomatch hc
      | plus => exact .inr (by rw [List.mem_singleton.1 hc]; decide)
      | minus => exact .inr (by rw [List.mem_singleton.1 hc]; decide)
    · exact .inl (hexp.digits c hc)

/-- A decimal does not begin with a sign. -/
theorem IsDecimal.unsigned {cs : List Char} {q : ℚ} (h : IsDecimal cs q) : Unsigned cs := by
  obtain ⟨hds, hpoint, hexponent⟩ := h
  rename_i whole point fraction exponent e
  cases whole with
  | cons c whole =>
    rintro d ⟨⟩
    have hdigit := hds.digits c List.mem_cons_self
    constructor <;> rintro rfl <;> exact absurd hdigit (by decide)
  | nil =>
    rcases hpoint with rfl | ⟨rfl, rfl⟩
    · rintro d ⟨⟩
      exact ⟨by decide, by decide⟩
    · exact absurd rfl hds.ne_nil

/-! ### Signed texts -/

theorem eq_of_toLower {c : Char} (h : c.toLower = 'n') : c = 'n' ∨ c = 'N' := by
  unfold Char.toLower at h
  split at h
  · have hval : c.val + ('a'.val - 'A'.val) = 'N'.val + ('a'.val - 'A'.val) := congrArg Char.val h
    exact .inr (Char.ext ((UInt32.add_left_inj _).1 hval))
  · exact .inl h

/-- A decimal spells no name. -/
theorem IsDecimal.toLower_ne {cs : List Char} {q : ℚ} (h : IsDecimal cs q) :
    'n' ∉ cs.map Char.toLower := by
  intro hn
  obtain ⟨c, hc, hlower⟩ := List.mem_map.1 hn
  have hmem := h.mem c hc
  rcases eq_of_toLower hlower with rfl | rfl <;> exact absurd hmem (by decide)

section

variable {negative : Bool} {sign body : List Char}

theorem ofList_eq_iff (cs : List Char) (s : String) : String.ofList cs = s ↔ cs = s.toList :=
  ⟨fun h ↦ by rw [← h, String.toList_ofList], fun h ↦ by rw [h, String.ofList_toList]⟩

theorem mem_infinityNames {name : List Char} :
    name ∈ infinityNames ↔ name = "inf".toList ∨ name = "infinity".toList := List.mem_pair

/-- A sign, then a name or a decimal. -/
theorem readSigned_eq (cs : List Char) : readSigned cs =
    if (splitSign cs).2.map Char.toLower ∈ infinityNames then negateIf (splitSign cs).1 infinity
    else if (splitSign cs).2.map Char.toLower = "nan".toList then nan
    else ((readDecimal? (splitSign cs).2).map fun p ↦
      negateIf (splitSign cs).1 p.value).getD nan := by
  unfold readSigned
  simp only [ofList_eq_iff, mem_infinityNames]
  cases readDecimal? (splitSign cs).2 <;> rfl

theorem unsigned_of_name (hname : body.map Char.toLower ∈ infinityNames) : Unsigned body := by
  have hfirst : ∀ name ∈ infinityNames, name.head? = some 'i' := by decide
  intro c hc
  have hlower := hfirst _ hname
  rw [List.head?_map, Option.mem_def.1 hc] at hlower
  constructor <;> rintro rfl <;> exact absurd hlower (by decide)

/-- The names of infinity. -/
theorem readSigned_infinity (hsign : IsSign negative sign)
    (hname : body.map Char.toLower ∈ infinityNames) :
    readSigned (sign ++ body) = negateIf negative infinity := by
  rw [readSigned_eq, splitSign_append hsign (unsigned_of_name hname), if_pos hname]

/-- Decimals with a sign. -/
theorem readSigned_decimal (hsign : IsSign negative sign) {q : ℚ} (hbody : IsDecimal body q) :
    Rounds negative q (readSigned (sign ++ body)) := by
  have hn := hbody.toLower_ne
  have hname : body.map Char.toLower ∉ infinityNames := fun h ↦
    hn ((by decide : ∀ name ∈ infinityNames, 'n' ∈ name) _ h)
  have hnan : body.map Char.toLower ≠ "nan".toList := fun h ↦ hn (h ▸ by decide)
  obtain ⟨p, hp, rfl⟩ := hbody.reads
  rw [readSigned_eq, splitSign_append hsign hbody.unsigned, if_neg hname, if_neg hnan, hp]
  exact p.value_rounds.negateIf negative

end

/-- A text that is read as a number is a name of infinity or a decimal literal. -/
theorem readSigned_cases (cs : List Char) : readSigned cs = nan ∨
    ∃ negative sign body, IsSign negative sign ∧ cs = sign ++ body ∧
      (body.map Char.toLower ∈ infinityNames ∨ ∃ q, IsDecimal body q) := by
  obtain ⟨sign, hsign, hcs⟩ := exists_sign cs
  rw [readSigned_eq]
  split
  · exact .inr ⟨_, sign, _, hsign, hcs, .inl ‹_›⟩
  split
  · exact .inl rfl
  cases hread : readDecimal? (splitSign cs).2 with
  | none => exact .inl rfl
  | some p => exact .inr ⟨_, sign, _, hsign, hcs, .inr ⟨_, isDecimal_of_reads hread⟩⟩

/-! ### Hexadecimal digits -/

/-- What fits into 64 bits with its sign. -/
theorem scale_range (negative : Bool) (n : ℕ) :
    -2 ^ 63 ≤ scale negative n ∧ scale negative n < 2 ^ 63 ↔
      n < Nat.pow 2 63 ∨ negative = true ∧ n = Nat.pow 2 63 := by
  have hpow : Nat.pow 2 63 = 2 ^ 63 := rfl
  rw [hpow]
  cases negative with
  | false =>
    rw [show scale false n = n from rfl, iff_false_intro Bool.false_ne_true, false_and, or_false]
    omega
  | true =>
    rw [show scale true n = -n from rfl, eq_self, true_and]
    omega

/-- A sign, then digits that fit into 64 bits. -/
theorem readHex_eq (cs : List Char) : readHex cs =
    if (splitSign cs).2.isEmpty || !(splitSign cs).2.all (isDigitIn 16) then nan
    else if -2 ^ 63 ≤ scale (splitSign cs).1 (digitsValue 16 (splitSign cs).2) ∧
        scale (splitSign cs).1 (digitsValue 16 (splitSign cs).2) < 2 ^ 63 then
      Float.ofInt (scale (splitSign cs).1 (digitsValue 16 (splitSign cs).2))
    else nan := by
  simp only [scale_range]
  rfl

/-- Hexadecimal digits that fit are read as what they stand for. -/
theorem readHex_digits {negative : Bool} {sign ds : List Char} (hsign : IsSign negative sign)
    (hds : IsDigits 16 ds) : readHex (sign ++ ds) =
      if -2 ^ 63 ≤ scale negative (positional 16 ds) ∧
          scale negative (positional 16 ds) < 2 ^ 63 then
        Float.ofInt (scale negative (positional 16 ds))
      else nan := by
  have h := (isDigits_iff 16 ds).2 hds
  rw [readHex_eq, splitSign_append hsign hds.unsigned, digitsValue_eq,
    if_neg (Bool.eq_false_iff.1 h)]

/-- Whatever is read as hexadecimal is a sign and digits. -/
theorem readHex_cases (cs : List Char) : readHex cs = nan ∨
    ∃ negative sign ds, IsSign negative sign ∧ IsDigits 16 ds ∧ cs = sign ++ ds := by
  obtain ⟨sign, hsign, hcs⟩ := exists_sign cs
  rw [readHex_eq]
  split
  · exact .inl rfl
  · rename_i hds
    exact .inr ⟨_, sign, _, hsign, (isDigits_iff 16 _).1 (Bool.eq_false_iff.2 hds), hcs⟩

/-! ### Texts -/

/-- What comes before hexadecimal digits. -/
def HexPrefix (cs : List Char) : Prop := ∃ x rest, (x = 'x' ∨ x = 'X') ∧ cs = '0' :: x :: rest

section

variable {s : String}

/-- A blank text is zero. -/
theorem ofText_blank (h : Text.trimChars s.toList = []) : ofText s = 0.0 := by
  unfold ofText
  rw [h]

/-- Behind the prefix stand hexadecimal digits. -/
theorem ofText_hex {x : Char} {rest : List Char} (hx : x = 'x' ∨ x = 'X')
    (h : Text.trimChars s.toList = '0' :: x :: rest) : ofText s = readHex rest := by
  unfold ofText
  rw [h]
  rcases hx with rfl | rfl <;> rfl

/-- Any other text is a name or a decimal. -/
theorem ofText_signed (hne : Text.trimChars s.toList ≠ [])
    (hhex : ¬ HexPrefix (Text.trimChars s.toList)) :
    ofText s = readSigned (Text.trimChars s.toList) := by
  unfold ofText
  split
  · exact absurd ‹_› hne
  · exact absurd ⟨_, _, .inl rfl, ‹_›⟩ hhex
  · exact absurd ⟨_, _, .inr rfl, ‹_›⟩ hhex
  · rfl

end

/-- Without the letter there is no prefix. -/
theorem not_hexPrefix {negative : Bool} {sign body : List Char} (hsign : IsSign negative sign)
    (hbody : ∀ c ∈ body, c ≠ 'x' ∧ c ≠ 'X') : ¬ HexPrefix (sign ++ body) := by
  rintro ⟨x, rest, hx, h⟩
  have hmem : x ∈ body := by
    cases hsign with
    | absent =>
      rw [List.nil_append] at h
      rw [h]
      exact List.mem_cons_of_mem _ List.mem_cons_self
    | plus => exact nomatch h
    | minus => exact nomatch h
  exact hx.elim (hbody x hmem).1 (hbody x hmem).2

theorem name_mem {name : List Char} (hname : name.map Char.toLower ∈ infinityNames) :
    ∀ c ∈ name, c ≠ 'x' ∧ c ≠ 'X' := by
  intro c hc
  have hlower := List.mem_map_of_mem (f := Char.toLower) hc
  have hx : ∀ name ∈ infinityNames, 'x' ∉ name := by decide
  constructor <;> rintro rfl <;> exact hx _ hname hlower

theorem IsDecimal.mem_ne {cs : List Char} {q : ℚ} (h : IsDecimal cs q) :
    ∀ c ∈ cs, c ≠ 'x' ∧ c ≠ 'X' := by
  intro c hc
  have hmem := h.mem c hc
  constructor <;> rintro rfl <;> exact absurd hmem (by decide)

theorem IsDecimal.ne_nil {cs : List Char} {q : ℚ} (h : IsDecimal cs q) : cs ≠ [] := by
  rintro rfl
  obtain ⟨p, hp, -⟩ := h.reads
  exact nomatch hp

/-- A literal that starts like a hexadecimal one is one. -/
theorem Literal.of_hexPrefix {cs : List Char} {m : Meaning} (h : Literal cs m)
    (hhex : HexPrefix cs) : ∃ x ds, IsDigits 16 ds ∧ cs = '0' :: x :: ds := by
  cases h with
  | blank => exact nomatch hhex
  | infinity hsign => exact absurd hhex (not_hexPrefix hsign (name_mem (by decide)))
  | decimal hsign hds => exact absurd hhex (not_hexPrefix hsign hds.mem_ne)
  | hexadecimal hx hds => exact ⟨_, _, hds, rfl⟩

theorem nan_ne_infinity (negative : Bool) : nan ≠ negateIf negative infinity := by
  intro h
  have hnan := congrArg Float.isNaN h
  cases negative <;> exact absurd hnan (by decide)

/-- A number that a text stands for is not NaN. -/
theorem Meaning.Is.ne_nan {m : Meaning} {x : Float} (h : m.Is x) : x ≠ nan := by
  rintro rfl
  cases m with
  | infinity negative => exact nan_ne_infinity negative h
  | rational negative q =>
    cases h with
    | finite decodes =>
      have hnone : decode? nan = none := by decide
      exact nomatch hnone.symm.trans decodes
    | infinite hle heq => exact nan_ne_infinity negative heq

end Nodecraft.Number

namespace Nodecraft.Sandbox

open Number

variable (h : Heap) {s : String}

/-- A literal is read as what it means. -/
theorem number_literal {m : Meaning} (hm : Literal (Text.trimChars s.toList) m)
    (hlong : ¬ IsLong (Text.trimChars s.toList)) : m.Is (h.number (.string s)) := by
  change m.Is (ofText s)
  generalize ht : Text.trimChars s.toList = t at hm hlong
  cases hm with
  | blank =>
    rw [ofText_blank ht]
    exact rounds_zero (by decide) le_rfl (two_zpow_pos _).le
  | @infinity negative sign hsign =>
    have hname : "Infinity".toList.map Char.toLower ∈ infinityNames := by decide
    have hne : sign ++ "Infinity".toList ≠ [] := List.append_ne_nil_of_right_ne_nil _ (by decide)
    rw [ofText_signed (ht ▸ hne) (ht ▸ not_hexPrefix hsign (name_mem hname)), ht]
    exact readSigned_infinity hsign hname
  | @decimal negative sign ds q hsign hds =>
    have hne : sign ++ ds ≠ [] := List.append_ne_nil_of_right_ne_nil _ hds.ne_nil
    rw [ofText_signed (ht ▸ hne) (ht ▸ not_hexPrefix hsign hds.mem_ne), ht]
    exact readSigned_decimal hsign hds
  | @hexadecimal x hx ds hds =>
    have hlt : positional 16 ds < 2 ^ 63 := Nat.lt_of_not_le fun hle ↦ hlong (.intro hx hds hle)
    have hread := readHex_digits .absent hds
    rw [List.nil_append, if_pos ((scale_range false _).2 (.inl hlt))] at hread
    rw [ofText_hex hx ht, hread]
    exact ofNat_rounds (positional 16 ds)

/-- Hexadecimal digits that are too many are no number. -/
theorem number_long (hlong : IsLong (Text.trimChars s.toList)) : h.number (.string s) = nan := by
  change ofText s = nan
  generalize ht : Text.trimChars s.toList = t at hlong
  obtain ⟨hx, hds, hle⟩ := hlong
  have hread := readHex_digits .absent hds
  rw [List.nil_append, if_neg] at hread
  · rw [ofText_hex hx ht, hread]
  · rw [scale_range]
    rintro (hlt | ⟨hneg, -⟩)
    · exact absurd hle (Nat.not_le_of_lt hlt)
    · exact Bool.false_ne_true hneg

/-- So are the texts read that are no literals. -/
theorem number_lax {m : Meaning} (hm : Lax (Text.trimChars s.toList) m) :
    m.Is (h.number (.string s)) := by
  change m.Is (ofText s)
  generalize ht : Text.trimChars s.toList = t at hm
  cases hm with
  | @infinity negative sign name hsign hname hne =>
    have hname_ne : name ≠ [] := by
      rintro rfl
      exact absurd hname (by decide)
    have hne : sign ++ name ≠ [] := List.append_ne_nil_of_right_ne_nil _ hname_ne
    rw [ofText_signed (ht ▸ hne) (ht ▸ not_hexPrefix hsign (name_mem hname)), ht]
    exact readSigned_infinity hsign hname
  | @hexadecimal x hx negative sign ds hsign hne hds hrange =>
    rw [ofText_hex hx ht, readHex_digits hsign hds, if_pos hrange]
    have hround := ofInt_rounds (scale negative (positional 16 ds))
    have habs : (scale negative (positional 16 ds)).natAbs = positional 16 ds := by
      cases negative with
      | false => exact Int.natAbs_natCast _
      | true => exact (Int.natAbs_neg _).trans (Int.natAbs_natCast _)
    rwa [habs] at hround

/-- A text that is read as a number is a literal, or one of the others that are read too. -/
theorem meaning_of_number (hne : h.number (.string s) ≠ nan) :
    ∃ m, Literal (Text.trimChars s.toList) m ∨ Lax (Text.trimChars s.toList) m := by
  change ofText s ≠ nan at hne
  generalize ht : Text.trimChars s.toList = t
  by_cases hblank : t = []
  · subst hblank
    exact ⟨_, .inl .blank⟩
  by_cases hhex : HexPrefix t
  · obtain ⟨x, rest, hx, rfl⟩ := hhex
    rw [ofText_hex hx ht] at hne
    obtain ⟨negative, sign, ds, hsign, hds, rfl⟩ := (readHex_cases rest).resolve_left hne
    rcases eq_or_ne sign [] with rfl | hsign_ne
    · exact ⟨_, .inl (.hexadecimal hx hds)⟩
    · have hrange : -2 ^ 63 ≤ scale negative (positional 16 ds) ∧
          scale negative (positional 16 ds) < 2 ^ 63 := by
        by_contra hout
        exact hne ((readHex_digits hsign hds).trans (if_neg hout))
      exact ⟨_, .inr (.hexadecimal hx hsign hsign_ne hds hrange)⟩
  · rw [ofText_signed (ht ▸ hblank) (ht ▸ hhex), ht] at hne
    obtain ⟨negative, sign, body, hsign, rfl, hname | ⟨q, hds⟩⟩ :=
      (readSigned_cases t).resolve_left hne
    · rcases eq_or_ne body "Infinity".toList with rfl | hbody
      · exact ⟨_, .inl (.infinity hsign)⟩
      · exact ⟨_, .inr (.infinity hsign hname hbody)⟩
    · exact ⟨_, .inl (.decimal hsign hds)⟩

/-- A string is read as the literal that it is but for white space, rounded to the nearest double,
and as NaN if it is none. Two kinds of text are exceptions: a hexadecimal literal is NaN from
`2 ^ 63` on, and some texts that are no literals are read as numbers all the same. -/
theorem number_string (s : String) :
    (∀ m, Literal (Text.trimChars s.toList) m → ¬ IsLong (Text.trimChars s.toList) →
      m.Is (h.number (.string s))) ∧
    (∀ m, Lax (Text.trimChars s.toList) m → m.Is (h.number (.string s))) ∧
    (h.number (.string s) = nan ↔ IsLong (Text.trimChars s.toList) ∨
      ∀ m, ¬ Literal (Text.trimChars s.toList) m ∧ ¬ Lax (Text.trimChars s.toList) m) := by
  refine ⟨fun _ hm hlong ↦ number_literal h hm hlong, fun _ hm ↦ number_lax h hm, ?_, ?_⟩
  · intro hnan
    by_contra hcon
    obtain ⟨hlong, hnot⟩ := not_or.1 hcon
    refine hnot fun m ↦ ⟨fun hm ↦ ?_, fun hm ↦ ?_⟩
    · exact (number_literal h hm hlong).ne_nan hnan
    · exact (number_lax h hm).ne_nan hnan
  · rintro (hlong | hnone)
    · exact number_long h hlong
    · by_contra hne
      obtain ⟨m, hm | hm⟩ := meaning_of_number h hne
      · exact (hnone m).1 hm
      · exact (hnone m).2 hm

/-- The digits behind a sign are no literal and are read as a number. -/
theorem number_string_signed : (∀ m, ¬ Literal (Text.trimChars "0x-5".toList) m) ∧
    ∀ h : Heap, h.number (.string "0x-5") = Float.ofInt (-5) ∧ h.number (.string "0x-5") ≠ nan := by
  have hvalue : ofText "0x-5" = Float.ofInt (-5) := by rfl
  refine ⟨fun m hm ↦ ?_, fun h ↦ ⟨hvalue, ?_⟩⟩
  · obtain ⟨x, ds, hds, heq⟩ := hm.of_hexPrefix ⟨'x', ['-', '5'], .inl rfl, rfl⟩
    obtain ⟨-, -, rfl⟩ := heq
    exact absurd (hds.digits '-' List.mem_cons_self) (by decide)
  · have his : (Meaning.rational true (5 : ℕ)).Is (Float.ofInt (-5)) := (ofNat_rounds 5).neg
    exact (hvalue ▸ his).ne_nan

end Nodecraft.Sandbox
