import Mathlib.Data.Nat.Digits.Lemmas
import Nodecraft.Proofs.Number.Fields
import Nodecraft.Proofs.Sandbox.Equality
import Nodecraft.Proofs.Sequence
import Nodecraft.Sandbox.Evaluation.Call

/-!
# Numbers written in other bases

A whole number is written in a base other than ten as the numeral of the nearest number within 64 bits
(`Sandbox.toString_radix`). Numerals are without leading zeros (`IsNumeral`), and each is the numeral of one
number only (`IsNumeral.unique`). So what is written is the numeral of the number itself exactly if that is
within 64 bits.
-/

set_option autoImplicit false

namespace Nodecraft.Number

/-! ### Numerals -/

/-- The digits of all bases up to 36. -/
def digits36 : List Char := "0123456789abcdefghijklmnopqrstuvwxyz".toList

/-- A numeral of a whole number, the first digit first. Zero has a single digit and no sign. -/
inductive IsNumeral (radix : ℕ) (n : ℤ) : List Char → Prop
  | intro {ds : List ℕ} (ne_nil : ds ≠ []) (lt_radix : ∀ d ∈ ds, d < radix)
    (no_leading_zero : ds.head? = some 0 → ds = [0])
    (value : Nat.ofDigits radix ds.reverse = n.natAbs) :
    IsNumeral radix n ((if n < 0 then ['-'] else []) ++ ds.map fun d ↦ digits36.getD d '?')

/-- The digits are those of the written alphabet. -/
theorem digitChar_eq : ∀ d < 36, digitChar d = digits36.getD d '?' := by decide

theorem idxOf_digit : ∀ d < 36, digits36.idxOf (digits36.getD d '?') = d := by decide

theorem digit_ne_minus : ∀ d < 36, digits36.getD d '?' ≠ '-' := by decide

/-- The digits are those of the number, the last of them first. -/
theorem digitsUp_eq {radix : ℕ} (h2 : 2 ≤ radix) (fuel : ℕ) : ∀ {n : ℕ}, n < 2 ^ fuel →
    digitsUp radix fuel n = (Nat.digits radix n).map digitChar := by
  induction fuel with
  | zero =>
    intro n hn
    obtain rfl : n = 0 := by omega
    rw [Nat.digits_zero]
    rfl
  | succ fuel ih =>
    intro n hn
    unfold digitsUp
    rcases Nat.eq_zero_or_pos n with rfl | hpos
    · rw [if_pos rfl, Nat.digits_zero]
      rfl
    · have hrest : n / radix < 2 ^ fuel := by
        have hhalf : n / radix ≤ n / 2 := Nat.div_le_div_left h2 (by decide)
        rw [Nat.pow_succ] at hn
        omega
      rw [if_neg (Nat.ne_of_gt hpos), ih hrest, Nat.digits_def' h2 hpos, List.map_cons]

/-- What is written in a radix is a numeral of that radix. -/
theorem inBase_isNumeral {radix : ℕ} (h2 : 2 ≤ radix) (h36 : radix ≤ 36) (n : ℤ) :
    IsNumeral radix n (inBase radix n).toList := by
  unfold inBase
  split
  · rename_i hzero
    subst hzero
    exact @IsNumeral.intro radix 0 [0] (List.cons_ne_nil 0 []) (by simp; omega) (fun _ ↦ rfl) rfl
  · rename_i hne
    have habs : n.natAbs ≠ 0 := Int.natAbs_ne_zero.2 hne
    have hlt : n.natAbs < 2 ^ (n.natAbs.log2 + 1) := Nat.lt_log2_self
    have hnil : Nat.digits radix n.natAbs ≠ [] := Nat.digits_ne_nil_iff_ne_zero.2 habs
    have hdigits : ∀ d ∈ Nat.digits radix n.natAbs, d < radix := fun d hd ↦
      Nat.digits_lt_base h2 hd
    have htext : signText (decide (n < 0)) ++
        (digitsUp radix (n.natAbs.log2 + 1) n.natAbs).reverse =
        (if n < 0 then ['-'] else []) ++
          (Nat.digits radix n.natAbs).reverse.map fun d ↦ digits36.getD d '?' := by
      rw [digitsUp_eq h2 _ hlt, ← List.map_reverse]
      congr 1
      · unfold signText
        simp
      · refine List.map_congr_left fun d hd ↦ digitChar_eq d ?_
        exact Nat.lt_of_lt_of_le (hdigits d (List.mem_reverse.1 hd)) h36
    rw [String.toList_ofList, htext]
    refine .intro (mt List.reverse_eq_nil_iff.1 hnil) (fun d hd ↦ hdigits d (List.mem_reverse.1 hd)) ?_
      ?_
    · intro hhead
      rw [List.head?_reverse, List.getLast?_eq_getLast_of_ne_nil hnil] at hhead
      exact absurd (Option.some.inj hhead) (Nat.getLast_digit_ne_zero radix habs)
    · rw [List.reverse_reverse, Nat.ofDigits_digits]

section

variable {radix : ℕ} {ds es : List ℕ}

/-- Digits can be read back from their text. -/
theorem digits_of_text (h36 : radix ≤ 36) (hds : ∀ d ∈ ds, d < radix) :
    (ds.map fun d ↦ digits36.getD d '?').map (digits36.idxOf ·) = ds := by
  rw [List.map_map]
  refine (List.map_congr_left fun d hd ↦ ?_).trans (List.map_id ds)
  exact idxOf_digit d (Nat.lt_of_lt_of_le (hds d hd) h36)

/-- Different digits are written differently. -/
theorem eq_of_text_eq (h36 : radix ≤ 36) (hds : ∀ d ∈ ds, d < radix) (hes : ∀ d ∈ es, d < radix)
    (h : (ds.map fun d ↦ digits36.getD d '?') = es.map fun d ↦ digits36.getD d '?') : ds = es := by
  rw [← digits_of_text h36 hds, h, digits_of_text h36 hes]

theorem minus_ne_text (h36 : radix ≤ 36) (hds : ∀ d ∈ ds, d < radix) (rest : List Char) :
    '-' :: rest ≠ ds.map fun d ↦ digits36.getD d '?' := by
  intro h
  cases ds with
  | nil => exact nomatch h
  | cons d _ =>
    exact digit_ne_minus d (Nat.lt_of_lt_of_le (hds d List.mem_cons_self) h36)
      (List.cons.inj h).1.symm

/-- A numeral is the numeral of one number only. -/
theorem IsNumeral.unique (h36 : radix ≤ 36) {m n : ℤ} {text : List Char}
    (hm : IsNumeral radix m text) (hn : IsNumeral radix n text) : m = n := by
  obtain ⟨-, hds, -, hm⟩ := hm
  generalize htext : (if m < 0 then ['-'] else []) ++ List.map _ _ = text at hn
  obtain ⟨-, hes, -, hn⟩ := hn
  rename_i ds es
  by_cases hmneg : m < 0
  · by_cases hnneg : n < 0
    · rw [if_pos hmneg, if_pos hnneg] at htext
      obtain rfl := eq_of_text_eq h36 hds hes (List.cons.inj htext).2
      omega
    · rw [if_pos hmneg, if_neg hnneg] at htext
      exact absurd htext (minus_ne_text h36 hes _)
  · by_cases hnneg : n < 0
    · rw [if_neg hmneg, if_pos hnneg] at htext
      exact absurd htext.symm (minus_ne_text h36 hds _)
    · rw [if_neg hmneg, if_neg hnneg] at htext
      obtain rfl := eq_of_text_eq h36 hds hes htext
      omega

end

end Nodecraft.Number

namespace Nodecraft.Sandbox

open Number

/-! ### Main results -/

/-- The whole number nearest to `n` within 64 bits. -/
def within64 (n : ℤ) : ℤ := max (-2 ^ 63) (min (2 ^ 63 - 1) n)

/-- A whole number is taken as it is as long as it fits into 64 bits. -/
theorem clampTo_of_toRat {x : Float} {v : Exact} {n : ℤ} (hx : decode? x = some v) (hn : v.toRat = n) :
    clampTo (-(Nat.pow 2 63)) (Nat.pow 2 63 - 1) x = within64 n := by
  have htruncate : Number.truncate x = n := by
    unfold Number.truncate
    rw [hx]
    exact (Exact.truncate_of_toRat hn).2
  unfold clampTo isFinite
  rw [isNaN_of_decode? hx, hx, htruncate]
  rfl

/-- The text of a whole number in a radix. -/
theorem toRadix_of_toRat {x : Float} {v : Exact} {n : ℤ} {radix : ℕ} (hx : decode? x = some v)
    (hn : v.toRat = n) (h2 : 2 ≤ radix) (h36 : radix ≤ 36) (h10 : radix ≠ 10) :
    Action.toRadix x radix = pure (.string (inBase radix (within64 n))) := by
  have hintegral : Number.isIntegral x = true := by
    unfold Number.isIntegral
    rw [hx]
    exact (Exact.truncate_of_toRat hn).1
  unfold Action.toRadix
  rw [if_neg (by simp; omega), if_neg (by simp [h10, hintegral]), clampTo_of_toRat hx hn]

/-- With a radix given, that radix is used. -/
theorem numberMethod_toString {x : Float} {args : List Value} (hgiven : argument args 0 ≠ .undefined)
    (w : World) : Action.numberMethod .toString (.number x) args w =
      Action.toRadix x (clampTo 0 (UInt32.size - 1) (w.heap.number (argument args 0))).toNat w := by
  unfold Action.numberMethod
  rw [bind_of_ok (show Action.number (.number x) w = .ok x w from rfl)]
  dsimp only
  cases h : argument args 0 with
  | undefined => exact absurd h hgiven
  | _ => rfl

/-- A number with a whole value, however large, is written in another base than ten as the numeral of the
nearest number within 64 bits. That is the numeral of the number itself exactly if it is within 64 bits. -/
theorem toString_radix (call : Caller) {x : Float} {v : Exact} {n : ℤ} {radix : ℕ} {args : List Value}
    {w : World} (hx : decode? x = some v) (hn : v.toRat = n)
    (hgiven : argument args 0 ≠ .undefined)
    (hradix : (clampTo 0 (UInt32.size - 1) (w.heap.number (argument args 0))).toNat = radix)
    (h2 : 2 ≤ radix) (h36 : radix ≤ 36) (h10 : radix ≠ 10) :
    ∃ text : String,
      Action.native call (.number .toString) (.number x) args w = .ok (.string text) w ∧
      IsNumeral radix (within64 n) text.toList ∧
      (IsNumeral radix n text.toList ↔ -2 ^ 63 ≤ n ∧ n < 2 ^ 63) := by
  have hnumeral := inBase_isNumeral h2 h36 (within64 n)
  refine ⟨inBase radix (within64 n), ?_, hnumeral, fun hn ↦ ?_, fun hrange ↦ ?_⟩
  · change Action.numberMethod .toString (.number x) args w = _
    rw [numberMethod_toString hgiven, hradix, toRadix_of_toRat hx hn h2 h36 h10]
    rfl
  · have := hnumeral.unique h36 hn
    unfold within64 at this
    omega
  · have : within64 n = n := by
      unfold within64
      omega
    rwa [this] at hnumeral ⊢

/-- A world in which nothing has run. -/
def World.fresh : World := ⟨.empty, Run.start .standard .undefined⟩

theorem argument_sixteen : argument [.number 16] 0 ≠ .undefined := by
  intro h
  cases h

theorem radix_sixteen : (clampTo 0 (UInt32.size - 1)
    (World.fresh.heap.number (argument [.number 16] 0))).toNat = 16 := by decide

theorem toString_radix_255 :
    decode? 255 = some ⟨false, 255 * 2 ^ 45, -45⟩ ∧
    Exact.toRat ⟨false, 255 * 2 ^ 45, -45⟩ = (255 : ℤ) ∧
    ∃ text : String, Action.native Action.call (.number .toString) (.number 255) [.number 16] .fresh =
      .ok (.string text) .fresh ∧ IsNumeral 16 255 text.toList := by
  have hx : decode? 255 = some ⟨false, 255 * 2 ^ 45, -45⟩ := by decide
  have hn : Exact.toRat ⟨false, 255 * 2 ^ 45, -45⟩ = (255 : ℤ) := by
    norm_num [Exact.toRat, Exact.magnitude]
  obtain ⟨text, htext, -, hiff⟩ := toString_radix Action.call hx hn argument_sixteen
    radix_sixteen (by decide) (by decide) (by decide)
  exact ⟨hx, hn, text, htext, hiff.2 ⟨by decide, by decide⟩⟩

/-- The first number beyond 64 bits is written as the last one within. -/
theorem toString_radix_beyond :
    decode? 9223372036854775808 = some ⟨false, 2 ^ 52, 11⟩ ∧
    Exact.toRat ⟨false, 2 ^ 52, 11⟩ = (2 ^ 63 : ℤ) ∧
    Action.native Action.call (.number .toString) (.number 9223372036854775808) [.number 16] .fresh =
      .ok (.string "7fffffffffffffff") .fresh ∧
    ¬IsNumeral 16 (2 ^ 63) "7fffffffffffffff".toList := by
  have hx : decode? 9223372036854775808 = some ⟨false, 2 ^ 52, 11⟩ := by decide
  have hn : Exact.toRat ⟨false, 2 ^ 52, 11⟩ = (2 ^ 63 : ℤ) := by
    norm_num [Exact.toRat, Exact.magnitude]
  have htext : (inBase 16 (2 ^ 63 - 1)).toList = "7fffffffffffffff".toList := by decide
  have hnumeral := inBase_isNumeral (by decide : 2 ≤ 16) (by decide) (2 ^ 63 - 1)
  rw [htext] at hnumeral
  refine ⟨hx, hn, ?_, fun h ↦ absurd (hnumeral.unique (by decide) h) (by decide)⟩
  change Action.numberMethod .toString (.number 9223372036854775808) [.number 16] .fresh = _
  rw [numberMethod_toString argument_sixteen, radix_sixteen,
    toRadix_of_toRat hx hn (by decide) (by decide) (by decide)]
  exact congrArg (fun text ↦ EStateM.Result.ok (Value.string text) World.fresh)
    (String.toList_inj.1 htext)

end Nodecraft.Sandbox
