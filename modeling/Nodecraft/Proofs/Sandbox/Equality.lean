import Nodecraft.Proofs.Number.Fields
import Nodecraft.Proofs.View.Entries
import Nodecraft.Sandbox.Conversion

/-!
# Values that equal themselves

Numbers are equal if they are the same but for the sign of a zero, and NaN equals no number
(`Number.beq_iff`). So strict equality is transitive, and NaN is the only value that it does not hold of
with itself (`Sandbox.Value.strictEquals_self_iff`). A document has no NaN in it, and is the same as itself
(`Sandbox.Heap.document_same`).
-/

set_option autoImplicit false

namespace Nodecraft.Number

open Float.Model Float.Model.UnpackedFloat

/-- A number without the sign of a zero. -/
def unsignedZero : UnpackedFloat → UnpackedFloat
  | .zero _ => .zero .positive
  | x => x

theorem compare_sign_iff {s t : Sign} : compare s t = .eq ↔ s = t := by
  cases s with
  | negative =>
    cases t with
    | negative => exact ⟨fun _ ↦ rfl, fun _ ↦ rfl⟩
    | positive => exact ⟨fun h ↦ (nomatch h), fun h ↦ (nomatch h)⟩
  | positive =>
    cases t with
    | negative => exact ⟨fun h ↦ (nomatch h), fun h ↦ (nomatch h)⟩
    | positive => exact ⟨fun _ ↦ rfl, fun _ ↦ rfl⟩

theorem compare_magnitude_iff {m n : Nat} {e f : Int} :
    (compare e f).then (compare m n) = .eq ↔ e = f ∧ m = n := by
  rw [Ordering.then_eq_eq, Int.compare_eq_eq, Nat.compare_eq_eq]

/-- Unpacked numbers are in their lowest terms, so those that are equal are the same. -/
theorem compare_finite_iff {s t : Sign} {m n : Nat} {e f : Int} {hm : 0 < m} {hn : 0 < n} :
    (UnpackedFloat.finite s m e hm).compare (.finite t n f hn) = some .eq ↔
      UnpackedFloat.finite s m e hm = .finite t n f hn := by
  rw [UnpackedFloat.finite.injEq]
  cases s with
  | negative =>
    cases t with
    | negative =>
      change some ((compare e f).then (compare m n)).swap = some .eq ↔ _
      rw [Option.some.injEq, Ordering.swap_eq_eq, compare_magnitude_iff]
      exact ⟨fun h ↦ ⟨rfl, h.2, h.1⟩, fun h ↦ ⟨h.2.2, h.2.1⟩⟩
    | positive => exact ⟨fun h ↦ (nomatch h), fun h ↦ (nomatch h.1)⟩
  | positive =>
    cases t with
    | negative => exact ⟨fun h ↦ (nomatch h), fun h ↦ (nomatch h.1)⟩
    | positive =>
      change some ((compare e f).then (compare m n)) = some .eq ↔ _
      rw [Option.some.injEq, compare_magnitude_iff]
      exact ⟨fun h ↦ ⟨rfl, h.2, h.1⟩, fun h ↦ ⟨h.2.2, h.2.1⟩⟩

/-- Numbers are equal if they are the same up to the sign of zero, and none of them is the one that is
no number. -/
theorem compare_eq_iff {a b : UnpackedFloat} :
    a.compare b = some .eq ↔ a.isNaN = false ∧ unsignedZero a = unsignedZero b := by
  cases a with
  | notANumber => exact ⟨fun h ↦ (nomatch h), fun h ↦ (nomatch h.1)⟩
  | infinity s =>
    cases b with
    | infinity t =>
      change some (compare s t) = some .eq ↔ false = false ∧ UnpackedFloat.infinity s = .infinity t
      rw [Option.some.injEq, compare_sign_iff, UnpackedFloat.infinity.injEq]
      exact ⟨fun h ↦ ⟨rfl, h⟩, fun h ↦ h.2⟩
    | _ => cases s <;> exact ⟨fun h ↦ (nomatch h), fun h ↦ (nomatch h.2)⟩
  | zero s =>
    cases b with
    | zero t => exact ⟨fun _ ↦ ⟨rfl, rfl⟩, fun _ ↦ rfl⟩
    | infinity t => cases t <;> exact ⟨fun h ↦ (nomatch h), fun h ↦ (nomatch h.2)⟩
    | notANumber => exact ⟨fun h ↦ (nomatch h), fun h ↦ (nomatch h.2)⟩
    | finite t n f hn => cases t <;> exact ⟨fun h ↦ (nomatch h), fun h ↦ (nomatch h.2)⟩
  | finite s m e hm =>
    cases b with
    | finite t n f hn =>
      exact compare_finite_iff.trans ⟨fun h ↦ ⟨rfl, h⟩, fun h ↦ h.2⟩
    | infinity t => cases s <;> cases t <;> exact ⟨fun h ↦ (nomatch h), fun h ↦ (nomatch h.2)⟩
    | notANumber => exact ⟨fun h ↦ (nomatch h), fun h ↦ (nomatch h.2)⟩
    | zero t => cases s <;> exact ⟨fun h ↦ (nomatch h), fun h ↦ (nomatch h.2)⟩

/-- The same of the machine's numbers. -/
theorem beq_iff {x y : Float} :
    (x == y) = true ↔ x.isNaN = false ∧
      unsignedZero x.toModel.unpack = unsignedZero y.toModel.unpack := by
  change (x.toModel.unpack.compare y.toModel.unpack == some .eq) = true ↔ _
  rw [beq_iff_eq, compare_eq_iff]
  rfl

/-- A number is equal to itself unless it is none. -/
theorem beq_self_iff {x : Float} : (x == x) = true ↔ x.isNaN = false :=
  beq_iff.trans ⟨fun h ↦ h.1, fun h ↦ ⟨h, rfl⟩⟩

theorem beq_trans {x y z : Float} (hxy : (x == y) = true) (hyz : (y == z) = true) :
    (x == z) = true :=
  beq_iff.2 ⟨(beq_iff.1 hxy).1, (beq_iff.1 hxy).2.trans (beq_iff.1 hyz).2⟩

/-- What has an exact value is a number. -/
theorem isNaN_of_decode? {x : Float} {v : Exact} (h : decode? x = some v) : x.isNaN = false := by
  rw [Bool.eq_false_iff]
  intro hnan
  rw [decode?_eq, exactOf?_of_isNaN hnan] at h
  exact nomatch h

end Nodecraft.Number

namespace Nodecraft.Json

/-- Equality of numerals is transitive. -/
theorem Numeral.beq_trans {a b c : Numeral} (hab : (a == b) = true) (hbc : (b == c) = true) :
    (a == c) = true := by
  cases a with
  | whole m =>
    cases b with
    | whole n => exact eq_of_beq (α := Int) hab ▸ hbc
    | real y => exact nomatch hab
  | real x =>
    cases b with
    | whole n => exact nomatch hab
    | real y =>
      cases c with
      | whole k => exact nomatch hbc
      | real z => exact Number.beq_trans hab hbc

mutual

/-- Equality of documents is transitive, by recursion over the second. -/
theorem same_trans : ∀ {a b c : Json}, a.same b = true → b.same c = true → a.same c = true
  | .null, b, c, hab, hbc => by
    cases b with
    | null => exact hbc
    | _ => exact nomatch hab
  | .bool p, b, c, hab, hbc => by
    cases b with
    | bool q => exact eq_of_beq (α := Bool) hab ▸ hbc
    | _ => exact nomatch hab
  | .number m, b, c, hab, hbc => by
    cases b with
    | number n =>
      cases c with
      | number k => exact Numeral.beq_trans hab hbc
      | _ => exact nomatch hbc
    | _ => exact nomatch hab
  | .string s, b, c, hab, hbc => by
    cases b with
    | string t => exact eq_of_beq (α := String) hab ▸ hbc
    | _ => exact nomatch hab
  | .array items, b, c, hab, hbc => by
    cases b with
    | array others =>
      cases c with
      | array third => exact sameItems_trans hab hbc
      | _ => exact nomatch hbc
    | _ => exact nomatch hab
  | .object fields, b, c, hab, hbc => by
    cases b with
    | object others =>
      cases c with
      | object third => exact sameFields_trans hab hbc
      | _ => exact nomatch hbc
    | _ => exact nomatch hab

theorem sameItems_trans : ∀ {as bs cs : List Json}, sameItems as bs = true →
    sameItems bs cs = true → sameItems as cs = true
  | [], bs, cs, hab, hbc => by
    cases bs with
    | nil => exact hbc
    | cons b bs => exact nomatch hab
  | a :: as, bs, cs, hab, hbc => by
    cases bs with
    | nil => exact nomatch hab
    | cons b bs =>
      cases cs with
      | nil => exact nomatch hbc
      | cons c cs =>
        obtain ⟨hab, habs⟩ := Bool.and_eq_true_iff.1 hab
        obtain ⟨hbc, hbcs⟩ := Bool.and_eq_true_iff.1 hbc
        exact Bool.and_eq_true_iff.2 ⟨same_trans hab hbc, sameItems_trans habs hbcs⟩

theorem sameFields_trans : ∀ {as bs cs : List (String × Json)}, sameFields as bs = true →
    sameFields bs cs = true → sameFields as cs = true
  | [], bs, cs, hab, hbc => by
    cases bs with
    | nil => exact hbc
    | cons b bs => exact nomatch hab
  | (k, a) :: as, bs, cs, hab, hbc => by
    cases bs with
    | nil => exact nomatch hab
    | cons b bs =>
      cases cs with
      | nil => exact nomatch hbc
      | cons c cs =>
        obtain ⟨l, b⟩ := b
        obtain ⟨m, c⟩ := c
        obtain ⟨hab, habs⟩ := Bool.and_eq_true_iff.1 hab
        obtain ⟨hbc, hbcs⟩ := Bool.and_eq_true_iff.1 hbc
        obtain ⟨hkl, hab⟩ := Bool.and_eq_true_iff.1 hab
        obtain ⟨hlm, hbc⟩ := Bool.and_eq_true_iff.1 hbc
        exact Bool.and_eq_true_iff.2 ⟨Bool.and_eq_true_iff.2
          ⟨eq_of_beq (α := String) hkl ▸ hlm, same_trans hab hbc⟩, sameFields_trans habs hbcs⟩

end

theorem beq_trans {a b c : Json} (hab : (a == b) = true) (hbc : (b == c) = true) : (a == c) = true :=
  same_trans hab hbc

theorem sameItems_self : ∀ {items : List Json}, (∀ j ∈ items, j.same j = true) →
    sameItems items items = true
  | [], _ => rfl
  | _ :: _, h => Bool.and_eq_true_iff.2
    ⟨h _ List.mem_cons_self, sameItems_self fun j hj ↦ h j (List.mem_cons_of_mem _ hj)⟩

theorem sameFields_self : ∀ {fields : List (String × Json)},
    (∀ f ∈ fields, f.2.same f.2 = true) → sameFields fields fields = true
  | [], _ => rfl
  | f :: _, h => Bool.and_eq_true_iff.2 ⟨Bool.and_eq_true_iff.2
      ⟨beq_self_eq_true f.1, h f List.mem_cons_self⟩,
    sameFields_self fun f hf ↦ h f (List.mem_cons_of_mem _ hf)⟩

end Nodecraft.Json

namespace Nodecraft.Sandbox

/-- What is written for a number is equal to itself, since what is no number is written as `null`. -/
theorem numberDocument_same (x : Float) : (numberDocument x).same (numberDocument x) = true := by
  unfold numberDocument
  split
  · rfl
  · rename_i v hv
    split
    · exact beq_self_eq_true (α := Int) v.truncate
    · exact Number.beq_self_iff.2 (Number.isNaN_of_decode? hv)

namespace Heap

variable (h : Heap)

/-- The document of a value is equal to itself. -/
theorem documentWithin_same (room : Nat) : ∀ (opened : List OpenCell) (v : Value),
    (h.documentWithin room opened v).same (h.documentWithin room opened v) = true := by
  induction room with
  | zero =>
    intro opened v
    cases v with
    | bool b => exact beq_self_eq_true b
    | number x => exact numberDocument_same x
    | string s => exact beq_self_eq_true s
    | _ => rfl
  | succ room ih =>
    intro opened v
    cases v with
    | bool b => exact beq_self_eq_true b
    | number x => exact numberDocument_same x
    | string s => exact beq_self_eq_true s
    | array a =>
      rw [documentWithin]
      split
      · rfl
      · refine Json.sameItems_self fun j hj ↦ ?_
        obtain ⟨v, -, rfl⟩ := List.mem_map.1 hj
        exact ih _ v
    | object o =>
      rw [documentWithin]
      split
      · rfl
      · dsimp only
        split
        · exact ih _ _
        · refine Json.sameFields_self fun f hf ↦ ?_
          obtain ⟨g, -, rfl⟩ := List.mem_map.1 (Json.mem_of_mem_sortFields _ f hf)
          exact ih _ g.2
    | _ => rfl

/-- Documents have no NaN in them. -/
theorem document_same (v : Value) : (h.document v == h.document v) = true :=
  h.documentWithin_same maxValueDepth [] v

end Heap

namespace Value

/-- The number that is none. -/
def isNaN : Value → Bool
  | .number x => x.isNaN
  | _ => false

/-- A value is strictly equal to itself unless it is no number. -/
theorem strictEquals_self_iff {v : Value} : v.strictEquals v = true ↔ v.isNaN = false := by
  cases v with
  | number x => exact Number.beq_self_iff
  | undefined => exact ⟨fun _ ↦ rfl, fun _ ↦ rfl⟩
  | null => exact ⟨fun _ ↦ rfl, fun _ ↦ rfl⟩
  | _ => exact ⟨fun _ ↦ rfl, fun _ ↦ beq_self_eq_true _⟩

/-- Strictly equal values are the same, or equal numbers. -/
theorem eq_of_strictEquals {a b : Value} (h : a.strictEquals b = true) :
    a = b ∨ ∃ x y, a = .number x ∧ b = .number y ∧ (x == y) = true := by
  cases a with
  | number x =>
    cases b with
    | number y => exact .inr ⟨x, y, rfl, rfl, h⟩
    | _ => exact nomatch h
  | undefined => cases b with
    | undefined => exact .inl rfl
    | _ => exact nomatch h
  | null => cases b with
    | null => exact .inl rfl
    | _ => exact nomatch h
  | bool p => cases b with
    | bool q => exact .inl (congrArg Value.bool (eq_of_beq h))
    | _ => exact nomatch h
  | string s => cases b with
    | string t => exact .inl (congrArg Value.string (eq_of_beq h))
    | _ => exact nomatch h
  | array i => cases b with
    | array j => exact .inl (congrArg Value.array (eq_of_beq h))
    | _ => exact nomatch h
  | object i => cases b with
    | object j => exact .inl (congrArg Value.object (eq_of_beq h))
    | _ => exact nomatch h
  | function i => cases b with
    | function j => exact .inl (congrArg Value.function (eq_of_beq h))
    | _ => exact nomatch h

/-- Strict equality is transitive. -/
theorem strictEquals_trans {a b c : Value} (hab : a.strictEquals b = true)
    (hbc : b.strictEquals c = true) : a.strictEquals c = true := by
  obtain rfl | ⟨x, y, rfl, rfl, hxy⟩ := eq_of_strictEquals hab
  · exact hbc
  · obtain rfl | ⟨y', z, hy, rfl, hyz⟩ := eq_of_strictEquals hbc
    · exact hab
    · obtain rfl := Value.number.inj hy
      exact Number.beq_trans hxy hyz

/-- Strict equality tells no value from itself but NaN. -/
theorem isNaN_of_strictEquals {a b : Value} (h : a.strictEquals b = true) : a.isNaN = false := by
  obtain rfl | ⟨x, y, rfl, rfl, hxy⟩ := eq_of_strictEquals h
  · exact strictEquals_self_iff.1 h
  · exact (Number.beq_iff.1 hxy).1

end Value

end Nodecraft.Sandbox
