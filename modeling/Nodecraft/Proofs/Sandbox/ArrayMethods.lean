import Mathlib.Data.Nat.Find
import Nodecraft.Proofs.Sandbox.Overlap

/-!
# Methods of arrays come to an end of their own

A method of an array returns a value or an error of the script, whatever the array and the
arguments hold, unless a function it calls back is broken off. The one exception is `splice` with a
count that is written through the spliced array: the array itself, or an array with a way to it
through items of arrays and payloads of refs (`Heap.ComesTo`) that writing a value as text goes.
`array_method_returns` states this for all methods, together with the ranges that `splice` and
`slice` cut out, which lie within the array.

That a value is not written through an array means what it says: its text is then the same whatever
the array holds (`Heap.textWithin_modifyArray`).
-/

set_option autoImplicit false

namespace Nodecraft.Sandbox

/-! ### What writing a value as text comes to -/

/-- The values that a value is written by: the items of an array, and the payload of a ref. -/
def Heap.WrittenBy (h : Heap) (v u : Value) : Prop :=
  match v with
  | .array a => u ∈ (h.array a).toList
  | .object o =>
    match (h.object o).kind with
    | .ref => u = (h.own? o "value").getD .undefined
    | _ => False
  | _ => False

/-- Writing a value comes to an array after so many steps from a cell to one in it. -/
def Heap.ComesTo (h : Heap) (target : ArrayId) : Nat → Value → Prop
  | 0, v => v = .array target
  | n + 1, v => ∃ u, h.WrittenBy v u ∧ h.ComesTo target n u

def OpenCell.value : OpenCell → Value
  | .array a => .array a
  | .object o => .object o

namespace Heap

variable {h : Heap} {target : ArrayId}

/-- If the text of a value is made from an array, there is a path of items to it. -/
theorem comesTo_of_textReads {room : Nat} : ∀ {opened : List OpenCell} {v : Value},
    h.textReads target room opened v = true → ∃ n < room, h.ComesTo target n v := by
  induction room with
  | zero => exact fun hreads ↦ nomatch hreads
  | succ room ih =>
    intro opened v hreads
    cases v with
    | array a =>
      rw [textReads] at hreads
      split at hreads
      · exact nomatch hreads
      rcases Bool.or_eq_true_iff.1 hreads with heq | hany
      · exact ⟨0, Nat.succ_pos room, congrArg Value.array (beq_iff_eq.1 heq)⟩
      · obtain ⟨u, hu, hreads⟩ := List.any_eq_true.1 hany
        obtain ⟨n, hn, hcomes⟩ := ih hreads
        exact ⟨n + 1, Nat.succ_lt_succ hn, u, hu, hcomes⟩
    | object o =>
      rw [textReads] at hreads
      split at hreads
      next hkind =>
        split at hreads
        · exact nomatch hreads
        obtain ⟨n, hn, hcomes⟩ := ih hreads
        refine ⟨n + 1, Nat.succ_lt_succ hn, _, ?_, hcomes⟩
        simp only [WrittenBy, hkind]
      · exact nomatch hreads
    | _ => exact nomatch hreads

/-- On a shortest way to the array no cell comes twice, so that none on it is open already. -/
theorem textReads_of_comesTo {n : Nat} : ∀ {room : Nat} {opened : List OpenCell} {v : Value},
    h.ComesTo target n v → (∀ m < n, ¬h.ComesTo target m v) → n < room →
    (∀ c ∈ opened, ∀ m ≤ n, ¬h.ComesTo target m c.value) →
    h.textReads target room opened v = true := by
  induction n with
  | zero =>
    rintro room opened _ rfl - hroom hopened
    obtain ⟨room, rfl⟩ : ∃ r, room = r + 1 := ⟨room - 1, by omega⟩
    have hclosed : ¬opened.contains (.array target) = true := fun hmem ↦
      hopened _ (List.contains_iff_mem.1 hmem) 0 (Nat.le_refl 0) rfl
    rw [textReads, if_neg hclosed, beq_self_eq_true, Bool.true_or]
  | succ n ih =>
    rintro room opened v ⟨u, hu, hcomes⟩ hmin hroom hopened
    obtain ⟨room, rfl⟩ : ∃ r, room = r + 1 := ⟨room - 1, by omega⟩
    have hclosed {c : OpenCell} (hc : c.value = v) : ¬opened.contains c = true := fun hmem ↦
      hopened c (List.contains_iff_mem.1 hmem) (n + 1) (Nat.le_refl _) (hc ▸ ⟨u, hu, hcomes⟩)
    have hbelow {c : OpenCell} (hc : c.value = v) :
        h.textReads target room (c :: opened) u = true := by
      refine ih hcomes (fun m hm hless ↦ hmin (m + 1) (Nat.succ_lt_succ hm) ⟨u, hu, hless⟩)
        (Nat.lt_of_succ_lt_succ hroom) fun d hd m hm hless ↦ ?_
      rcases List.mem_cons.1 hd with rfl | hd
      · exact hmin m (Nat.lt_succ_of_le hm) (hc ▸ hless)
      · exact hopened d hd m (Nat.le_succ_of_le hm) hless
    cases v with
    | array a =>
      rw [textReads, if_neg (hclosed (c := .array a) rfl)]
      exact Bool.or_eq_true_iff.2
        (.inr (List.any_eq_true.2 ⟨u, hu, hbelow (c := .array a) rfl⟩))
    | object o =>
      simp only [WrittenBy] at hu
      split at hu
      next hkind =>
        subst hu
        rw [textReads]
        simp only [hkind, if_neg (hclosed (c := .object o) rfl)]
        exact hbelow (c := .object o) rfl
      · exact hu.elim
    | _ => exact hu.elim

/-- Writing a value reads an array exactly if it comes to it before it is too deep. -/
theorem textReads_iff {room : Nat} {v : Value} :
    h.textReads target room [] v = true ↔ ∃ n < room, h.ComesTo target n v := by
  refine ⟨comesTo_of_textReads, fun ⟨n, hn, hcomes⟩ ↦ ?_⟩
  classical
  have hex : ∃ n, h.ComesTo target n v := ⟨n, hcomes⟩
  exact textReads_of_comesTo (Nat.find_spec hex) (fun _ hm ↦ Nat.find_min hex hm)
    (Nat.lt_of_le_of_lt (Nat.find_min' hex hcomes) hn) fun c hc ↦ nomatch hc

/-- Reading a value as a number writes it if it is an array, and reads no array otherwise. -/
theorem numberReads_iff {v : Value} : h.numberReads target v = true ↔
    ∃ b, v = .array b ∧ ∃ n < maxValueDepth, h.ComesTo target n v := by
  cases v with
  | array b =>
    refine textReads_iff.trans ⟨fun hcomes ↦ ⟨b, rfl, hcomes⟩, ?_⟩
    rintro ⟨_, -, hcomes⟩
    exact hcomes
  | _ =>
    constructor
    · exact fun hreads ↦ nomatch hreads
    · rintro ⟨_, heq, -⟩
      exact nomatch heq

/-! ### What is not read does not matter -/

section

variable (f : Array Value → Array Value)

/-- Other arrays are not changed. -/
theorem array_modifyArray_of_ne {a : ArrayId} (hne : a ≠ target) :
    (h.modifyArray target f).array a = h.array a := by
  have hindex : target.index ≠ a.index := fun heq ↦ hne (by cases a; cases target; simp_all)
  simp [array, modifyArray, Array.getD, Array.getElem_modify, hindex]

theorem functionName_modifyArray (g : FunctionId) :
    (h.modifyArray target f).functionName g = h.functionName g := by
  have hwithin (fuel : Nat) : ∀ g, (h.modifyArray target f).functionNameWithin fuel g =
      h.functionNameWithin fuel g := by
    induction fuel with
    | zero => exact fun _ ↦ rfl
    | succ fuel ih =>
      intro g
      have hsame : (h.modifyArray target f).function g = h.function g := rfl
      rw [functionNameWithin, functionNameWithin, hsame]
      split
      · rfl
      · rfl
      · exact ih _
  exact hwithin _ g

/-- The text of a value that is not written through an array does not depend on what the array
holds. -/
theorem textWithin_modifyArray {room : Nat} : ∀ {opened : List OpenCell} {v : Value},
    h.textReads target room opened v = false →
    (h.modifyArray target f).textWithin room opened v = h.textWithin room opened v := by
  have hobject (o : ObjectId) : (h.modifyArray target f).object o = h.object o := rfl
  induction room with
  | zero =>
    intro opened v _
    cases v with
    | object o => rw [textWithin, textWithin, hobject]
    | function g => rw [textWithin, textWithin, functionName_modifyArray]
    | _ => simp only [textWithin]
  | succ room ih =>
    intro opened v hreads
    cases v with
    | array a =>
      rw [textWithin, textWithin]
      rw [textReads] at hreads
      split at hreads
      next hopen => rw [if_pos hopen, if_pos hopen]
      next hclosed =>
        obtain ⟨hne, hitems⟩ := Bool.or_eq_false_iff.1 hreads
        rw [if_neg hclosed, if_neg hclosed, array_modifyArray_of_ne f (by simpa using hne)]
        refine congrArg _ (List.map_congr_left fun u hu ↦ ?_)
        have hu : h.textReads target room (.array a :: opened) u = false :=
          Bool.eq_false_iff.2 (List.any_eq_false.1 hitems u hu)
        rw [ih hu]
    | object o =>
      rw [textWithin, textWithin, hobject]
      rw [textReads] at hreads
      cases hkind : (h.object o).kind with
      | ref =>
        simp only [hkind] at hreads ⊢
        split at hreads
        next hopen => rw [if_pos hopen, if_pos hopen]
        next hclosed =>
          rw [if_neg hclosed, if_neg hclosed]
          exact ih hreads
      | _ => rfl
    | function g => rw [textWithin, textWithin, functionName_modifyArray]
    | _ => simp only [textWithin]

/-- A number that is not read from the array does not depend on it. -/
theorem number_modifyArray {v : Value} (hreads : ¬h.numberReads target v = true) :
    (h.modifyArray target f).number v = h.number v := by
  cases v with
  | array b =>
    exact congrArg Number.ofText (textWithin_modifyArray f (Bool.eq_false_iff.2 hreads))
  | _ => rfl

end

end Heap

/-! ### Ranges -/

/-- A relative index lies within the array. -/
theorem relativeIndex_le (h : Heap) (v : Value) {length default : Nat} (hle : default ≤ length) :
    relativeIndex h v length default ≤ length := by
  have hindex (n : Int) :
      (if n < 0 then (length + n).toNat else min n.toNat length) ≤ length := by
    split <;> omega
  cases v with
  | undefined => exact hle
  | _ => exact hindex _

/-- No more is deleted than there is. -/
theorem Action.deleteCount_le (h : Heap) (count : Option Value) (available : Nat) :
    Action.deleteCount h count available ≤ available := by
  cases count with
  | none => exact Nat.le_refl _
  | some v => exact Nat.min_le_right _ _

/-! ### Methods -/

/-- The methods that call a function they are handed. -/
def ArrayMethod.callsBack : ArrayMethod → Bool
  | .forEach | .map | .filter | .find | .findIndex | .some | .every | .reduce | .sort => true
  | _ => false

/-- A call that fails so. -/
def Caller.FailsWith (call : Caller) (e : Failure) : Prop :=
  ∃ f self args w w', call f self args w = .error e w'

/-- The action ends with a value, an error of the script or a failure of some kind. -/
def Action.SettlesUnless (kind : Failure → Prop) {α : Type} (x : Action α) : Prop :=
  ∀ w, Settled (x w) ∨ EndsWith kind (x w)

namespace Action.SettlesUnless

variable {kind : Failure → Prop} {α β : Type}

/-- One after the other, both settle unless one fails in that way. -/
theorem bind {x : Action α} {f : α → Action β} (hx : x.SettlesUnless kind)
    (hf : ∀ a, (f a).SettlesUnless kind) : (x >>= f).SettlesUnless kind := by
  intro w
  have hw := hx w
  rw [Action.bind_apply]
  cases h : x w with
  | ok a w' => exact hf a w'
  | error e w' =>
    rw [h] at hw
    cases e with
    | raised s => exact .inl trivial
    | _ => exact .inr (hw.resolve_left id).error

theorem of_neutral {x : Action α} (hx : x.Neutral fun _ ↦ True) : x.SettlesUnless kind := by
  intro w
  cases h : x w with
  | ok a w' => exact .inl trivial
  | error e w' =>
    obtain ⟨s, rfl, -⟩ := hx.failure h
    exact .inl trivial

theorem entering {x : Action α} (hx : x.SettlesUnless kind) :
    (Action.entering x).SettlesUnless kind := by
  intro w
  rw [Action.entering_apply, settled_mapWorld, endsWith_mapWorld]
  exact hx w.enter

/-- A handler settles unless it fails in that way itself. -/
theorem catching {x : Action α} {f : ScriptError → Action α} (hx : x.SettlesUnless kind)
    (hf : ∀ e, e.isCatchable = true → (f e).SettlesUnless kind) :
    (Action.catching x f).SettlesUnless kind := by
  intro w
  by_cases hc : Catchable (x w)
  · obtain ⟨e, w', h, he⟩ := hc
    rw [Action.catching_of_catchable h he]
    exact hf e he w'
  · rw [Action.catching_of_not hc]
    exact hx w

end Action.SettlesUnless

/-- The rule for every part of the syntax and every method. -/
theorem Congruence.settlesUnless (kind : Failure → Prop) :
    Congruence (fun _ x _ ↦ x.SettlesUnless kind) fun _ ↦ True :=
  .ofNeutral .of_neutral .bind .entering .catching

namespace Action

/-- Other methods than `splice` are broken off only by the functions that they call back. -/
theorem arrayMethod_settlesUnless (call : Caller) {m : ArrayMethod} (hm : m ≠ .splice)
    (self : Value) (args : List Value) :
    (arrayMethod call m self args).SettlesUnless call.FailsWith := by
  have hcall : Caller.Related (fun _ x _ ↦ x.SettlesUnless call.FailsWith) call call := by
    intro f self args w
    cases h : call f self args w with
    | ok v w' => exact .inl trivial
    | error e w' => exact .inr (endsWith_error.2 ⟨f, self, args, w, w', h⟩)
  exact (Congruence.settlesUnless _).arrayMethod hcall m hm self args

/-- Without callbacks it does not matter how calls end. -/
theorem arrayMethod_of_not_callsBack (call call' : Caller) {m : ArrayMethod}
    (hm : m.callsBack = false) (self : Value) (args : List Value) :
    arrayMethod call m self args = arrayMethod call' m self args := by
  cases m with
  | forEach | map | filter | find | findIndex | some | every | reduce | sort => exact nomatch hm
  | _ => rfl

end Action

/-- One of the two counts of `splice` is written through the spliced array. -/
def Heap.CountsThrough (h : Heap) (self : Value) (args : List Value) : Prop :=
  ∃ a, self = .array a ∧ ∃ b, .array b ∈ args.take 2 ∧
    ∃ n < maxValueDepth, h.ComesTo a n (.array b)

/-- The counts read the array if one of the first two arguments does. -/
theorem Heap.countsThrough_iff {h : Heap} {a : ArrayId} {args : List Value} :
    h.CountsThrough (.array a) args ↔ (args.take 2).any (h.numberReads a) = true := by
  rw [List.any_eq_true]
  constructor
  · rintro ⟨_, heq, b, hb, hcomes⟩
    cases heq
    exact ⟨_, hb, numberReads_iff.2 ⟨b, rfl, hcomes⟩⟩
  · rintro ⟨v, hv, hreads⟩
    obtain ⟨b, rfl, hcomes⟩ := numberReads_iff.1 hreads
    exact ⟨a, rfl, b, hv, hcomes⟩

/-- Splicing settles exactly if its counts are not read from the array itself. -/
theorem Action.settled_splice_iff (call : Caller) (self : Value) (args : List Value) (w : World) :
    Settled (Action.arrayMethod call .splice self args w) ↔ ¬w.heap.CountsThrough self args := by
  cases self with
  | array a =>
    change Settled (Action.splice a args w) ↔ _
    rw [Heap.countsThrough_iff]
    by_cases hreads : (args.take 2).any (w.heap.numberReads a) = true
    · rw [Action.splice_of_overlap hreads]
      exact iff_of_false id fun hnot ↦ hnot hreads
    · obtain ⟨v, w', hok⟩ := Action.splice_of_not hreads
      rw [hok]
      exact iff_of_true trivial hreads
  | _ =>
    refine iff_of_true trivial ?_
    rintro ⟨a, heq, -⟩
    exact nomatch heq

/-- A method of an array ends with a value or an error of the script, or as a function does that it
calls back, unless it is `splice` and counts through its array. A conversion that comes to no array
gives the same whatever the array holds, and what `splice` and `slice` cut out lies within the
array. -/
theorem array_method_returns (call : Caller) (m : ArrayMethod) (self : Value) (args : List Value)
    (w : World) :
    ((Settled (Action.arrayMethod call m self args w) ∨
        m.callsBack = true ∧
          EndsWith call.FailsWith (Action.arrayMethod call m self args w)) ↔
      ¬(m = .splice ∧ w.heap.CountsThrough self args)) ∧
    (∀ a v f, (¬∃ n < maxValueDepth, w.heap.ComesTo a n v) →
      (w.heap.modifyArray a f).number v = w.heap.number v ∧
        (w.heap.modifyArray a f).text v = w.heap.text v) ∧
    (∀ length,
      let start := relativeIndex w.heap (argument args 0) length 0
      start + Action.deleteCount w.heap args[1]? (length - start) ≤ length ∧
        start ≤ length ∧ relativeIndex w.heap (argument args 1) length length ≤ length) := by
  refine ⟨?_, fun a v f hnot ↦ ⟨?_, ?_⟩, fun length ↦ ?_⟩
  · by_cases hm : m = .splice
    · subst hm
      rw [Action.settled_splice_iff call self args w]
      simp only [ArrayMethod.callsBack, Bool.false_eq_true, false_and, or_false, true_and]
    · refine iff_of_true ?_ fun hnot ↦ hm hnot.1
      cases hback : m.callsBack with
      | true =>
        exact (Action.arrayMethod_settlesUnless call hm self args w).imp_right fun h ↦ ⟨rfl, h⟩
      | false =>
        -- calls that all end make no difference to a method that makes none
        have hsettles := Action.arrayMethod_settlesUnless (fun _ _ _ ↦ pure .undefined) hm self args
        rw [Action.arrayMethod_of_not_callsBack call (fun _ _ _ ↦ pure .undefined) hback]
        refine .inl ((hsettles w).resolve_right ?_)
        rintro ⟨e, w', -, f, self', args', w₁, w₂, hcall⟩
        exact nomatch hcall
  · refine Heap.number_modifyArray f fun hreads ↦ hnot ?_
    obtain ⟨b, rfl, hcomes⟩ := Heap.numberReads_iff.1 hreads
    exact hcomes
  · exact Heap.textWithin_modifyArray f (Bool.eq_false_iff.2 fun h ↦ hnot (Heap.textReads_iff.1 h))
  · have hstart := relativeIndex_le w.heap (argument args 0) (Nat.zero_le length)
    have hcount := Action.deleteCount_le w.heap args[1]?
      (length - relativeIndex w.heap (argument args 0) length 0)
    exact ⟨by omega, hstart, relativeIndex_le w.heap (argument args 1) (Nat.le_refl length)⟩

/-- Splicing an empty array with a count that holds the array fails, where slicing it does not. -/
theorem heldCount_overlaps :
    let heap := ((Heap.empty.newArray #[]).2.newArray #[.array ⟨0⟩]).2
    let w : World := ⟨heap, Run.start Limits.standard .undefined⟩
    let args : List Value := [.array ⟨1⟩]
    ¬Settled (Action.arrayMethod Action.call .splice (.array ⟨0⟩) args w) ∧
      Settled (Action.arrayMethod Action.call .slice (.array ⟨0⟩) args w) := by
  decide +kernel

end Nodecraft.Sandbox
