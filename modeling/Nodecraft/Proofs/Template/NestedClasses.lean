import Mathlib.Logic.Relation
import Nodecraft.Proofs.Pairing.Diagonal
import Nodecraft.Proofs.Sandbox.Fuel
import Nodecraft.Proofs.Template.Nesting
import Nodecraft.Template.Compile
import Nodecraft.Template.Render

/-!
# Classes and styles of arrays that contain themselves

The text of an array of classes or styles is put together from those of its items, and nothing is
kept of the arrays that are being gone through. `Joins` are the texts that this comes to, if it
comes to an end. It does so exactly if no array that it gets to contains itself
(`exists_joins_iff`), since of more arrays in a row than there are on the heap one comes twice
(`Heap.Nests.loops`). So the room that `arrayText?` allows makes no difference, and an element with
such a class or style is not rendered (`classes_and_styles_end`).
-/

set_option autoImplicit false

namespace Nodecraft

open Relation Sandbox

/-- What an action starts with ends if all of it does. -/
theorem Sandbox.Finished.of_bind {α β : Type} {x : Action α} {f : α → Action β} {w : World}
    (h : Finished ((x >>= f) w)) : Finished (x w) := by
  rw [Action.bind_apply] at h
  cases hx : x w with
  | ok a w' => exact trivial
  | error e w' =>
    rw [hx] at h
    exact h.of_error

/-- A value that is no array, or one of so many. -/
def Sandbox.Value.isAmong (size : Nat) : Value → Bool
  | .array a => a.index < size
  | _ => true

namespace Sandbox.Heap

variable {h : Heap}

/-- One array is an item of another. -/
def HasItem (h : Heap) (a b : ArrayId) : Prop := .array b ∈ (h.array a).toList

/-- The value is an array that leads, from item to item, to one that contains itself. -/
def Loops (h : Heap) (v : Value) : Prop :=
  ∃ a b, v = .array a ∧ ReflTransGen h.HasItem a b ∧ TransGen h.HasItem b b

/-- Arrays hold no others than those of the heap. -/
abbrev ArraysContained (h : Heap) : Prop := h.Contained fun a ↦ a.index < h.arrays.size

/-- In a closed heap arrays hold arrays of the heap. -/
theorem Closed.arraysContained (hh : h.Closed) : h.ArraysContained where
  lt := id
  inner {a b} ha hb := by
    have hp : (Pairing.own h).Within h := And.right
    obtain ⟨b', hb'⟩ := (Heap.Alike.contained_left hh hp).inner (a := a) ⟨a.index, rfl, ha⟩ hb
    exact hb'.2

theorem arraysContained_of_all
    (hall : h.arrays.all (fun items ↦ items.all (Value.isAmong h.arrays.size)) = true) :
    h.ArraysContained where
  lt := id
  inner {a b} ha hb := by
    have hitems := Array.all_eq_true_iff_forall_mem.1 hall (h.array a) ?_
    · have hitem := Array.all_eq_true_iff_forall_mem.1 hitems _ (Array.mem_toList_iff.1 hb)
      exact of_decide_eq_true hitem
    · unfold Heap.array Array.getD
      rw [dif_pos ha]
      exact Array.getElem_mem ha

/-! ### Nesting without end -/

/-- An array nests one deeper than its items. -/
theorem Nests.of_hasItem {n : Nat} {a b : ArrayId} (hab : h.HasItem a b)
    (hb : h.Nests n (.array b)) : h.Nests (n + 1) (.array a) :=
  ⟨a, rfl, _, hab, hb⟩

theorem Nests.of_transGen {n : Nat} {a b : ArrayId} (hab : TransGen h.HasItem a b)
    (hb : h.Nests n (.array b)) : h.Nests (n + 1) (.array a) := by
  induction hab using TransGen.head_induction_on with
  | single hab => exact hb.of_hasItem hab
  | head hac _ ih => exact (ih.of_hasItem hac).pred

/-- Arrays nest as deep as one likes below an array that leads to one that contains itself. -/
theorem Loops.nests {v : Value} (hv : h.Loops v) (n : Nat) : h.Nests n v := by
  obtain ⟨a, b, rfl, hab, hbb⟩ := hv
  have hb : h.Nests n (.array b) := by
    induction n with
    | zero => exact ⟨b, rfl⟩
    | succ n ih => exact ih.of_transGen hbb
  rcases reflTransGen_iff_eq_or_transGen.1 hab with rfl | hab
  · exact hb
  · exact (hb.of_transGen hab).pred

/-- What holds something that loops loops. -/
theorem Loops.of_hasItem {a b : ArrayId} (hab : h.HasItem a b) (hb : h.Loops (.array b)) :
    h.Loops (.array a) := by
  obtain ⟨_, c, heq, hbc, hcc⟩ := hb
  cases heq
  exact ⟨a, c, rfl, .head hab hbc, hcc⟩

/-- Of more arrays in a row than there are on the heap, one comes twice. -/
theorem Nests.loops_of_seen (hh : h.ArraysContained) : ∀ (n : Nat) (seen : Finset Nat)
    {a : ArrayId}, a.index < h.arrays.size → h.Nests n (.array a) →
    (∀ i ∈ seen, i < h.arrays.size ∧ TransGen h.HasItem ⟨i⟩ a) →
    h.arrays.size ≤ seen.card + n → h.Loops (.array a) := by
  intro n
  induction n with
  | zero =>
    intro seen a ha _ hseen hcard
    by_cases hmem : a.index ∈ seen
    · exact ⟨a, a, rfl, .refl, (hseen _ hmem).2⟩
    · have hsub : insert a.index seen ⊆ Finset.range h.arrays.size := by
        intro i hi
        rcases Finset.mem_insert.1 hi with rfl | hi
        · exact Finset.mem_range.2 ha
        · exact Finset.mem_range.2 (hseen i hi).1
      have hle := Finset.card_le_card hsub
      rw [Finset.card_insert_of_notMem hmem, Finset.card_range] at hle
      omega
  | succ n ih =>
    intro seen a ha hnests hseen hcard
    by_cases hmem : a.index ∈ seen
    · exact ⟨a, a, rfl, .refl, (hseen _ hmem).2⟩
    · obtain ⟨_, heq, u, hu, hbelow⟩ := hnests
      cases heq
      obtain ⟨b, rfl⟩ := hbelow.exists_array
      have hab : h.HasItem a b := hu
      refine .of_hasItem hab (ih (insert a.index seen) (hh.inner ha hab) hbelow (fun i hi ↦ ?_) ?_)
      · rcases Finset.mem_insert.1 hi with rfl | hi
        · exact ⟨ha, .single hab⟩
        · exact ⟨(hseen i hi).1, (hseen i hi).2.tail hab⟩
      · rw [Finset.card_insert_of_notMem hmem]
        omega

/-- What nests deeper than there are arrays loops. -/
theorem Nests.loops (hh : h.ArraysContained) {v : Value}
    (hv : ∀ a, v = .array a → a.index < h.arrays.size) (hnests : h.Nests h.arrays.size v) :
    h.Loops v := by
  obtain ⟨a, rfl⟩ := hnests.exists_array
  exact hnests.loops_of_seen hh _ ∅ (hv a rfl) (fun _ hi ↦ absurd hi (Finset.notMem_empty _))
    (Nat.le_add_left _ _)

end Sandbox.Heap

namespace Template

open Script

/-! ### What going through the items comes to -/

section

variable (h : Heap) (separator : String) (leaf : Value → String)

/-- The texts of values, each array's put together from those of its items. Nothing bounds how deep
this goes. -/
inductive Joins : List Value → List String → Prop
  | nil : Joins [] []
  | leaf {v : Value} {rest : List Value} {texts : List String} (hv : ∀ a, v ≠ .array a) :
    Joins rest texts → Joins (v :: rest) (leaf v :: texts)
  | array {a : ArrayId} {rest : List Value} {inner texts : List String} :
    Joins (h.array a).toList inner → Joins rest texts →
    Joins (.array a :: rest) (joined separator inner :: texts)

variable {h separator leaf}

/-- What is no array is written as it is. -/
theorem nestedText?_of_leaf {v : Value} (hv : ∀ a, v ≠ .array a) (n : Nat) :
    nestedText? h separator leaf n v = some (leaf v) := by
  cases v with
  | array a => exact absurd rfl (hv a)
  | _ => cases n <;> simp [nestedText?]

/-- Items are gone through one after the other. -/
theorem nestedTexts?_cons {n : Nat} {v : Value} {rest : List Value} {texts : List String} :
    nestedTexts? h separator leaf n (v :: rest) = some texts ↔
      ∃ text others, nestedText? h separator leaf n v = some text ∧
        nestedTexts? h separator leaf n rest = some others ∧ texts = text :: others := by
  rw [nestedTexts?]
  constructor
  · intro htexts
    obtain ⟨text, hv, htexts⟩ := Option.bind_eq_some_iff.1 htexts
    obtain ⟨others, hrest, htexts⟩ := Option.bind_eq_some_iff.1 htexts
    exact ⟨text, others, hv, hrest, (Option.some.inj htexts).symm⟩
  · rintro ⟨text, others, hv, hrest, rfl⟩
    rw [hv, hrest]
    rfl

/-- More calls do not change what is written. -/
theorem nestedTexts?_of_le {n m : Nat} (hnm : n ≤ m) {vs : List Value} :
    ∀ {texts : List String}, nestedTexts? h separator leaf n vs = some texts →
      nestedTexts? h separator leaf m vs = some texts := by
  induction vs with
  | nil => simp [nestedTexts?]
  | cons v rest ih =>
    intro texts htexts
    obtain ⟨text, others, hv, hrest, rfl⟩ := nestedTexts?_cons.1 htexts
    have hv := nestedText?_of_le h separator leaf hnm hv
    exact nestedTexts?_cons.2 ⟨text, others, hv, ih hrest, rfl⟩

/-- What is written is what the items join to. -/
theorem joins_of_nestedTexts? {n : Nat}
    (harrays : ∀ {a : ArrayId} {text : String},
      nestedText? h separator leaf n (.array a) = some text →
        ∃ inner, Joins h separator leaf (h.array a).toList inner ∧ text = joined separator inner)
    {vs : List Value} : ∀ {texts : List String},
    nestedTexts? h separator leaf n vs = some texts → Joins h separator leaf vs texts := by
  induction vs with
  | nil =>
    intro texts htexts
    obtain rfl : texts = [] := by simpa [nestedTexts?] using htexts.symm
    exact .nil
  | cons v rest ih =>
    intro texts htexts
    obtain ⟨text, others, hv, hrest, rfl⟩ := nestedTexts?_cons.1 htexts
    by_cases harray : ∃ a, v = .array a
    · obtain ⟨a, rfl⟩ := harray
      obtain ⟨inner, hinner, rfl⟩ := harrays hv
      exact .array hinner (ih hrest)
    · have hleaf : ∀ a, v ≠ .array a := not_exists.1 harray
      rw [nestedText?_of_leaf hleaf] at hv
      cases hv
      exact .leaf hleaf (ih hrest)

/-- The texts that are found within some room are those that one comes to without a bound. -/
theorem joins_iff {vs : List Value} {texts : List String} :
    Joins h separator leaf vs texts ↔ ∃ n, nestedTexts? h separator leaf n vs = some texts := by
  constructor
  · intro hjoins
    induction hjoins with
    | nil => exact ⟨0, by simp [nestedTexts?]⟩
    | leaf hv _ ih =>
      obtain ⟨n, hrest⟩ := ih
      exact ⟨n, nestedTexts?_cons.2 ⟨_, _, nestedText?_of_leaf hv n, hrest, rfl⟩⟩
    | array _ _ ihinner ihrest =>
      obtain ⟨n, hinner⟩ := ihinner
      obtain ⟨m, hrest⟩ := ihrest
      refine ⟨max n m + 1, nestedTexts?_cons.2 ⟨_, _, ?_, nestedTexts?_of_le ?_ hrest, rfl⟩⟩
      · rw [nestedText?, nestedTexts?_of_le (Nat.le_max_left n m) hinner]
        rfl
      · exact Nat.le_succ_of_le (Nat.le_max_right n m)
  · rintro ⟨n, htexts⟩
    induction n generalizing vs texts with
    | zero =>
      refine joins_of_nestedTexts? (fun hv ↦ ?_) htexts
      simp [nestedText?] at hv
    | succ n ih =>
      refine joins_of_nestedTexts? (fun hv ↦ ?_) htexts
      rw [nestedText?] at hv
      obtain ⟨inner, hinner, rfl⟩ := Option.map_eq_some_iff.1 hv
      exact ⟨inner, ih hinner, rfl⟩

/-- One value joins to what is written of it. -/
theorem joins_singleton_iff {v : Value} {text : String} :
    Joins h separator leaf [v] [text] ↔ ∃ n, nestedText? h separator leaf n v = some text := by
  refine joins_iff.trans (exists_congr fun n ↦ ?_)
  rw [nestedTexts?_cons]
  simp [nestedTexts?]

variable (hh : h.ArraysContained) {v : Value} (hv : ∀ a, v = .array a → a.index < h.arrays.size)

include hh hv

/-- There is no end exactly for values that loop. -/
theorem arrayText?_eq_none : arrayText? h separator leaf v = none ↔ h.Loops v :=
  (nestedText?_eq_none h separator leaf).trans
    ⟨fun hnests ↦ hnests.loops hh hv, fun hloops ↦ hloops.nests _⟩

/-- The room that there is for nested arrays makes no difference. -/
theorem arrayText?_eq_some {text : String} :
    arrayText? h separator leaf v = some text ↔ Joins h separator leaf [v] [text] := by
  rw [joins_singleton_iff]
  refine ⟨fun htext ↦ ⟨_, htext⟩, fun hsome ↦ ?_⟩
  obtain ⟨n, htext⟩ := hsome
  cases hnone : arrayText? h separator leaf v with
  | none =>
    have hnests := ((arrayText?_eq_none hh hv).1 hnone).nests n
    rw [(nestedText?_eq_none h separator leaf).2 hnests] at htext
    exact nomatch htext
  | some other =>
    have hleft := nestedText?_of_le h separator leaf (Nat.le_max_left n h.arrays.size) htext
    have hright := nestedText?_of_le h separator leaf (Nat.le_max_right n h.arrays.size) hnone
    exact hright.symm.trans hleft

/-- Going through the items comes to an end unless it gets to an array that contains itself. -/
theorem exists_joins_iff : (∃ text, Joins h separator leaf [v] [text]) ↔ ¬h.Loops v := by
  have hnone : arrayText? h separator leaf v = none ↔ h.Loops v := arrayText?_eq_none hh hv
  rw [← hnone, ← ne_eq, Option.ne_none_iff_exists']
  exact exists_congr fun text ↦ (arrayText?_eq_some hh hv).symm

end

/-! ### Rendering them -/

/-- Attributes whose values are gone through item by item. -/
def IsNested (name : String) : Prop := name = "class" ∨ name = "style"

/-- A class or a style is added exactly if it does not lead to an array that contains itself, and
any other value always is. -/
theorem finished_addValue (acc : Evaluated) (name : String) {v : Value} {w : World}
    (hh : w.heap.ArraysContained) (hv : ∀ a, v = .array a → a.index < w.heap.arrays.size) :
    Finished (addValue acc name v w) ↔ (IsNested name → ¬w.heap.Loops v) := by
  have hclass : classText? w.heap v = none ↔ w.heap.Loops v := arrayText?_eq_none hh hv
  have hstyle : styleText? w.heap v = none ↔ w.heap.Loops v := arrayText?_eq_none hh hv
  unfold addValue IsNested
  change Finished ((Action.heap >>= _) w) ↔ _
  rw [Action.bind_apply]
  change Finished ((if name == "class" then _ else _ : Action Evaluated) w) ↔ _
  by_cases hc : name = "class"
  · rw [if_pos (beq_iff_eq.2 hc)]
    cases htext : classText? w.heap v with
    | none => exact iff_of_false id fun hnot ↦ hnot (.inl hc) (hclass.1 htext)
    | some text =>
      exact iff_of_true trivial fun _ hloops ↦ nomatch htext.symm.trans (hclass.2 hloops)
  rw [if_neg fun heq ↦ hc (beq_iff_eq.1 heq)]
  by_cases hs : name = "style"
  · rw [if_pos (beq_iff_eq.2 hs)]
    cases htext : styleText? w.heap v with
    | none => exact iff_of_false id fun hnot ↦ hnot (.inr hs) (hstyle.1 htext)
    | some text =>
      exact iff_of_true trivial fun _ hloops ↦ nomatch htext.symm.trans (hstyle.2 hloops)
  · rw [if_neg fun heq ↦ hs (beq_iff_eq.1 heq)]
    exact iff_of_true trivial fun hnested ↦ absurd hnested (not_or.2 ⟨hc, hs⟩)

/-- Classes and styles have the texts that their items join to. They have one, and an element that
has or binds them gets past them, exactly if they lead to no array that contains itself. -/
theorem classes_and_styles_end {w : World} (hh : w.heap.ArraysContained) {v : Value}
    (hv : ∀ a, v = .array a → a.index < w.heap.arrays.size) :
    (∀ text, classText? w.heap v = some text ↔
      Joins w.heap " " (classLeaf w.heap) [v] [text]) ∧
    (∀ text, styleText? w.heap v = some text ↔
      Joins w.heap "; " (styleLeaf w.heap) [v] [text]) ∧
    ((∃ text, Joins w.heap " " (classLeaf w.heap) [v] [text]) ↔ ¬w.heap.Loops v) ∧
    ((∃ text, Joins w.heap "; " (styleLeaf w.heap) [v] [text]) ↔ ¬w.heap.Loops v) ∧
    (∀ (acc : Evaluated) (name : String),
      Finished (addValue acc name v w) ↔ (IsNested name → ¬w.heap.Loops v)) ∧
    ∀ (m : Machine) (s : ScopeId) (acc : Evaluated) (name : String) (e : Expr) (w₀ : World),
      valueOf m s e w₀ = .ok v w →
      (Finished (addAttribute m s acc (.bound name e) w₀) ↔ (IsNested name → ¬w.heap.Loops v)) := by
  refine ⟨fun text ↦ arrayText?_eq_some hh hv, fun text ↦ arrayText?_eq_some hh hv,
    exists_joins_iff hh hv, exists_joins_iff hh hv, fun acc name ↦ finished_addValue acc name hh hv,
    fun m s acc name e w₀ hvalue ↦ ?_⟩
  rw [← finished_addValue acc name hh hv]
  change Finished ((valueOf m s e >>= fun v ↦ addValue acc name v) w₀) ↔ _
  rw [Action.bind_apply, hvalue]

/-- Classes in an array, one of them twice and in an array of its own. -/
def nestedClasses : Heap :=
  { Heap.empty with arrays := #[#[.string "a", .array ⟨1⟩, .array ⟨1⟩], #[.string " b "]] }

theorem classes_and_styles_end_nestedClasses :
    nestedClasses.ArraysContained ∧
    classText? nestedClasses (.array ⟨0⟩) = some "a b b" ∧
    Joins nestedClasses " " (classLeaf nestedClasses) [.array ⟨0⟩] ["a b b"] ∧
    ¬nestedClasses.Loops (.array ⟨0⟩) := by
  have hh : nestedClasses.ArraysContained := Heap.arraysContained_of_all (by decide +kernel)
  have hv : ∀ a, Value.array ⟨0⟩ = .array a → a.index < nestedClasses.arrays.size := by
    rintro _ ⟨⟩
    decide
  have h := classes_and_styles_end (w := ⟨nestedClasses, Run.start .standard .undefined⟩) hh hv
  have hinner : Joins nestedClasses " " (classLeaf nestedClasses) [.string " b "] ["b"] := by
    have hleaf : classLeaf nestedClasses (.string " b ") = "b" := by decide
    exact hleaf ▸ .leaf nofun .nil
  have hjoins : Joins nestedClasses " " (classLeaf nestedClasses) [.array ⟨0⟩] ["a b b"] := by
    have hleaf : classLeaf nestedClasses (.string "a") = "a" := by decide
    have hjoined : joined " " ["a", joined " " ["b"], joined " " ["b"]] = "a b b" := by
      decide
    exact hjoined ▸ .array (hleaf ▸ .leaf nofun (.array hinner (.array hinner .nil))) .nil
  exact ⟨hh, (h.1 _).2 hjoins, hjoins, h.2.2.1.1 ⟨_, hjoins⟩⟩

/-! ### Renderings that come to no end -/

/-- A template is not rendered whose first element binds such a class or style before all else. -/
theorem run_of_loops {t : Template} {registered : Registered} {state v : Value} {tag name : String}
    {e : Expr} {attributes : List Attribute} {events : List (String × Nat)} {visible : Option Expr}
    {children more : List Tree} {w₀ w : World}
    (hroots : t.roots = .element tag (.bound name e :: attributes) events visible children :: more)
    (hvalue : (stateScope state >>= fun s ↦ valueOf machine s e) w₀ = .ok v w)
    (hh : w.heap.ArraysContained) (hv : ∀ a, v = .array a → a.index < w.heap.arrays.size)
    (hname : IsNested name) (hloops : w.heap.Loops v) :
    ¬Finished (t.run registered state w₀) := by
  obtain ⟨s, w₁, hscope, hvalue⟩ : ∃ s w₁, stateScope state w₀ = .ok s w₁ ∧
      valueOf machine s e w₁ = .ok v w := by
    rw [Action.bind_apply] at hvalue
    cases hscope : stateScope state w₀ with
    | ok s w₁ => exact ⟨s, w₁, rfl, by rwa [hscope] at hvalue⟩
    | error f w₁ =>
      rw [hscope] at hvalue
      exact nomatch hvalue
  intro hfin
  unfold run runOn at hfin
  rw [Action.bind_apply, hscope, hroots] at hfin
  -- down to the first attribute, which is evaluated first of all
  have hall : Finished ((renderAll machine registered s _).run #[] w₁) := .of_bind hfin
  unfold renderAll at hall
  have helement : Finished ((render machine registered s _).run #[] w₁) := .of_bind hall
  unfold render at helement
  have hattributes : Finished ((liftM (evaluateAttributes machine s _ _) :
    Rendering Evaluated).run #[] w₁) := .of_bind helement
  have hattribute : Finished (addAttribute machine s ⟨[], [], []⟩ (.bound name e) w₁) :=
    .of_bind (.of_bind hattributes)
  have hadded : Finished ((valueOf machine s e >>= fun v ↦ addValue ⟨[], [], []⟩ name v) w₁) :=
    hattribute
  rw [Action.bind_apply, hvalue] at hadded
  exact (finished_addValue _ _ hh hv).1 hadded hname hloops

/-- An array that is its own item, in a state. -/
def selfHeldState : Value × World :=
  let (classes, h) := Heap.empty.newArray #[.array ⟨0⟩]
  let (state, h) := h.newObject ⟨.state, [("c", .array classes)], false⟩
  (.object state, ⟨h, Run.start .standard .undefined⟩)

def classMarkup : String := "<p :class=\"c\"></p>"

def classTemplate : Template := ⟨[.element "p" [.bound "class" (.name "c")] [] none []], #[]⟩

def isClassTemplate : Except Fault Template → Bool
  | .ok ⟨[.element "p" [.bound "class" (.name "c")] [] none []], ⟨[]⟩⟩ => true
  | _ => false

theorem ofMarkup_classMarkup : ofMarkup classMarkup = .ok classTemplate := by
  have h : isClassTemplate (ofMarkup classMarkup) = true := by decide +kernel
  unfold isClassTemplate at h
  split at h
  · assumption
  · cases h

/-- As a text such an array is empty, but its classes and styles come to no end, and neither does
an element that binds it as its class. -/
theorem selfHeld_never_joins :
    let h := selfHeldState.2.heap
    h.text (.array ⟨0⟩) = "" ∧
    (∀ text, ¬Joins h " " (classLeaf h) [.array ⟨0⟩] [text]) ∧
    (∀ text, ¬Joins h "; " (styleLeaf h) [.array ⟨0⟩] [text]) ∧
    ofMarkup classMarkup = .ok classTemplate ∧
    ¬Finished (classTemplate.run [] selfHeldState.1 selfHeldState.2) := by
  intro h
  have hh : h.ArraysContained := Heap.arraysContained_of_all (by decide +kernel)
  have hv : ∀ a, Value.array ⟨0⟩ = .array a → a.index < h.arrays.size := by
    rintro _ ⟨⟩
    decide
  have hself : h.HasItem ⟨0⟩ ⟨0⟩ := List.mem_singleton.2 rfl
  have hloops : h.Loops (.array ⟨0⟩) := ⟨⟨0⟩, ⟨0⟩, rfl, .refl, .single hself⟩
  refine ⟨by decide, fun text hjoins ↦ ?_, fun text hjoins ↦ ?_, ofMarkup_classMarkup, ?_⟩
  · exact (exists_joins_iff hh hv).1 ⟨text, hjoins⟩ hloops
  · exact (exists_joins_iff hh hv).1 ⟨text, hjoins⟩ hloops
  · -- evaluating a name leaves the arrays as they are
    exact run_of_loops (w := ⟨_, _⟩) rfl rfl ⟨hh.lt, hh.inner⟩ hv (.inl rfl) hloops

end Template

end Nodecraft
