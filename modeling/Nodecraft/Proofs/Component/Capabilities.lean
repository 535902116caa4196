import Mathlib.Logic.Relation
import Nodecraft.Proofs.Component.Setup
import Nodecraft.Proofs.Pairing.Later

/-!
# The standard whitelist is for good

All that a script can come by from the standard whitelist is plain data, capabilities and frozen
objects (`Pairing.Lasting.fixed_of_reaches`), and so it is the same whatever scripts have done: two
standard whitelists, made on any two heaps, are alike along a pairing that pairs nothing else
(`standard_lasting`), and however the two heaps are used afterwards, they stay alike along it
(`Pairing.Lasting.alike`).
-/

set_option autoImplicit false

namespace Nodecraft.Sandbox

open Script

/-! ### What values lead to -/

/-- The values that code in a scope may come by without a name outside of it. -/
def Scope.values (scope : Scope) : List Value :=
  scope.bindings.map (fun b ↦ b.2.value) ++ scope.fallback.toList ++ scope.self.toList

/-- The cell of the first value names the second one. -/
inductive Heap.Refers (h : Heap) : Value → Value → Prop
  | item {a : ArrayId} {v : Value} : v ∈ h.array a → Refers h (.array a) v
  | field {o : ObjectId} {f : String × Value} : f ∈ (h.object o).fields → Refers h (.object o) f.2
  | getter {o : ObjectId} {getter : Value} {setter : Option Value} :
    (h.object o).kind = .computed getter setter → Refers h (.object o) getter
  | setter {o : ObjectId} {getter setter : Value} :
    (h.object o).kind = .computed getter (some setter) → Refers h (.object o) setter
  /-- A closure knows what is in the scopes it was made in. -/
  | captured {f : FunctionId} {code : FunctionDef} {s t : ScopeId} {v : Value} :
    h.function f = .closure code s →
    Relation.ReflTransGen (fun s t ↦ (h.scope s).parent = some t) s t → v ∈ (h.scope t).values →
    Refers h (.function f) v
  | target {f t : FunctionId} {self : Value} : h.function f = .bound t self →
    Refers h (.function f) (.function t)
  | self {f t : FunctionId} {self : Value} : h.function f = .bound t self →
    Refers h (.function f) self
  | root {f : FunctionId} {root : Value} {segments : List String} :
    h.function f = .native (.path root segments) → Refers h (.function f) root

/-- The value can be come by from a value of the whitelist. -/
def Whitelist.Reaches (whitelist : Whitelist) (h : Heap) (v : Value) : Prop :=
  ∃ b ∈ whitelist.bindings, Relation.ReflTransGen h.Refers b.2 v

/-- No script can change what the value leads to next. -/
inductive Heap.Fixed (h : Heap) : Value → Prop
  | undefined : Fixed h .undefined
  | null : Fixed h .null
  | bool (b : Bool) : Fixed h (.bool b)
  | number (x : Float) : Fixed h (.number x)
  | string (s : String) : Fixed h (.string s)
  | object {o : ObjectId} : (h.object o).frozen = true → Fixed h (.object o)
  | capability {f : FunctionId} {c : Capability} : h.function f = .native (.capability c) →
    Fixed h (.function f)

/-! ### Lasting pairings -/

/-- A pairing of nothing but capabilities and frozen objects. -/
structure Pairing.Lasting (p : Pairing) (h : Heap) : Prop where
  aligned : p.aligned = false
  array (a a' : Nat) : ¬p.array a a'
  scope (s s' : Nat) : ¬p.scope s s'
  switch (s s' : Nat) : ¬p.switch s s'
  object {o o' : Nat} : p.object o o' → (h.object ⟨o⟩).frozen = true
  exists_function {f f' : Nat} : p.function f f' → f < h.functions.size
  function {f f' : Nat} : p.function f f' → ∃ c, h.function ⟨f⟩ = .native (.capability c)

namespace Pairing.Lasting

variable {p : Pairing} {h h' h₁ h₁' : Heap} (hp : p.Lasting h)

include hp

/-- What lasts goes on in later heaps. -/
theorem later (hl : h.Later h₁) : p.Lasting h₁ where
  aligned := hp.aligned
  array := hp.array
  scope := hp.scope
  switch := hp.switch
  object ho := by
    rw [hl.frozen (hp.object ho)]
    exact hp.object ho
  exists_function hf := Nat.lt_of_lt_of_le (hp.exists_function hf) hl.functions_le
  function {f _} hf := by
    have hfunction : h₁.function ⟨f⟩ = h.function ⟨f⟩ := hl.function (hp.exists_function hf)
    rw [hfunction]
    exact hp.function hf

/-- Values that are alike along such a pairing are fixed. -/
theorem fixed {v v' : Value} (hv : Value.Alike p v v') : h.Fixed v := by
  cases hv with
  | undefined => exact .undefined
  | null => exact .null
  | bool b => exact .bool b
  | number x => exact .number x
  | string s => exact .string s
  | array ha => exact absurd ha (hp.array _ _)
  | object ho => exact .object (hp.object ho)
  | function hf =>
    obtain ⟨c, hc⟩ := hp.function hf
    exact .capability hc

variable (hh : Heap.Alike p h h')

include hh

/-- What a value leads to is again paired, if anything. -/
theorem refers {v v' u : Value} (hv : Value.Alike p v v') (hu : h.Refers v u) :
    ∃ u', Value.Alike p u u' := by
  have hnative {f : FunctionId} {w : Value} (hf : Value.Alike p (.function f) w) :
      ∃ c, h.function f = .native (.capability c) := by
    cases hf with
    | function hf => exact hp.function hf
  cases hu with
  | item _ =>
    cases hv with
    | array ha => exact absurd ha (hp.array _ _)
  | field hf =>
    cases hv with
    | object ho =>
      obtain ⟨i, hi, rfl⟩ := List.getElem_of_mem hf
      exact ⟨_, ((List.forall₂_iff_get.1 (hh.object ho).fields).2 i hi
        (by rwa [← (List.forall₂_iff_get.1 (hh.object ho).fields).1])).2⟩
  | getter hk =>
    cases hv with
    | object ho =>
      have hkind := (hh.object ho).kind
      rw [hk] at hkind
      generalize (h'.object _).kind = kind' at hkind
      cases hkind with
      | computed hg _ => exact ⟨_, hg⟩
  | setter hk =>
    cases hv with
    | object ho =>
      have hkind := (hh.object ho).kind
      rw [hk] at hkind
      generalize (h'.object _).kind = kind' at hkind
      cases hkind with
      | computed _ hs =>
        cases hs with
        | some hs => exact ⟨_, hs⟩
  | captured hf _ _ =>
    obtain ⟨c, hc⟩ := hnative hv
    exact nomatch hf.symm.trans hc
  | target hf =>
    obtain ⟨c, hc⟩ := hnative hv
    exact nomatch hf.symm.trans hc
  | self hf =>
    obtain ⟨c, hc⟩ := hnative hv
    exact nomatch hf.symm.trans hc
  | root hf =>
    obtain ⟨c, hc⟩ := hnative hv
    exact nomatch hf.symm.trans hc

/-- All that a script can come by from values that are alike along such a pairing is fixed. -/
theorem fixed_of_reaches {whitelist whitelist' : Whitelist}
    (hw : FieldsAlike Value.Alike p whitelist.bindings whitelist'.bindings) {v : Value}
    (hv : whitelist.Reaches h v) : h.Fixed v := by
  obtain ⟨b, hb, hpath⟩ := hv
  obtain ⟨i, hi, rfl⟩ := List.getElem_of_mem hb
  have halike : ∃ v', Value.Alike p v v' := by
    induction hpath with
    | refl => exact ⟨_, ((List.forall₂_iff_get.1 hw).2 i hi
        (by rwa [← (List.forall₂_iff_get.1 hw).1])).2⟩
    | tail _ hstep ih =>
      obtain ⟨u', hu⟩ := ih
      exact hp.refers hh hu hstep
  obtain ⟨v', hv⟩ := halike
  exact hp.fixed hv

/-- Heaps stay alike along such a pairing whatever scripts do to either of them. -/
theorem alike (hl : h.Later h₁) (hl' : h'.Later h₁') : Heap.Alike p h₁ h₁' where
  arrays := ⟨fun ha ↦ absurd ha (hp.array _ _), fun ha ↦ absurd ha (hp.array _ _),
    fun ha ↦ absurd ha (hp.array _ _)⟩
  objects := {
    injective := hh.objects.injective
    frontier := fun {o o'} ho k ↦ by
      have hlt := Heap.lt_of_frozen (hp.object ho)
      have hlt' := (hh.objects.lt_iff ho).1 hlt
      have hle := hl.objects_le
      have hle' := hl'.objects_le
      dsimp only at hlt
      omega
    content := fun {o o'} ho ↦ by
      have hobject : Object.Alike p (h.object ⟨o⟩) (h'.object ⟨o'⟩) := hh.object ho
      have hfrozen := hp.object ho
      have hfrozen' := hobject.frozen.symm.trans hfrozen
      rw [← hl.frozen hfrozen, ← hl'.frozen hfrozen'] at hobject
      exact hobject }
  functions := {
    injective := hh.functions.injective
    frontier := fun {f f'} hf k ↦ by
      have hlt := hp.exists_function hf
      have hlt' := (hh.functions.lt_iff hf).1 hlt
      have hle := hl.functions_le
      have hle' := hl'.functions_le
      omega
    content := fun {f f'} hf ↦ by
      have hlt := hp.exists_function hf
      have hfunction : Function.Alike p (h.function ⟨f⟩) (h'.function ⟨f'⟩) := hh.function hf
      rw [← hl.function hlt, ← hl'.function ((hh.functions.lt_iff hf).1 hlt)] at hfunction
      exact hfunction }
  scopes := ⟨fun hs ↦ absurd hs (hp.scope _ _), fun hs ↦ absurd hs (hp.scope _ _),
    fun hs ↦ absurd hs (hp.scope _ _)⟩
  switches := ⟨fun hs ↦ absurd hs (hp.switch _ _), fun hs ↦ absurd hs (hp.switch _ _),
    fun hs ↦ absurd hs (hp.switch _ _)⟩
  total hs := absurd hs (hp.scope _ _)
  measured := by
    have hplain {f f' : Nat} (hf : p.function f f') {t : FunctionId} {self : Value}
        (ht : h₁.function ⟨f⟩ = .bound t self) : t.index < f := by
      obtain ⟨c, hc⟩ := (hp.later hl).function hf
      exact nomatch hc.symm.trans ht
    have hplain' {f f' : Nat} (hf : p.function f f') {t : FunctionId} {self : Value}
        (ht : h₁'.function ⟨f'⟩ = .bound t self) : t.index < f' := by
      obtain ⟨c, hc⟩ := hp.function hf
      have hfunction : Function.Alike p (h.function ⟨f⟩) (h'.function ⟨f'⟩) := hh.function hf
      rw [hc, ← hl'.function ((hh.functions.lt_iff hf).1 (hp.exists_function hf)), ht] at hfunction
      exact nomatch hfunction
    unfold Pairing.Measured
    rw [hp.aligned]
    refine ⟨⟨?_, ?_, ?_, ?_⟩, ⟨?_, ?_, ?_, ?_⟩⟩
    · rintro s ⟨s', hs⟩
      exact absurd hs (hp.scope _ _)
    · rintro s t ⟨s', hs⟩
      exact absurd hs (hp.scope _ _)
    · rintro f ⟨f', hf⟩
      exact (hp.later hl).exists_function hf
    · rintro f t self ⟨f', hf⟩
      exact hplain hf
    · rintro s' ⟨s, hs⟩
      exact absurd hs (hp.scope _ _)
    · rintro s' t ⟨s, hs⟩
      exact absurd hs (hp.scope _ _)
    · rintro f' ⟨f, hf⟩
      exact Nat.lt_of_lt_of_le ((hh.functions.lt_iff hf).1 (hp.exists_function hf))
        hl'.functions_le
    · rintro f' t self ⟨f, hf⟩
      exact hplain' hf

omit hh

/-- What is made besides must be frozen objects and capabilities, too. -/
theorem grow {q : Pairing} (hg : Grows p h q h₁) (harrays : h₁.arrays = h.arrays)
    (hscopes : h₁.scopes = h.scopes) (hswitches : h₁.switches = h.switches)
    (hobject : ∀ o : ObjectId, h.objects.size ≤ o.index → o.index < h₁.objects.size →
      (h₁.object o).frozen = true)
    (hfunction : ∀ f : FunctionId, h.functions.size ≤ f.index → f.index < h₁.functions.size →
      ∃ c, h₁.function f = .native (.capability c)) : q.Lasting h₁ where
  aligned := hg.aligned.trans hp.aligned
  array a a' ha := by
    rcases hg.arrays.fresh ha with ha | ⟨hle, hlt⟩
    · exact hp.array a a' ha
    · exact Nat.not_lt_of_le hle (harrays ▸ hlt)
  scope s s' hs := by
    rcases hg.scopes.fresh hs with hs | ⟨hle, hlt⟩
    · exact hp.scope s s' hs
    · exact Nat.not_lt_of_le hle (hscopes ▸ hlt)
  switch s s' hs := by
    rcases hg.switches.fresh hs with hs | ⟨hle, hlt⟩
    · exact hp.switch s s' hs
    · exact Nat.not_lt_of_le hle (hswitches ▸ hlt)
  object ho := by
    rcases hg.objects.fresh ho with ho | ⟨hle, hlt⟩
    · exact (hp.later hg.later).object ho
    · exact hobject ⟨_⟩ hle hlt
  exists_function hf := by
    rcases hg.functions.fresh hf with hf | ⟨-, hlt⟩
    · exact (hp.later hg.later).exists_function hf
    · exact hlt
  function hf := by
    rcases hg.functions.fresh hf with hf | ⟨hle, hlt⟩
    · exact (hp.later hg.later).function hf
    · exact hfunction ⟨_⟩ hle hlt

end Pairing.Lasting

/-! ### The standard whitelist -/

/-- The pairing of no cells. -/
def Pairing.unpaired : Pairing :=
  ⟨false, fun _ _ ↦ False, fun _ _ ↦ False, fun _ _ ↦ False, fun _ _ ↦ False, fun _ _ ↦ False,
    fun _ _ ↦ False⟩

/-- Any two heaps are alike as long as none of their cells are compared. -/
theorem Heap.alike_unpaired (h h' : Heap) : Heap.Alike .unpaired h h' where
  arrays := ⟨False.elim, False.elim, False.elim⟩
  objects := ⟨False.elim, False.elim, False.elim⟩
  functions := ⟨False.elim, False.elim, False.elim⟩
  scopes := ⟨False.elim, False.elim, False.elim⟩
  switches := ⟨False.elim, False.elim, False.elim⟩
  total := False.elim
  measured :=
    have hempty (h : Heap) : h.Layered (fun _ ↦ ∃ _ : Nat, False) fun _ ↦ ∃ _ : Nat, False :=
      ⟨fun hs ↦ hs.elim nofun, fun hs ↦ hs.elim nofun, fun hf ↦ hf.elim nofun,
        fun hf ↦ hf.elim nofun⟩
    ⟨hempty h, hempty h'⟩

theorem Pairing.lasting_unpaired (h : Heap) : Pairing.unpaired.Lasting h where
  aligned := rfl
  array _ _ := id
  scope _ _ := id
  switch _ _ := id
  object := False.elim
  exists_function := False.elim
  function := False.elim

/-- Heaps that are alike along a pairing of capabilities and frozen objects, after a change. -/
structure Heap.Settles (p : Pairing) (h : Heap) (q : Pairing) (h₁ h₁' : Heap) : Prop where
  moves : Heap.Moves p h q h₁ h₁'
  lasting : q.Lasting h₁

theorem Heap.Settles.trans {p q r : Pairing} {h h₁ h₁' h₂ h₂' : Heap}
    (hs : Heap.Settles p h q h₁ h₁') (hs' : Heap.Settles q h₁ r h₂ h₂') :
    Heap.Settles p h r h₂ h₂' :=
  ⟨hs.moves.trans hs'.moves, hs'.lasting⟩

section

variable {p : Pairing} {h h' : Heap} (hh : Heap.Alike p h h') (hp : p.Lasting h)

include hh hp

/-- A capability is made alike on both sides. -/
theorem settles_newCapability (c : Capability) :
    ∃ q, Heap.Settles p h q (h.newCapability c).2 (h'.newCapability c).2 ∧
      PairAlike (Same (α := String)) Value.Alike q (h.newCapability c).1 (h'.newCapability c).1 := by
  obtain ⟨q, hm, hf⟩ := hh.newFunction (.native (.plain (n := .capability c) trivial))
  refine ⟨q, ⟨hm, hp.grow hm.grows rfl rfl rfl (fun o hle hlt ↦ ?_) fun f hle hlt ↦ ⟨c, ?_⟩⟩,
    rfl, .function hf⟩
  · exact absurd hlt (Nat.not_lt_of_le hle)
  · have hsize : f.index < h.functions.size + 1 := Nat.lt_of_lt_of_eq hlt (Array.size_push _)
    refine (Cells.getD_push _ _ _ _).trans (if_pos ?_)
    omega

/-- So is a frozen object. -/
theorem settles_newFrozen {fields fields' : Fields Value}
    (hfields : FieldsAlike Value.Alike p fields fields') :
    ∃ q, Heap.Settles p h q (h.newObject ⟨.plain, fields, true⟩).2
        (h'.newObject ⟨.plain, fields', true⟩).2 ∧
      Value.Alike q (.object (h.newObject ⟨.plain, fields, true⟩).1)
        (.object (h'.newObject ⟨.plain, fields', true⟩).1) := by
  have hobject : Object.Alike p ⟨.plain, fields, true⟩ ⟨.plain, fields', true⟩ :=
    ⟨.plain, hfields, rfl⟩
  obtain ⟨q, hm, ho⟩ := hh.newObject hobject
  refine ⟨q, ⟨hm, hp.grow hm.grows rfl rfl rfl (fun o hle hlt ↦ ?_) fun f hle hlt ↦ ?_⟩, .object ho⟩
  · have hsize : o.index < h.objects.size + 1 := Nat.lt_of_lt_of_eq hlt (Array.size_push _)
    have hnew : (h.newObject ⟨.plain, fields, true⟩).2.object o = ⟨.plain, fields, true⟩ :=
      (Cells.getD_push _ _ _ _).trans (if_pos (by omega))
    rw [hnew]
  · exact absurd hlt (Nat.not_lt_of_le hle)

end

/-- So are several capabilities. -/
theorem settles_newCapabilities (cs : List Capability) :
    ∀ {p : Pairing} {h h' : Heap}, Heap.Alike p h h' → p.Lasting h →
      ∃ q, Heap.Settles p h q (h.newCapabilities cs).2 (h'.newCapabilities cs).2 ∧
        FieldsAlike Value.Alike q (h.newCapabilities cs).1 (h'.newCapabilities cs).1 := by
  induction cs with
  | nil => exact fun hh hp ↦ ⟨_, ⟨hh.refl, hp⟩, .nil⟩
  | cons c rest ih =>
    intro p h h' hh hp
    obtain ⟨q, hs, hentry⟩ := settles_newCapability hh hp c
    obtain ⟨r, hs', hentries⟩ := ih hs.moves.alike hs.lasting
    exact ⟨r, hs.trans hs', .cons (Stable.mono hs'.moves.grows.le hentry) hentries⟩

/-- Standard whitelists are alike, whatever else is on the heaps they are made on. -/
theorem standard_lasting (h h' : Heap) :
    ∃ p : Pairing, p.Lasting (Whitelist.standard h).2 ∧
      Heap.Alike p (Whitelist.standard h).2 (Whitelist.standard h').2 ∧
      FieldsAlike Value.Alike p (Whitelist.standard h).1.bindings
        (Whitelist.standard h').1.bindings := by
  obtain ⟨p, hp, hnamed⟩ := settles_newCapabilities namedCapabilities (h.alike_unpaired h')
    (Pairing.lasting_unpaired h)
  obtain ⟨q, hq, hfurther⟩ := settles_newCapabilities furtherCapabilities hp.moves.alike hp.lasting
  have hnamed := Stable.mono (Q := FieldsAlike Value.Alike) hq.moves.grows.le hnamed
  obtain ⟨r, hr, hns⟩ := settles_newFrozen hq.moves.alike hq.lasting
    (List.rel_append hnamed hfurther)
  obtain ⟨s, hs, hsides⟩ := settles_newFrozen hr.moves.alike hr.lasting
    (Component.sides_alike r).fields
  have hle := hs.moves.grows.le
  exact ⟨s, hs.lasting, hs.moves.alike, List.rel_append
    (Stable.mono (Q := FieldsAlike Value.Alike) hle
      (Stable.mono (Q := FieldsAlike Value.Alike) hr.moves.grows.le hnamed))
    (.cons ⟨rfl, Stable.mono hle hns⟩ (.cons ⟨rfl, hsides⟩ .nil))⟩

end Nodecraft.Sandbox
