import Mathlib.Data.List.Forall2
import Nodecraft.Proofs.Script.Mentions
import Nodecraft.Sandbox.Action

/-!
# Values of two heaps that stand for each other

A `Pairing` says which cells of one heap stand for which cells of another. Values are alike along
a pairing when they are the same but for paired cells, and so are fields, objects, functions,
scopes and everything else that values occur in. A pairing also says what code may mention that
runs in a scope (`Pairing.allows`): scopes are alike only as far as such code can tell, so the code
of functions that are alike mentions nothing else (`Pairing.Runs`).

Pairings are ordered by inclusion. All relations of this module are kept by larger pairings
(`Stable`).
-/

set_option autoImplicit false

theorem Option.Rel.imp {α β : Type} {R S : α → β → Prop} (hRS : ∀ {a b}, R a b → S a b)
    {x : Option α} {y : Option β} : Option.Rel R x y → Option.Rel S x y
  | .some h => .some (hRS h)
  | .none => .none

theorem Option.Rel.exists_right {α β : Type} {R : α → β → Prop} {a : α} {y : Option β} :
    Option.Rel R (Option.some a) y → ∃ b, y = Option.some b ∧ R a b
  | .some h => ⟨_, rfl, h⟩

theorem Option.Rel.exists_left {α β : Type} {R : α → β → Prop} {x : Option α} {b : β} :
    Option.Rel R x (Option.some b) → ∃ a, x = Option.some a ∧ R a b
  | .some h => ⟨_, rfl, h⟩

theorem Option.Rel.isSome_eq {α β : Type} {R : α → β → Prop} {x : Option α} {y : Option β} :
    Option.Rel R x y → x.isSome = y.isSome
  | .some _ => rfl
  | .none => rfl

namespace Nodecraft.Sandbox

open Script

/-- Which cells of two heaps stand for each other, by their indices, and what code may mention
that runs in a scope of the first heap. -/
structure Pairing where
  /-- Whether cells that stand for each other have the same index. -/
  aligned : Bool
  array : Nat → Nat → Prop
  object : Nat → Nat → Prop
  function : Nat → Nat → Prop
  scope : Nat → Nat → Prop
  switch : Nat → Nat → Prop
  allows : Nat → Mention → Prop

namespace Pairing

/-- A larger pairing pairs more cells, and allows the same in the scopes of the smaller one. -/
structure Le (p q : Pairing) : Prop where
  aligned : q.aligned = p.aligned
  array {a a' : Nat} : p.array a a' → q.array a a'
  object {o o' : Nat} : p.object o o' → q.object o o'
  function {f f' : Nat} : p.function f f' → q.function f f'
  scope {s s' : Nat} : p.scope s s' → q.scope s s'
  switch {s s' : Nat} : p.switch s s' → q.switch s s'
  allows {s s' : Nat} : p.scope s s' → ∀ m, q.allows s m ↔ p.allows s m

instance : LE Pairing := ⟨Le⟩

theorem le_refl (p : Pairing) : p ≤ p where
  aligned := rfl
  array h := h
  object h := h
  function h := h
  scope h := h
  switch h := h
  allows _ _ := Iff.rfl

theorem le_trans {p q r : Pairing} (h : p ≤ q) (h' : q ≤ r) : p ≤ r where
  aligned := h'.aligned.trans h.aligned
  array := h'.array ∘ h.array
  object := h'.object ∘ h.object
  function := h'.function ∘ h.function
  scope := h'.scope ∘ h.scope
  switch := h'.switch ∘ h.switch
  allows hs m := (h'.allows (h.scope hs) m).trans (h.allows hs m)

/-- Code with the given mentions may run in two scopes that stand for each other. -/
structure Runs (p : Pairing) (s s' : ScopeId) (ms : List Mention) : Prop where
  scope : p.scope s.index s'.index
  allowed {m : Mention} : m ∈ ms → p.allows s.index m

variable {p q : Pairing} {s s' : ScopeId} {ms ms' : List Mention}

/-- Code that may run in paired scopes may still run there once the pairing has grown. -/
theorem Runs.mono (h : p.Runs s s' ms) (hle : p ≤ q) : q.Runs s s' ms where
  scope := hle.scope h.scope
  allowed hm := (hle.allows h.scope _).2 (h.allowed hm)

theorem Runs.left (h : p.Runs s s' (ms ++ ms')) : p.Runs s s' ms :=
  ⟨h.scope, fun hm ↦ h.allowed (List.mem_append_left _ hm)⟩

theorem Runs.right (h : p.Runs s s' (ms ++ ms')) : p.Runs s s' ms' :=
  ⟨h.scope, fun hm ↦ h.allowed (List.mem_append_right _ hm)⟩

theorem Runs.head {m : Mention} (h : p.Runs s s' (m :: ms)) : p.allows s.index m :=
  h.allowed List.mem_cons_self

theorem Runs.tail {m : Mention} (h : p.Runs s s' (m :: ms)) : p.Runs s s' ms :=
  ⟨h.scope, fun hm ↦ h.allowed (List.mem_cons_of_mem _ hm)⟩

end Pairing

/-- A relation that larger pairings keep. -/
class Stable {α β : Type} (Q : Pairing → α → β → Prop) : Prop where
  mono {p q : Pairing} (hle : p ≤ q) {a : α} {b : β} : Q p a b → Q q a b

/-! ### Plain data, options, lists and pairs -/

/-- The same data on both sides. -/
def Same {α : Type} (_ : Pairing) (a b : α) : Prop := a = b

instance {α : Type} : Stable (Same (α := α)) where
  mono _ _ _ h := h

section

variable {α β γ δ : Type} (Q : Pairing → α → β → Prop) (R : Pairing → γ → δ → Prop)

def OptionAlike (p : Pairing) : Option α → Option β → Prop := Option.Rel (Q p)

def ListAlike (p : Pairing) : List α → List β → Prop := List.Forall₂ (Q p)

def PairAlike (p : Pairing) (a : α × γ) (b : β × δ) : Prop := Q p a.1 b.1 ∧ R p a.2 b.2

/-- Fields with the same keys in the same order. -/
def FieldsAlike : Pairing → Fields α → Fields β → Prop :=
  ListAlike (PairAlike (Same (α := String)) Q)

def ArrayAlike (p : Pairing) (xs : Array α) (ys : Array β) : Prop :=
  ListAlike Q p xs.toList ys.toList

variable [Stable Q] [Stable R]

instance : Stable (OptionAlike Q) where
  mono hle _ _ := (·.imp (Stable.mono hle))

instance : Stable (ListAlike Q) where
  mono hle _ _ h := h.imp fun _ _ ↦ Stable.mono hle

instance : Stable (PairAlike Q R) where
  mono hle _ _ h := ⟨Stable.mono hle h.1, Stable.mono hle h.2⟩

instance : Stable (FieldsAlike Q) := inferInstanceAs (Stable (ListAlike _))

instance : Stable (ArrayAlike Q) where
  mono hle _ _ h := Stable.mono (Q := ListAlike Q) hle h

end

/-! ### Fields -/

/-- Looking a key up in paired lists finds paired values, or nothing in both. -/
theorem ListAlike.lookup {κ α β : Type} [BEq κ] {Q : Pairing → α → β → Prop} {p : Pairing}
    {fs : List (κ × α)} {fs' : List (κ × β)} (h : ListAlike (PairAlike (Same (α := κ)) Q) p fs fs')
    (key : κ) : OptionAlike Q p (fs.lookup key) (fs'.lookup key) := by
  induction h with
  | nil => exact .none
  | @cons f f' rest rest' hf _ ih =>
    obtain ⟨k, v⟩ := f
    obtain ⟨k', v'⟩ := f'
    obtain ⟨rfl, hv⟩ : k = k' ∧ Q p v v' := hf
    simp only [List.lookup_cons]
    cases key == k with
    | true => exact .some hv
    | false => exact ih

namespace FieldsAlike

variable {α β : Type} {Q : Pairing → α → β → Prop} {p : Pairing} {fs : Fields α} {fs' : Fields β}

theorem get? (h : FieldsAlike Q p fs fs') (key : String) :
    OptionAlike Q p (fs.get? key) (fs'.get? key) :=
  ListAlike.lookup h key

theorem keys_eq (h : FieldsAlike Q p fs fs') : fs.keys = fs'.keys := by
  induction h with
  | nil => rfl
  | cons hf _ ih =>
    simp only [Fields.keys, List.map_cons] at ih ⊢
    rw [ih, hf.1]

theorem has_eq (h : FieldsAlike Q p fs fs') (key : String) : fs.has key = fs'.has key :=
  (h.get? key).isSome_eq

/-- Folding comes to the same, if each step does for values that are alike. -/
theorem foldl_eq (h : FieldsAlike Q p fs fs') {γ : Type} {step : γ → String × α → γ}
    {step' : γ → String × β → γ}
    (hstep : ∀ c key v v', Q p v v' → step c (key, v) = step' c (key, v')) (c : γ) :
    fs.foldl step c = fs'.foldl step' c := by
  induction h generalizing c with
  | nil => rfl
  | @cons f f' _ _ hf _ ih =>
    obtain ⟨k, v⟩ := f
    obtain ⟨k', v'⟩ := f'
    obtain ⟨rfl, hv⟩ : k = k' ∧ Q p v v' := hf
    rw [List.foldl_cons, List.foldl_cons, hstep c k v v' hv]
    exact ih _

/-- Storing paired values under one key keeps fields paired. -/
theorem insert (h : FieldsAlike Q p fs fs') (key : String) {v : α} {v' : β} (hv : Q p v v') :
    FieldsAlike Q p (fs.insert key v) (fs'.insert key v') := by
  induction h with
  | nil => exact .cons ⟨rfl, hv⟩ .nil
  | @cons f f' rest rest' hf hrest ih =>
    obtain ⟨k, w⟩ := f
    obtain ⟨k', w'⟩ := f'
    obtain ⟨rfl, hw⟩ : k = k' ∧ Q p w w' := hf
    unfold Fields.insert
    split
    · exact .cons ⟨rfl, hv⟩ hrest
    · exact .cons ⟨rfl, hw⟩ ih

theorem erase (h : FieldsAlike Q p fs fs') (key : String) :
    FieldsAlike Q p (fs.erase key) (fs'.erase key) := by
  induction h with
  | nil => exact .nil
  | @cons f f' rest rest' hf hrest ih =>
    obtain ⟨k, w⟩ := f
    obtain ⟨k', w'⟩ := f'
    obtain ⟨rfl, hw⟩ : k = k' ∧ Q p w w' := hf
    unfold Fields.erase
    split
    · exact hrest
    · exact .cons ⟨rfl, hw⟩ ih

theorem insertAll {entries : List (String × α)} {entries' : List (String × β)}
    (he : FieldsAlike Q p entries entries') (h : FieldsAlike Q p fs fs') :
    FieldsAlike Q p (entries.foldl (fun fields entry ↦ fields.insert entry.1 entry.2) fs)
      (entries'.foldl (fun fields entry ↦ fields.insert entry.1 entry.2) fs') := by
  induction he generalizing fs fs' with
  | nil => exact h
  | @cons f f' _ _ hf _ ih =>
    obtain ⟨k, w⟩ := f
    obtain ⟨k', w'⟩ := f'
    obtain ⟨rfl, hw⟩ : k = k' ∧ Q p w w' := hf
    exact ih (h.insert k hw)

end FieldsAlike

/-! ### Values -/

inductive Value.Alike (p : Pairing) : Value → Value → Prop
  | undefined : Value.Alike p .undefined .undefined
  | null : Value.Alike p .null .null
  | bool (b : Bool) : Value.Alike p (.bool b) (.bool b)
  | number (x : Float) : Value.Alike p (.number x) (.number x)
  | string (s : String) : Value.Alike p (.string s) (.string s)
  | array {a a' : ArrayId} : p.array a.index a'.index → Value.Alike p (.array a) (.array a')
  | object {o o' : ObjectId} : p.object o.index o'.index → Value.Alike p (.object o) (.object o')
  | function {f f' : FunctionId} : p.function f.index f'.index →
    Value.Alike p (.function f) (.function f')

instance : Stable Value.Alike where
  mono hle := by
    rintro _ _ (_ | _ | _ | _ | _ | h | h | h)
    · exact .undefined
    · exact .null
    · exact .bool _
    · exact .number _
    · exact .string _
    · exact .array (hle.array h)
    · exact .object (hle.object h)
    · exact .function (hle.function h)

/-! ### Objects -/

inductive ObjectKind.Alike (p : Pairing) : ObjectKind → ObjectKind → Prop
  | plain : ObjectKind.Alike p .plain .plain
  | ref : ObjectKind.Alike p .ref .ref
  | computed {getter getter' : Value} {setter setter' : Option Value} :
    Value.Alike p getter getter' → OptionAlike Value.Alike p setter setter' →
    ObjectKind.Alike p (.computed getter setter) (.computed getter' setter')
  | state : ObjectKind.Alike p .state .state

instance : Stable ObjectKind.Alike where
  mono hle := by
    rintro _ _ (_ | _ | ⟨h, h'⟩ | _)
    · exact .plain
    · exact .ref
    · exact .computed (Stable.mono hle h) (Stable.mono hle h')
    · exact .state

structure Object.Alike (p : Pairing) (o o' : Object) : Prop where
  kind : ObjectKind.Alike p o.kind o'.kind
  fields : FieldsAlike Value.Alike p o.fields o'.fields
  frozen : o.frozen = o'.frozen

instance : Stable Object.Alike where
  mono hle _ _ h := ⟨Stable.mono hle h.kind, Stable.mono hle h.fields, h.frozen⟩

/-! ### Functions -/

/-- The function holds no values. -/
def Native.IsPlain : Native → Prop
  | .stop _ => False
  | .path _ _ => False
  | _ => True

inductive Native.Alike (p : Pairing) : Native → Native → Prop
  | plain {n : Native} : n.IsPlain → Native.Alike p n n
  | stop {switch switch' : Option SwitchId} :
    Option.Rel (fun s s' ↦ p.switch s.index s'.index) switch switch' →
    Native.Alike p (.stop switch) (.stop switch')
  | path {root root' : Value} (segments : List String) : Value.Alike p root root' →
    Native.Alike p (.path root segments) (.path root' segments)

instance : Stable Native.Alike where
  mono hle := by
    rintro _ _ (h | h | ⟨segments, h⟩)
    · exact .plain h
    · exact .stop (h.imp hle.switch)
    · exact .path segments (Stable.mono hle h)

inductive Function.Alike (p : Pairing) : Function → Function → Prop
  | closure {code : FunctionDef} {s s' : ScopeId} : p.Runs s s' code.mentions →
    Function.Alike p (.closure code s) (.closure code s')
  | native {n n' : Native} : Native.Alike p n n' → Function.Alike p (.native n) (.native n')
  | bound {f f' : FunctionId} {self self' : Value} : p.function f.index f'.index →
    Value.Alike p self self' → Function.Alike p (.bound f self) (.bound f' self')

instance : Stable Function.Alike where
  mono hle := by
    rintro _ _ (h | h | ⟨h, h'⟩)
    · exact .closure (h.mono hle)
    · exact .native (Stable.mono hle h)
    · exact .bound (hle.function h) (Stable.mono hle h')

/-! ### Scopes -/

structure Binding.Alike (p : Pairing) (b b' : Binding) : Prop where
  value : Value.Alike p b.value b'.value
  mutable : b.mutable = b'.mutable

instance : Stable Binding.Alike where
  mono hle _ _ h := ⟨Stable.mono hle h.value, h.mutable⟩

/-- Scopes that code cannot tell apart as long as it mentions what is allowed. A name that it may
not declare has no meaning in the first scope. -/
structure Scope.Alike (p : Pairing) (allowed : Mention → Prop) (scope scope' : Scope) : Prop where
  binding {name : String} : allowed (.use name) →
    OptionAlike Binding.Alike p (scope.bindings.get? name) (scope'.bindings.get? name)
  parent : Option.Rel (fun t t' ↦ p.scope t.index t'.index ∧
    ∀ m, p.allows t.index m ↔ allowed m) scope.parent scope'.parent
  fallback : OptionAlike Value.Alike p scope.fallback scope'.fallback
  self : OptionAlike Value.Alike p scope.self scope'.self
  isFunction : scope.isFunction = scope'.isFunction
  unbound {name : String} : ¬allowed (.declare name) →
    scope.bindings.get? name = none ∧ scope.fallback = none

/-- Scopes stay alike when the pairing grows, over names that are allowed as before. -/
theorem Scope.Alike.mono {p q : Pairing} {A B : Mention → Prop} {scope scope' : Scope}
    (h : Scope.Alike p A scope scope') (hle : p ≤ q) (hAB : ∀ m, B m ↔ A m) :
    Scope.Alike q B scope scope' where
  binding hname := Stable.mono hle (h.binding ((hAB _).1 hname))
  parent := h.parent.imp fun ht ↦ ⟨hle.scope ht.1, fun m ↦
    (hle.allows ht.1 m).trans ((ht.2 m).trans (hAB m).symm)⟩
  fallback := Stable.mono hle h.fallback
  self := Stable.mono hle h.self
  isFunction := h.isFunction
  unbound hname := h.unbound fun h ↦ hname ((hAB _).2 h)

/-! ### Errors and ends of statements -/

inductive ScriptError.Alike (p : Pairing) : ScriptError → ScriptError → Prop
  | thrown (message : String) {v v' : Value} : Value.Alike p v v' →
    ScriptError.Alike p (.thrown message v) (.thrown message v')
  | unbound (name : String) : ScriptError.Alike p (.unbound name) (.unbound name)
  | type (message : String) : ScriptError.Alike p (.type message) (.type message)
  | callDepth (limit : Nat) : ScriptError.Alike p (.callDepth limit) (.callDepth limit)
  | stepBudget (limit : Nat) : ScriptError.Alike p (.stepBudget limit) (.stepBudget limit)
  | stackExhausted : ScriptError.Alike p .stackExhausted .stackExhausted

instance : Stable ScriptError.Alike where
  mono hle := by
    rintro _ _ (⟨message, h⟩ | _ | _ | _ | _ | _)
    · exact .thrown message (Stable.mono hle h)
    · exact .unbound _
    · exact .type _
    · exact .callDepth _
    · exact .stepBudget _
    · exact .stackExhausted

/-- Of paired errors both can be caught or neither. -/
theorem ScriptError.Alike.isCatchable_eq {p : Pairing} {e e' : ScriptError}
    (h : ScriptError.Alike p e e') : e.isCatchable = e'.isCatchable := by
  cases h <;> rfl

inductive Failure.Alike (p : Pairing) : Failure → Failure → Prop
  | raised {e e' : ScriptError} : ScriptError.Alike p e e' →
    Failure.Alike p (.raised e) (.raised e')
  | unfinished : Failure.Alike p .unfinished .unfinished
  | overlap : Failure.Alike p .overlap .overlap

instance : Stable Failure.Alike where
  mono hle := by
    rintro _ _ (h | _ | _)
    · exact .raised (Stable.mono hle h)
    · exact .unfinished
    · exact .overlap

/-! ### Watchers and interpreters -/

inductive WatchSource.Alike (p : Pairing) : WatchSource → WatchSource → Prop
  | getter {f f' : Value} : Value.Alike p f f' → WatchSource.Alike p (.getter f) (.getter f')
  | cell {v v' : Value} : Value.Alike p v v' → WatchSource.Alike p (.cell v) (.cell v')
  | value {v v' : Value} : Value.Alike p v v' → WatchSource.Alike p (.value v) (.value v')
  | effect {f f' : Value} : Value.Alike p f f' → WatchSource.Alike p (.effect f) (.effect f')

instance : Stable WatchSource.Alike where
  mono hle := by
    rintro _ _ (h | h | h | h)
    · exact .getter (Stable.mono hle h)
    · exact .cell (Stable.mono hle h)
    · exact .value (Stable.mono hle h)
    · exact .effect (Stable.mono hle h)

structure Watcher.Alike (p : Pairing) (w w' : Watcher) : Prop where
  source : WatchSource.Alike p w.source w'.source
  callback : Value.Alike p w.callback w'.callback
  last : Value.Alike p w.last w'.last
  snapshot : w.snapshot = w'.snapshot
  switch : p.switch w.switch.index w'.switch.index

instance : Stable Watcher.Alike where
  mono hle _ _ h := ⟨Stable.mono hle h.source, Stable.mono hle h.callback, Stable.mono hle h.last,
    h.snapshot, hle.switch h.switch⟩

structure HookRegistry.Alike (p : Pairing) (r r' : HookRegistry) : Prop where
  hooks : ArrayAlike (PairAlike (Same (α := LifecycleHook)) Value.Alike) p r.hooks r'.hooks
  watchers : ArrayAlike Watcher.Alike p r.watchers r'.watchers

instance : Stable HookRegistry.Alike where
  mono hle _ _ h := ⟨Stable.mono hle h.hooks, Stable.mono hle h.watchers⟩

structure Run.Alike (p : Pairing) (r r' : Run) : Prop where
  limits : r.limits = r'.limits
  depth : r.depth = r'.depth
  steps : r.steps = r'.steps
  nesting : r.nesting = r'.nesting
  ticks : ArrayAlike Value.Alike p r.ticks r'.ticks
  hooks : OptionAlike HookRegistry.Alike p r.hooks r'.hooks
  props : Value.Alike p r.props r'.props

instance : Stable Run.Alike where
  mono hle _ _ h := ⟨h.limits, h.depth, h.steps, h.nesting, Stable.mono hle h.ticks,
    Stable.mono hle h.hooks, Stable.mono hle h.props⟩

end Nodecraft.Sandbox
