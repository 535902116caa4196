import Nodecraft.Compiler.Basic
import Nodecraft.Proofs.Component.Lasting
import Nodecraft.Proofs.Sandbox.Counters

/-!
# Histories of a host

A host compiles definitions, evaluates logic, calls functions, and mounts instances and hands on to
them what happens, in any order, with all values on one heap. Each operation leaves a later heap,
whether it succeeds or fails (`Host.Sound.step`), and so does every history (`Host.Sound.after`).
-/

set_option autoImplicit false

namespace Nodecraft

open Sandbox

/-- A compiler, and instances whose values live on its heap. -/
structure Host where
  compiler : Compiler
  instances : Array Instance

/-- What a host may do. Instances are named by the order in which they were mounted. -/
inductive Operation
  | compile (definition : String) (data : NodeData) (store : NodeStore)
  | clearCache
  | evaluate (whitelist : Whitelist) (limits : Limits) (body : Logic.Body) (data : NodeData)
    (store : NodeStore)
  /-- Has an interpreter do what it is asked. -/
  | interpret (run : Run) (task : Task)
  | mount (component : Component)
  | get (number : Nat) (key : String)
  | render (number : Nat)
  | stateJson (number : Nat)
  | trigger (number id : Nat) (event : Json)
  | callMethod (number : Nat) (name : String) (args : List Json)
  | unmount (number : Nat)

namespace Host

/-- A host that has not mounted anything. -/
def start (c : Compiler) : Host := ⟨c, #[]⟩

def heap (s : Host) : Heap := s.compiler.heap

def withHeap (s : Host) (h : Heap) : Host := { s with compiler := { s.compiler with heap := h } }

/-- Has an instance do something, on the heap as it is by now. -/
def ask {α : Type} (s : Host) (number : Nat) (x : Instance.Op α) : Host :=
  match s.instances[number]? with
  | none => s
  | some i =>
    let j := left (x (i.withHeap s.heap))
    { s.withHeap j.world.heap with instances := s.instances.setIfInBounds number j }

/-- The host after an operation, whether that succeeds or fails. -/
def step (s : Host) : Operation → Host
  | .compile definition data store =>
    { s with compiler := left (Compiler.compile definition data store s.compiler) }
  | .clearCache => { s with compiler := s.compiler.clear }
  | .evaluate whitelist limits body data store =>
    s.withHeap (heapOf (Component.evaluate whitelist limits body data store s.heap))
  | .interpret run task => s.withHeap (finalWorld (task.run machine ⟨s.heap, run⟩)).heap
  | .mount c =>
    match Instance.mount c s.heap with
    | .ok i h => { s.withHeap h with instances := s.instances.push i }
    | .error _ h => s.withHeap h
  | .get number key => s.ask number (Instance.get key)
  | .render number => s.ask number Instance.render
  | .stateJson number => s.ask number Instance.stateJson
  | .trigger number id event => s.ask number (Instance.trigger id event)
  | .callMethod number name args => s.ask number (Instance.callMethod name args)
  | .unmount number => s.ask number Instance.unmount

/-- The host after a history. -/
def after (s : Host) (history : List Operation) : Host := history.foldl step s

/-- The states of all instances are objects of the heap that are not frozen. -/
def Sound (s : Host) : Prop := ∀ i ∈ s.instances, (i.withHeap s.heap).Sound

end Host

/-! ### What compiling leaves of the heap -/

namespace Component

/-- Compiling logic leaves a later heap. -/
theorem later_ofLogic (whitelist : Whitelist) (limits : Limits) (template : Template)
    (logic : String) (data : NodeData) (store : NodeStore) (h : Heap) :
    h.Later (left (ofLogic whitelist limits template logic data store h)) := by
  unfold ofLogic
  cases Logic.Body.ofText logic with
  | error why => exact .refl h
  | ok body =>
    have hlater := later_evaluate whitelist limits body data store h
    dsimp only
    generalize evaluate whitelist limits body data store h = r at hlater ⊢
    cases r with
    | ok options h₁ => exact hlater
    | error failure h₁ => exact hlater

end Component

namespace Compiler

/-- The template of some markup, with the cache from then on. -/
def prepare (c : Compiler) (markup : String) : Except Template.Fault Template × Cache :=
  if c.settings.keepsTemplates then c.cache.compile markup else (Template.ofMarkup markup, c.cache)

/-- A compiler that has compiled some markup. -/
def prepared (c : Compiler) (markup : String) : Compiler :=
  { c with cache := (c.prepare markup).2 }

/-- Whether it is kept or not, a template is what the markup compiles to if the cache gives that. -/
theorem prepare_eq {c : Compiler} {markup : String} (hcache : c.settings.keepsTemplates = true →
    (c.cache.compile markup).1 = Template.ofMarkup markup) :
    (c.prepare markup).1 = Template.ofMarkup markup := by
  unfold prepare
  split
  case isTrue hkeeps => exact hcache hkeeps
  case isFalse => rfl

/-- What becomes of a result on the heap for a compiler. -/
def onto {α : Type} (c : Compiler) :
    EStateM.Result CompileError Heap α → EStateM.Result CompileError Compiler α
  | .ok a h => .ok a { c with heap := h }
  | .error e h => .error e { c with heap := h }

theorem left_onto {α : Type} (c : Compiler) (r : EStateM.Result CompileError Heap α) :
    left (c.onto r) = { c with heap := left r } := by
  cases r <;> rfl

theorem onHeap_apply {α : Type} (action : EStateM CompileError Heap α) (c : Compiler) :
    onHeap action c = c.onto (action c.heap) := by
  unfold onHeap
  cases action c.heap <;> rfl

section

variable (definition : String) (data : NodeData) (store : NodeStore) (c : Compiler)

theorem template_of_ok {markup : String} {t : Template} (ht : (c.prepare markup).1 = .ok t) :
    template markup c = .ok t (c.prepared markup) := by
  unfold prepared template
  unfold prepare at ht ⊢
  generalize (if c.settings.keepsTemplates = true then c.cache.compile markup
    else (Template.ofMarkup markup, c.cache)) = r at ht ⊢
  obtain ⟨result, cache⟩ := r
  obtain rfl : result = .ok t := ht
  rfl

theorem template_of_error {markup : String} {fault : Template.Fault}
    (ht : (c.prepare markup).1 = .error fault) :
    template markup c = .error (.template fault) (c.prepared markup) := by
  unfold prepared template
  unfold prepare at ht ⊢
  generalize (if c.settings.keepsTemplates = true then c.cache.compile markup
    else (Template.ofMarkup markup, c.cache)) = r at ht ⊢
  obtain ⟨result, cache⟩ := r
  obtain rfl : result = .error fault := ht
  rfl

/-- Without markup nothing is compiled. -/
theorem compile_of_missing {why : Definition.MissingMarkup}
    (h : Definition.Blocks.ofText definition = .error why) :
    compile definition data store c = .error (.missingMarkup why) c := by
  unfold compile
  rw [h]
  rfl

/-- A fault of the template comes before the logic is looked at. -/
theorem compile_of_fault {blocks : Definition.Blocks} {fault : Template.Fault}
    (h : Definition.Blocks.ofText definition = .ok blocks)
    (ht : (c.prepare blocks.markup).1 = .error fault) :
    compile definition data store c = .error (.template fault) (c.prepared blocks.markup) := by
  unfold compile
  rw [h]
  exact bind_of_error (template_of_error c ht)

/-- With a template, the logic is evaluated and the component made. -/
theorem compile_of_template {blocks : Definition.Blocks} {t : Template}
    (h : Definition.Blocks.ofText definition = .ok blocks)
    (ht : (c.prepare blocks.markup).1 = .ok t) :
    compile definition data store c = (c.prepared blocks.markup).onto
      (Component.ofLogic c.whitelist c.settings.limits t blocks.logic data store c.heap) := by
  unfold compile
  rw [h]
  have hget : (get : Op Compiler) (c.prepared blocks.markup) =
    .ok (c.prepared blocks.markup) (c.prepared blocks.markup) := rfl
  refine (bind_of_ok (template_of_ok c ht)).trans ((bind_of_ok hget).trans ?_)
  exact onHeap_apply _ (c.prepared blocks.markup)

/-- However it ends, compiling prepares the markup, if there is any, and then may run the logic. -/
theorem left_compile_cases :
    (∃ why, Definition.Blocks.ofText definition = .error why ∧
      left (compile definition data store c) = c) ∨
    ∃ blocks h, Definition.Blocks.ofText definition = .ok blocks ∧
      left (compile definition data store c) = { c.prepared blocks.markup with heap := h } ∧
      (h = c.heap ∨ ∃ t, h = left
        (Component.ofLogic c.whitelist c.settings.limits t blocks.logic data store c.heap)) := by
  cases hblocks : Definition.Blocks.ofText definition with
  | error why =>
    rw [compile_of_missing definition data store c hblocks]
    exact .inl ⟨why, rfl, rfl⟩
  | ok blocks =>
    cases ht : (c.prepare blocks.markup).1 with
    | error fault =>
      rw [compile_of_fault definition data store c hblocks ht]
      exact .inr ⟨blocks, c.heap, rfl, rfl, .inl rfl⟩
    | ok t =>
      rw [compile_of_template definition data store c hblocks ht]
      exact .inr ⟨blocks, _, rfl, left_onto _ _, .inr ⟨t, rfl⟩⟩

/-- Compiling leaves a later heap, however it ends. -/
theorem later_compile : c.heap.Later (left (compile definition data store c)).heap := by
  rcases left_compile_cases definition data store c with
    ⟨why, -, hleft⟩ | ⟨blocks, h, -, hleft, hheap | ⟨t, hheap⟩⟩ <;> rw [hleft]
  · exact .refl _
  · dsimp only
    rw [hheap]
    exact .refl _
  · dsimp only
    rw [hheap]
    exact Component.later_ofLogic c.whitelist c.settings.limits t blocks.logic data store c.heap

end

end Compiler

/-! ### What histories leave of the heap -/

/-- What is sound stays so in later heaps. -/
theorem Instance.Sound.withHeap {i : Instance} {h h₁ : Heap} (hi : (i.withHeap h).Sound)
    (hl : h.Later h₁) : (i.withHeap h₁).Sound where
  exists_state := Nat.lt_of_lt_of_le hi.exists_state hl.objects_le
  frozen := (hl.object hi.exists_state).frozen.trans hi.frozen

namespace Host

/-- A host that has become a sound one, with a later heap. -/
structure Goes (s s₁ : Host) : Prop where
  sound : s₁.Sound
  later : s.heap.Later s₁.heap

theorem sound_start (c : Compiler) : (start c).Sound := fun _ hi ↦ absurd hi (Array.not_mem_empty _)

namespace Sound

variable {s : Host} (hs : s.Sound)

include hs

/-- A later heap may take the place of the host's. -/
theorem goes_withHeap {h : Heap} (hl : s.heap.Later h) : s.Goes (s.withHeap h) :=
  ⟨fun i hi ↦ (hs i hi).withHeap hl, hl⟩

/-- Asking an instance leaves a later heap. -/
theorem goes_ask {α : Type} (number : Nat) {x : Instance.Op α} (hx : Instance.Op.Lasts x) :
    s.Goes (s.ask number x) := by
  unfold ask
  cases hi : s.instances[number]? with
  | none => exact ⟨hs, .refl _⟩
  | some i =>
    have hsound := hs i (Array.mem_of_getElem? hi)
    have hlater := hx _ hsound
    refine ⟨fun j hj ↦ ?_, hlater.heap⟩
    rcases Array.mem_or_eq_of_mem_setIfInBounds hj with hold | rfl
    · exact (hs j hold).withHeap hlater.heap
    · exact hlater.sound hsound

/-- One operation leaves a later heap and a sound host. -/
theorem step (operation : Operation) : s.Goes (s.step operation) := by
  cases operation with
  | compile definition data store =>
    have hlater := Compiler.later_compile definition data store s.compiler
    exact ⟨fun i hi ↦ (hs i hi).withHeap hlater, hlater⟩
  | clearCache => exact ⟨hs, .refl _⟩
  | evaluate whitelist limits body data store =>
    exact hs.goes_withHeap (Component.later_evaluate whitelist limits body data store _)
  | interpret run task => exact hs.goes_withHeap (Action.Lasts.task task ⟨s.heap, run⟩)
  | mount c =>
    obtain ⟨hlater, hmounted⟩ := Instance.mount_spec c s.heap
    unfold Host.step
    dsimp only
    cases hr : Instance.mount c s.heap with
    | error e h =>
      rw [hr] at hlater
      exact hs.goes_withHeap hlater
    | ok i h =>
      rw [hr] at hlater
      obtain ⟨hsound, rfl⟩ := hmounted i h hr
      refine ⟨fun j hj ↦ ?_, hlater⟩
      rcases Array.mem_push.1 hj with hold | rfl
      · exact (hs j hold).withHeap hlater
      · exact hsound
  | get number key => exact hs.goes_ask number fun i ↦ Instance.works_lasts.getOn i key
  | render number => exact hs.goes_ask number Instance.works_lasts.renderOn
  | stateJson number => exact hs.goes_ask number Instance.works_lasts.stateJsonOn
  | trigger number id event =>
    exact hs.goes_ask number fun i ↦ Instance.observes_lasts.triggerOn i id event
  | callMethod number name args =>
    exact hs.goes_ask number fun i ↦ Instance.observes_lasts.callMethodOn i name args
  | unmount number => exact hs.goes_ask number Instance.works_lasts.unmountOn

end Sound

/-- A history leaves a later heap and a sound host. -/
theorem Sound.after (history : List Operation) : ∀ {s : Host}, s.Sound → s.Goes (s.after history) := by
  induction history with
  | nil => exact fun hs ↦ ⟨hs, .refl _⟩
  | cons operation rest ih =>
    intro s hs
    have hstep := hs.step operation
    have hrest := ih hstep.sound
    exact ⟨hrest.sound, hstep.later.trans hrest.later⟩

/-- Histories in a row. -/
theorem after_append (s : Host) (history later : List Operation) :
    s.after (history ++ later) = (s.after history).after later :=
  List.foldl_append

end Host

end Nodecraft
