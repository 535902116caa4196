import Nodecraft.Proofs.Compiler.History
import Nodecraft.Proofs.Component.Capabilities

/-!
# Compiling does not depend on what was compiled before

A host whose compiler has the standard whitelist compiles a definition to the same component, or
refuses it with the same error, whatever it has done before (`histories_leave_no_trace`). Two things
outlast an operation. What scripts come by from the whitelist is for good: a frozen object is the
same object after any history. And templates are kept, each for the markup whose digest it goes by
(`Cache.Keeps`), so they are those that the markup compiles to, unless other markup has the same
digest (`Host.Confuses`).
-/

set_option autoImplicit false

namespace Nodecraft

open Sandbox

/-! ### Kept templates -/

namespace Compiler.Cache

/-- Every entry is what some of the markup compiles to. -/
def Keeps (c : Cache) (markups : List String) : Prop :=
  ∀ e ∈ c.entries, ∃ markup ∈ markups, key markup = e.1 ∧ Template.ofMarkup markup = .ok e.2

variable {c : Cache} {markups : List String}

/-- An empty cache keeps nothing. -/
theorem keeps_clear (c : Cache) (markups : List String) : c.clear.Keeps markups :=
  fun _ he ↦ absurd he List.not_mem_nil

/-- What the cache gives is one of its entries. -/
theorem mem_of_get? {markup : String} {t : Template} (ht : c.get? markup = some t) :
    (key markup, t) ∈ c.entries := by
  unfold get? at ht
  obtain ⟨before, after, hentries, -⟩ := List.lookup_eq_some_iff.1 ht
  rw [hentries]
  simp

/-- Moving an entry to the end keeps the others. -/
theorem Keeps.refresh (hc : c.Keeps markups) {markup : String} {t : Template}
    (ht : c.get? markup = some t) : (c.refresh (key markup) t).Keeps markups := by
  intro e he
  rcases List.mem_append.1 he with he | he
  · exact hc e (List.mem_of_mem_filter he)
  · obtain rfl := List.mem_singleton.1 he
    exact hc _ (mem_of_get? ht)

/-- Adding the template of a markup. -/
theorem Keeps.add (hc : c.Keeps markups) {markup : String} (hmarkup : markup ∈ markups)
    {t : Template} (ht : Template.ofMarkup markup = .ok t) :
    (c.add (key markup) t).Keeps markups := by
  unfold Cache.add
  split
  · exact hc
  · intro e he
    rcases List.mem_append.1 he with he | he
    · exact hc e (List.mem_of_mem_drop he)
    · obtain rfl := List.mem_singleton.1 he
      exact ⟨markup, hmarkup, rfl, ht⟩

/-- A request to compile keeps only templates of markups asked for. -/
theorem Keeps.compile (hc : c.Keeps markups) {markup : String} (hmarkup : markup ∈ markups) :
    (c.compile markup).2.Keeps markups := by
  unfold Cache.compile compileBy
  cases hget : c.get? markup with
  | some t => exact hc.refresh hget
  | none =>
    cases ht : Template.ofMarkup markup with
    | error fault => exact hc
    | ok t => exact hc.add hmarkup ht

/-- A kept template is the one that the markup compiles to, or other markup has the same digest. -/
theorem Keeps.compile_eq (hc : c.Keeps markups) (markup : String) :
    (c.compile markup).1 = Template.ofMarkup markup ∨
      ∃ other ∈ markups, other ≠ markup ∧ key other = key markup := by
  unfold Cache.compile compileBy
  cases hget : c.get? markup with
  | some t =>
    obtain ⟨other, hother, hkey, ht⟩ := hc _ (mem_of_get? hget)
    by_cases heq : other = markup
    · rw [heq] at ht
      exact .inl ht.symm
    · exact .inr ⟨other, hother, heq, hkey⟩
  | none =>
    cases ht : Template.ofMarkup markup with
    | error fault => exact .inl rfl
    | ok t => exact .inl rfl

end Compiler.Cache

/-! ### Outcomes of compiling that are alike -/

/-- Components that differ in no more than the cells of their options. -/
structure Component.Alike (p : Pairing) (c c' : Component) : Prop where
  template : c.template = c'.template
  options : Component.Options.Alike p c.options c'.options
  data : c.data = c'.data
  store : c.store = c'.store
  limits : c.limits = c'.limits

inductive CompileError.Alike (p : Pairing) : CompileError → CompileError → Prop
  | missingMarkup (why : Definition.MissingMarkup) :
    CompileError.Alike p (.missingMarkup why) (.missingMarkup why)
  | unsupportedLogic (why : Logic.Unsupported) :
    CompileError.Alike p (.unsupportedLogic why) (.unsupportedLogic why)
  | logicEvaluation {failure failure' : Failure} : Failure.Alike p failure failure' →
    CompileError.Alike p (.logicEvaluation failure) (.logicEvaluation failure')
  | template (fault : Template.Fault) : CompileError.Alike p (.template fault) (.template fault)

/-- The same component or the same error, on heaps that are alike. -/
inductive CompilesAlike {σ σ' : Type} (heap : σ → Heap) (heap' : σ' → Heap) (p : Pairing) :
    EStateM.Result CompileError σ Component → EStateM.Result CompileError σ' Component → Prop
  | ok {c c' : Component} {s : σ} {s' : σ'} : Component.Alike p c c' →
    Heap.Alike p (heap s) (heap' s') → CompilesAlike heap heap' p (.ok c s) (.ok c' s')
  | error {e e' : CompileError} {s : σ} {s' : σ'} : CompileError.Alike p e e' →
    Heap.Alike p (heap s) (heap' s') → CompilesAlike heap heap' p (.error e s) (.error e' s')

/-- Compiling the same logic in heaps that are alike gives components that are alike. -/
theorem Component.ofLogic_alike {p : Pairing} {h h' : Heap} {whitelist whitelist' : Whitelist}
    (hh : Heap.Alike p h h')
    (hw : FieldsAlike Value.Alike p whitelist.bindings whitelist'.bindings) (limits : Limits)
    (template : Template) (logic : String) (data : NodeData) (store : NodeStore) :
    ∃ q, CompilesAlike id id q (ofLogic whitelist limits template logic data store h)
      (ofLogic whitelist' limits template logic data store h') := by
  unfold ofLogic
  cases Logic.Body.ofText logic with
  | error why => exact ⟨p, .error (.unsupportedLogic why) hh⟩
  | ok body =>
    obtain ⟨q, -, hq⟩ := evaluate_alike hh hw limits body data store
    refine ⟨q, ?_⟩
    dsimp only
    generalize evaluate whitelist limits body data store h = r,
      evaluate whitelist' limits body data store h' = r' at hq ⊢
    cases hq with
    | ok hoptions hh => exact .ok ⟨rfl, hoptions, rfl, rfl, rfl⟩ hh
    | error hfailure hh => exact .error (.logicEvaluation hfailure) hh

/-- The same with the template compiled as well. -/
theorem Component.ofParts_alike {p : Pairing} {h h' : Heap} {whitelist whitelist' : Whitelist}
    (hh : Heap.Alike p h h')
    (hw : FieldsAlike Value.Alike p whitelist.bindings whitelist'.bindings) (limits : Limits)
    (markup logic : String) (data : NodeData) (store : NodeStore) :
    ∃ q, CompilesAlike id id q (ofParts whitelist limits markup logic data store h)
      (ofParts whitelist' limits markup logic data store h') := by
  unfold ofParts
  cases Template.ofMarkup markup with
  | error fault => exact ⟨p, .error (.template fault) hh⟩
  | ok t => exact ofLogic_alike hh hw limits t logic data store

namespace Compiler

/-- What is compiled is alike as a result of the compilers. -/
theorem onto_alike {p : Pairing} {r r' : EStateM.Result CompileError Heap Component}
    (hr : CompilesAlike id id p r r') (c c' : Compiler) :
    CompilesAlike heap heap p (c.onto r) (c'.onto r') := by
  cases hr with
  | ok hc hh => exact .ok hc hh
  | error he hh => exact .error he hh

/-- Compilers that get the same template for a definition's markup compile it alike. -/
theorem compile_alike {p : Pairing} {c c' : Compiler} (hh : Heap.Alike p c.heap c'.heap)
    (hw : FieldsAlike Value.Alike p c.whitelist.bindings c'.whitelist.bindings)
    (hsettings : c.settings = c'.settings) {definition : String}
    (hprepare : ∀ blocks, Definition.Blocks.ofText definition = .ok blocks →
      (c.prepare blocks.markup).1 = (c'.prepare blocks.markup).1)
    (data : NodeData) (store : NodeStore) :
    ∃ q, CompilesAlike heap heap q (compile definition data store c)
      (compile definition data store c') := by
  cases hblocks : Definition.Blocks.ofText definition with
  | error why =>
    rw [compile_of_missing _ _ _ _ hblocks, compile_of_missing _ _ _ _ hblocks]
    exact ⟨p, .error (.missingMarkup why) hh⟩
  | ok blocks =>
    have hsame := hprepare blocks hblocks
    cases ht : (c.prepare blocks.markup).1 with
    | error fault =>
      rw [compile_of_fault _ _ _ _ hblocks ht, compile_of_fault _ _ _ _ hblocks (hsame ▸ ht)]
      exact ⟨p, .error (.template fault) hh⟩
    | ok t =>
      obtain ⟨q, hq⟩ := Component.ofLogic_alike hh hw c.settings.limits t blocks.logic data store
      rw [compile_of_template _ _ _ _ hblocks ht, compile_of_template _ _ _ _ hblocks (hsame ▸ ht),
        ← hsettings]
      exact ⟨q, onto_alike hq _ _⟩

end Compiler

/-! ### Hosts -/

/-- The markup that an operation compiles. -/
def Operation.markup? : Operation → Option String
  | .compile definition _ _ =>
    match Definition.Blocks.ofText definition with
    | .ok blocks => some blocks.markup
    | .error _ => none
  | _ => none

namespace Host

/-- A host whose compiler is new and has the standard whitelist. -/
def standard (settings : Compiler.Settings) (h : Heap) : Host :=
  start (.new settings (Whitelist.standard h).1 (Whitelist.standard h).2)

/-- The definition's markup has the digest of other markup that was compiled. -/
def Confuses (history : List Operation) (definition : String) : Prop :=
  ∃ blocks, Definition.Blocks.ofText definition = .ok blocks ∧
    ∃ other ∈ history.filterMap Operation.markup?, other ≠ blocks.markup ∧
      Compiler.Cache.key other = Compiler.Cache.key blocks.markup

/-- A host that a compiler has become, which has compiled some markup since. -/
structure Continues (c : Compiler) (markups : List String) (s : Host) : Prop where
  whitelist : s.compiler.whitelist = c.whitelist
  settings : s.compiler.settings = c.settings
  keeps : s.compiler.cache.Keeps markups

namespace Continues

variable {c : Compiler} {markups : List String} {s : Host} (hs : s.Continues c markups)

include hs

/-- Asking an instance leaves the compiler as it continues. -/
theorem ask {α : Type} (number : Nat) (x : Instance.Op α) :
    (s.ask number x).Continues c markups := by
  unfold Host.ask
  split
  · exact hs
  · exact ⟨hs.whitelist, hs.settings, hs.keeps⟩

/-- Compiling keeps the template of the markup at most. -/
theorem compile (definition : String) (data : NodeData) (store : NodeStore)
    (hmarkup : ∀ blocks, Definition.Blocks.ofText definition = .ok blocks →
      blocks.markup ∈ markups) :
    (s.step (.compile definition data store)).Continues c markups := by
  have hprepared (markup : String) (hmarkup : markup ∈ markups) :
      ((s.compiler.prepare markup).2).Keeps markups := by
    unfold Compiler.prepare
    split
    · exact hs.keeps.compile hmarkup
    · exact hs.keeps
  unfold Host.step
  rcases Compiler.left_compile_cases definition data store s.compiler with
    ⟨why, -, hleft⟩ | ⟨blocks, h, hblocks, hleft, -⟩
  · dsimp only
    rw [hleft]
    exact hs
  · dsimp only
    rw [hleft]
    exact ⟨hs.whitelist, hs.settings, hprepared _ (hmarkup blocks hblocks)⟩

/-- Every operation leaves the compiler as it continues. -/
theorem step (operation : Operation)
    (hmarkup : ∀ markup, operation.markup? = some markup → markup ∈ markups) :
    (s.step operation).Continues c markups := by
  have hheap (h : Heap) : (s.withHeap h).Continues c markups :=
    ⟨hs.whitelist, hs.settings, hs.keeps⟩
  cases operation with
  | compile definition data store =>
    refine hs.compile definition data store fun blocks hblocks ↦ hmarkup _ ?_
    simp only [Operation.markup?, hblocks]
  | clearCache => exact ⟨hs.whitelist, hs.settings, s.compiler.cache.keeps_clear markups⟩
  | evaluate whitelist limits body data store => exact hheap _
  | interpret run task => exact hheap _
  | mount component =>
    unfold Host.step
    dsimp only
    split
    · exact ⟨hs.whitelist, hs.settings, hs.keeps⟩
    · exact hheap _
  | get number key => exact hs.ask number _
  | render number => exact hs.ask number _
  | stateJson number => exact hs.ask number _
  | trigger number id event => exact hs.ask number _
  | callMethod number name args => exact hs.ask number _
  | unmount number => exact hs.ask number _

end Continues

/-- After a history the templates that are kept are those of the markup in it. -/
theorem continues_after {c : Compiler} {markups : List String} (history : List Operation) :
    ∀ {s : Host}, s.Continues c markups →
      (∀ markup ∈ history.filterMap Operation.markup?, markup ∈ markups) →
      (s.after history).Continues c markups := by
  induction history with
  | nil => exact fun hs _ ↦ hs
  | cons operation rest ih =>
    intro s hs hmarkups
    refine ih (hs.step operation fun markup hmarkup ↦ hmarkups markup ?_) fun markup hmarkup ↦
      hmarkups markup ?_
    · exact List.mem_filterMap.2 ⟨operation, List.mem_cons_self, hmarkup⟩
    · obtain ⟨other, hother, hmarkup⟩ := List.mem_filterMap.1 hmarkup
      exact List.mem_filterMap.2 ⟨other, List.mem_cons_of_mem _ hother, hmarkup⟩

/-- So does every history. -/
theorem continues_standard (settings : Compiler.Settings) (h : Heap) (history : List Operation) :
    ((standard settings h).after history).Continues (standard settings h).compiler
      (history.filterMap Operation.markup?) :=
  continues_after history ⟨rfl, rfl, fun _ he ↦ absurd he List.not_mem_nil⟩ fun _ hmarkup ↦ hmarkup

/-- A host gets the template that a definition's markup compiles to, unless it confuses the markup
with other. -/
theorem Continues.prepare_eq {c : Compiler} {s : Host} {markups : List String}
    (hs : s.Continues c markups) {markup : String}
    (hdistinct : c.settings.keepsTemplates = true → ∀ other ∈ markups, other ≠ markup →
      Compiler.Cache.key other ≠ Compiler.Cache.key markup) :
    (s.compiler.prepare markup).1 = Template.ofMarkup markup := by
  refine Compiler.prepare_eq fun hkeeps ↦ ?_
  rcases hs.keeps.compile_eq markup with heq | ⟨other, hother, hne, hkey⟩
  · exact heq
  · exact absurd hkey (hdistinct (hs.settings ▸ hkeeps) other hother hne)

/-- Two histories of hosts that have the standard whitelist leave it on heaps that are alike. -/
theorem exists_lasting_after (settings : Compiler.Settings) (h h' : Heap)
    (history history' : List Operation) :
    ∃ p : Pairing, p.Lasting ((standard settings h).after history).heap ∧
      Heap.Alike p ((standard settings h).after history).heap
        ((standard settings h').after history').heap ∧
      FieldsAlike Value.Alike p (Whitelist.standard h).1.bindings
        (Whitelist.standard h').1.bindings := by
  obtain ⟨p, hp, hh, hw⟩ := standard_lasting h h'
  have hlater := ((sound_start _).after history (s := standard settings h)).later
  have hlater' := ((sound_start _).after history' (s := standard settings h')).later
  exact ⟨p, hp.later hlater, hp.alike hh hlater hlater', hw⟩

/-- Hosts that have the standard whitelist compile a definition alike. -/
theorem compile_after_alike {settings : Compiler.Settings} (h h' : Heap)
    {history history' : List Operation} {definition : String}
    (hconfuses : settings.keepsTemplates = true → ¬Confuses (history ++ history') definition)
    (data : NodeData) (store : NodeStore) :
    ∃ q, CompilesAlike Compiler.heap Compiler.heap q
      (Compiler.compile definition data store ((standard settings h).after history).compiler)
      (Compiler.compile definition data store ((standard settings h').after history').compiler) := by
  obtain ⟨p, hp, hh, hw⟩ := exists_lasting_after settings h h' history history'
  have hs := continues_standard settings h history
  have hs' := continues_standard settings h' history'
  refine Compiler.compile_alike hh ?_ (hs.settings.trans hs'.settings.symm)
    (fun blocks hblocks ↦ ?_) data store
  · rw [hs.whitelist, hs'.whitelist]
    exact hw
  · have hmarkups : (history ++ history').filterMap Operation.markup? =
      history.filterMap Operation.markup? ++ history'.filterMap Operation.markup? :=
      List.filterMap_append
    have hdistinct (hkeeps : settings.keepsTemplates = true) (other : String)
        (hother : other ∈ (history ++ history').filterMap Operation.markup?)
        (hne : other ≠ blocks.markup) :
        Compiler.Cache.key other ≠ Compiler.Cache.key blocks.markup :=
      fun hkey ↦ hconfuses hkeeps ⟨blocks, hblocks, other, hother, hne, hkey⟩
    rw [hs.prepare_eq fun hkeeps other hother ↦ hdistinct hkeeps other
        (hmarkups ▸ List.mem_append_left _ hother),
      hs'.prepare_eq fun hkeeps other hother ↦ hdistinct hkeeps other
        (hmarkups ▸ List.mem_append_right _ hother)]

/-- Whatever a host does, an object that is frozen keeps its fields. What one comes by from the
standard whitelist is fixed at any time, and hosts that have it compile alike whatever they have
done before: the same parts, and the same definition, as long as no two templates that are kept go
by the same digest. -/
theorem histories_leave_no_trace :
    (∀ (c : Compiler) (earlier later : List Operation) (o : ObjectId),
      (((start c).after earlier).heap.object o).frozen = true →
      ((start c).after (earlier ++ later)).heap.object o =
        ((start c).after earlier).heap.object o) ∧
    ∀ (settings : Compiler.Settings) (h h' : Heap) (history history' : List Operation),
      (∀ v, (Whitelist.standard h).1.Reaches ((standard settings h).after history).heap v →
        ((standard settings h).after history).heap.Fixed v) ∧
      (∀ (limits : Limits) (markup logic : String) (data : NodeData) (store : NodeStore),
        ∃ q, CompilesAlike id id q
          (Component.ofParts (Whitelist.standard h).1 limits markup logic data store
            ((standard settings h).after history).heap)
          (Component.ofParts (Whitelist.standard h').1 limits markup logic data store
            ((standard settings h').after history').heap)) ∧
      ∀ (definition : String) (data : NodeData) (store : NodeStore),
        (settings.keepsTemplates = true → ¬Confuses (history ++ history') definition) →
        ∃ q, CompilesAlike Compiler.heap Compiler.heap q
          (Compiler.compile definition data store ((standard settings h).after history).compiler)
          (Compiler.compile definition data store
            ((standard settings h').after history').compiler) := by
  refine ⟨fun c earlier later o ho ↦ ?_, fun settings h h' history history' ↦ ⟨fun v hv ↦ ?_, ?_, ?_⟩⟩
  · have hsound := ((sound_start c).after earlier).sound
    rw [after_append]
    exact (hsound.after later).later.frozen ho
  · obtain ⟨p, hp, hh, hw⟩ := exists_lasting_after settings h h history history
    exact hp.fixed_of_reaches hh hw hv
  · intro limits markup logic data store
    obtain ⟨p, -, hh, hw⟩ := exists_lasting_after settings h h' history history'
    exact Component.ofParts_alike hh hw limits markup logic data store
  · exact fun definition data store hconfuses ↦ compile_after_alike h h' hconfuses data store

/-- A definition whose logic tries to take a capability from the others. -/
def greedyDefinition : String :=
  "<template><p></p></template><script>delete Vue.ref; Vue.watch = 1;</script>"

/-- It finds the namespace as it was, and compiles as before. -/
theorem histories_leave_no_trace_greedy :
    (((start (standard .standard .empty).compiler).after []).heap.object ⟨0⟩).frozen = true ∧
      ((standard .standard .empty).after [.compile greedyDefinition [] []]).heap.object ⟨0⟩ =
        (standard .standard .empty).heap.object ⟨0⟩ ∧
      ¬Confuses [.compile greedyDefinition [] []] greedyDefinition ∧
      ∃ q, CompilesAlike Compiler.heap Compiler.heap q
        (Compiler.compile greedyDefinition [] []
          ((standard .standard .empty).after [.compile greedyDefinition [] []]).compiler)
        (Compiler.compile greedyDefinition [] [] (standard .standard .empty).compiler) := by
  have hfrozen :
      (((start (standard .standard .empty).compiler).after []).heap.object ⟨0⟩).frozen = true :=
    rfl
  have hconfuses : ¬Confuses [.compile greedyDefinition [] []] greedyDefinition := by
    rintro ⟨blocks, hblocks, other, hother, hne, -⟩
    simp only [List.filterMap_cons, Operation.markup?, hblocks, List.filterMap_nil,
      List.mem_singleton] at hother
    exact hne hother
  obtain ⟨hobjects, hcompiles⟩ := histories_leave_no_trace
  obtain ⟨-, -, hcompile⟩ := hcompiles .standard .empty .empty [.compile greedyDefinition [] []] []
  exact ⟨hfrozen, hobjects _ [] [.compile greedyDefinition [] []] ⟨0⟩ hfrozen, hconfuses,
    hcompile greedyDefinition [] [] fun _ ↦ hconfuses⟩

end Host

end Nodecraft
