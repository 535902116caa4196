import Nodecraft.Proofs.Component.Evaluation

/-!
# Logic sees no more of a whitelist than it names

Two whitelists that bind the same values to the names that occur in some logic give it the same
options or the same error, with the same effects, and whatever functions are called afterwards do
the same (`evaluate_isolated`). The heaps differ in bindings of names that do not occur in the logic, in
the scopes that were made for it, and in nothing else (`Heap.AgreesOn`).

Two runs are compared along a pairing of every cell with itself (`Isolates`), in which code under the
root scope of the logic may mention what the logic mentions and nothing else. A name that the logic
does not declare, that is not whitelisted and not one of the node's two never comes to mean anything
there: a run that is broken off where it does (`Stop.binds`) goes on to the end.
-/

set_option autoImplicit false

namespace Nodecraft.Sandbox

open Script Evaluation

/-! ### Heaps that agree on some names -/

/-- Scopes that differ in no more than bindings of names that are not known. -/
structure Scope.AgreesOn (known : String → Prop) (scope scope' : Scope) : Prop where
  binding {name : String} : known name → scope.bindings.get? name = scope'.bindings.get? name
  parent : scope.parent = scope'.parent
  fallback : scope.fallback = scope'.fallback
  self : scope.self = scope'.self
  isFunction : scope.isFunction = scope'.isFunction

/-- Heaps that differ in no more than bindings of names that are not known in their scope. -/
structure Heap.AgreesOn (known : Nat → String → Prop) (h h' : Heap) : Prop where
  arrays : h.arrays = h'.arrays
  objects : h.objects = h'.objects
  functions : h.functions = h'.functions
  switches : h.switches = h'.switches
  scopes : h.scopes.size = h'.scopes.size
  scope (s : ScopeId) : (h.scope s).AgreesOn (known s.index) (h'.scope s)

/-! ### What is asked of functions later -/

/-- What is asked of an interpreter after some logic has been evaluated. -/
inductive Request
  | call (f self : Value) (args : List Value)
  /-- Calls what has been deferred. -/
  | settle

def Request.task : Request → Task
  | .call f self args => .enter (.call f self args)
  | .settle => .flushTicks

/-- The answers to requests, each with a run of its own and what becomes of it, and the heap at
the end. -/
def serve (m : Machine) : List (Run × Request) → Heap →
    List (Except Failure (Option Value) × Run) × Heap
  | [], h => ([], h)
  | (run, request) :: rest, h =>
    let answer := request.task.run m ⟨h, run⟩
    let later := serve m rest (finalWorld answer).heap
    ((ending answer, (finalWorld answer).run) :: later.1, later.2)

/-- Evaluations with the same result, which requests on the two machines find no difference
between. -/
structure SameFromThenOn {α : Type} (known : Nat → String → Prop) (m m' : Machine)
    (r r' : EStateM.Result Failure Heap α) : Prop where
  ending : ending r = ending r'
  heap : (heapOf r).AgreesOn known (heapOf r')
  answers (requests : List (Run × Request)) :
    (serve m requests (heapOf r)).1 = (serve m' requests (heapOf r')).1
  later (requests : List (Run × Request)) :
    (serve m requests (heapOf r)).2.AgreesOn known (serve m' requests (heapOf r')).2

/-! ### Pairings that isolate -/

/-- Every cell is its own counterpart. Everything may be mentioned in the oldest scopes, and certain
names everywhere. -/
structure Isolates (old : Nat) (ns : List String) (p : Pairing) (h h' : Heap) : Prop where
  alike : Heap.Alike p h h'
  aligned : p.aligned = true
  reflexive : p.Reflexive
  scope {s : Nat} : s < h.scopes.size → p.scope s s
  older_le : old ≤ h.scopes.size
  older {s : Nat} : s < old → ∀ m, p.allows s m
  uses {s : Nat} {name : String} : s < h.scopes.size → name ∈ ns → p.allows s (.use name)

/-- The bindings that two runs have in common: all those of old scopes, and those of names that
both mention. -/
def commonBindings (old : Nat) (ns : List String) (s : Nat) (name : String) : Prop :=
  s < old ∨ name ∈ ns

namespace Isolates

variable {old : Nat} {ns : List String} {p q : Pairing} {h h' h₁ h₁' : Heap}

/-- What scripts do keeps runs isolated. -/
theorem next (hi : Isolates old ns p h h') (hm : Heap.Moves p h q h₁ h₁') :
    Isolates old ns q h₁ h₁' := by
  have haligned : q.aligned = true := hm.grows.aligned.trans hi.aligned
  have hcovers {s : Nat} (hs : s < h₁.scopes.size) : q.scope s s := by
    by_cases hold : s < h.scopes.size
    · exact hm.grows.scopes.mono (hi.scope hold)
    · obtain ⟨s', hs'⟩ := hm.grows.scopes.covered (Nat.le_of_not_lt hold) hs
      rwa [← (hm.alike.diagonal haligned).scope hs'] at hs'
  exact {
    alike := hm.alike
    aligned := haligned
    reflexive := hi.reflexive.mono hm.grows.le
    scope := hcovers
    older_le := Nat.le_trans hi.older_le hm.grows.scopes.size_le
    older := fun hs m ↦ (hm.grows.allows (hi.scope (Nat.lt_of_lt_of_le hs hi.older_le)) m).2
      (hi.older hs m)
    uses := fun {s name} hs hname ↦ by
      obtain ⟨t, t', ht, hallows⟩ := hm.grows.origin (hcovers hs)
      refine (hallows _).2 ?_
      by_cases hold : t < h.scopes.size
      · exact hi.uses hold hname
      · exact hi.alike.total ht (Nat.le_of_not_lt hold) _ _ }

/-- Heaps that are isolated agree on the names that have kept their bindings. -/
theorem agreesOn (hi : Isolates old ns p h h') :
    h.AgreesOn (commonBindings old ns) h' := by
  have hp := hi.alike.diagonal hi.aligned
  have hsize := hi.alike.measured.straight hi.aligned
  have hcells {α : Type} {d : α} {R : Nat → Nat → Prop} {C : Nat → α → α → Prop}
      {xs xs' : Array α} (hc : Cells.Alike d R C xs xs') (hR : ∀ i, R i i)
      (hxs : xs.size = xs'.size) (hC : ∀ {i x x'}, C i x x' → x = x') : xs = xs' := by
    refine Array.ext hxs fun i hi hi' ↦ ?_
    have := hC (hc.content (hR i))
    rwa [Array.getD, Array.getD, dif_pos hi, dif_pos hi'] at this
  exact {
    arrays := hcells hi.alike.arrays hi.reflexive.array hsize.arrays.1 fun hx ↦
      ArrayAlike.eq hx (Value.Alike.eq hp)
    objects := hcells hi.alike.objects hi.reflexive.object hsize.objects.1 (Object.Alike.eq hp)
    functions := hcells hi.alike.functions hi.reflexive.function hsize.functions.1
      (Function.Alike.eq hp)
    switches := hcells hi.alike.switches hi.reflexive.switch hsize.switches.1 id
    scopes := hsize.scopes.1
    scope := fun s ↦ by
      by_cases hs : s.index < h.scopes.size
      · have ha := hi.alike.scope (hi.scope hs)
        exact {
          binding := fun hname ↦ OptionAlike.eq (ha.binding (hname.elim
            (fun hold ↦ hi.older hold _) (hi.uses hs))) (Binding.Alike.eq hp)
          parent := ha.parent_eq hp
          fallback := OptionAlike.eq ha.fallback (Value.Alike.eq hp)
          self := OptionAlike.eq ha.self (Value.Alike.eq hp)
          isFunction := ha.isFunction }
      · have hs' : ¬s.index < h'.scopes.size := by rwa [← hsize.scopes.1]
        unfold Heap.scope
        rw [Cells.getD_of_le (Nat.le_of_not_lt hs), Cells.getD_of_le (Nat.le_of_not_lt hs')]
        exact ⟨fun _ ↦ rfl, rfl, rfl, rfl, rfl⟩ }

/-- In heaps that are isolated, one run is alike on both sides. -/
theorem worldAlike (hi : Isolates old ns p h h') (r : Run) : World.Alike p ⟨h, r⟩ ⟨h', r⟩ :=
  ⟨hi.alike, Run.Alike.refl hi.reflexive r⟩

/-- Actions that are alike end the same, and leave runs isolated. -/
theorem run (hi : Isolates old ns p h h') {α : Type} {Q : Pairing → α → α → Prop}
    {x y : Action α} (hx : Action.Alike p Q x y)
    (hQ : ∀ {q : Pairing}, q.Diagonal → ∀ {a b}, Q q a b → a = b) (r : Run) :
    (∃ q, p ≤ q ∧ Isolates old ns q (finalWorld (x ⟨h, r⟩)).heap (finalWorld (y ⟨h', r⟩)).heap) ∧
      ending (x ⟨h, r⟩) = ending (y ⟨h', r⟩) ∧
      (finalWorld (x ⟨h, r⟩)).run = (finalWorld (y ⟨h', r⟩)).run := by
  obtain ⟨q, hg, hr⟩ := hx p (Pairing.le_refl p) _ _ (hi.worldAlike r)
  have hheap := hr.finalWorld
  have hnext : Isolates old ns q _ _ := hi.next ⟨hg, hheap.heap⟩
  have hq := hheap.heap.diagonal hnext.aligned
  refine ⟨⟨q, hg.le, hnext⟩, ?_, hheap.run.eq hq⟩
  generalize x ⟨h, r⟩ = left, y ⟨h', r⟩ = right at hr
  cases hr with
  | ok hab _ => exact congrArg Except.ok (hQ hq hab)
  | error he _ => exact congrArg Except.error (he.eq hq)

/-- Requests are answered alike. -/
theorem serve {m m' : Machine} (requests : List (Run × Request)) :
    ∀ {p : Pairing} {h h' : Heap}, Isolates old ns p h h' → Machine.Alike p m m' →
      (Sandbox.serve m requests h).1 = (Sandbox.serve m' requests h').1 ∧
        (Sandbox.serve m requests h).2.AgreesOn (commonBindings old ns)
          (Sandbox.serve m' requests h').2 := by
  induction requests with
  | nil => exact fun hi _ ↦ ⟨rfl, hi.agreesOn⟩
  | cons entry rest ih =>
    intro p h h' hi hm
    obtain ⟨r, request⟩ := entry
    have htask : Task.Alike p request.task request.task := by
      cases request with
      | call f self args =>
        exact .enter (.call (Value.Alike.refl hi.reflexive f)
          (Value.Alike.refl hi.reflexive self) (ListAlike.refl (Value.Alike.refl hi.reflexive) args))
      | settle => exact .flushTicks
    obtain ⟨⟨q, hle, hnext⟩, hending, hrun⟩ := hi.run (hm.run htask)
      (fun hq _ _ ha ↦ OptionAlike.eq ha (Value.Alike.eq hq)) r
    obtain ⟨hanswers, hheap⟩ := ih hnext (hm.mono hle)
    exact ⟨List.cons_eq_cons.2 ⟨Prod.ext hending hrun, hanswers⟩, hheap⟩

/-- Ends in isolated heaps are the same for all calls that follow. -/
theorem sameFromThenOn {α : Type} {r r' : EStateM.Result Failure Heap α}
    (hi : Isolates old ns p (heapOf r) (heapOf r')) {m m' : Machine}
    (hm : Machine.Alike p m m') (hr : Sandbox.ending r = Sandbox.ending r') :
    SameFromThenOn (commonBindings old ns) m m' r r' where
  ending := hr
  heap := hi.agreesOn
  answers requests := (hi.serve requests hm).1
  later requests := (hi.serve requests hm).2

end Isolates

/-! ### Names without a meaning -/

/-- The scope is the root or one under it, at most `fuel` scopes down. -/
def Heap.isBelowWithin (h : Heap) (root : ScopeId) : Nat → ScopeId → Bool
  | 0, _ => false
  | fuel + 1, s => s == root || (h.scope s).parent.any (h.isBelowWithin root fuel)

def Heap.isBelow (h : Heap) (root s : ScopeId) : Bool := h.isBelowWithin root (s.index + 1) s

/-- The scope in which a machine is to run code. -/
def Query.scope? : Query → Option ScopeId
  | .eval s _ => some s
  | .link s _ => some s
  | .exec s _ => some s
  | .bind _ s _ _ => some s
  | _ => none

/-- Stops at code under the root scope that could find the name. -/
def Stop.binds (root : ScopeId) (name : String) : Stop := fun query w ↦
  query.scope?.any fun s ↦ w.heap.isBelow root s && (w.heap.resolve name s).isSome

/-- Under a scope the same is allowed as in it. -/
theorem Heap.Alike.allows_of_isBelow {p : Pairing} {h h' : Heap} (hh : Heap.Alike p h h')
    {root : ScopeId} (fuel : Nat) : ∀ {s s' : ScopeId}, p.scope s.index s'.index →
      h.isBelowWithin root fuel s → ∀ m, p.allows s.index m ↔ p.allows root.index m := by
  induction fuel with
  | zero => exact fun _ hbelow ↦ nomatch hbelow
  | succ fuel ih =>
    intro s s' hs hbelow m
    rcases Bool.or_eq_true_iff.1 hbelow with heq | hparent
    · rw [eq_of_beq heq]
    · have hp := hh.parent hs
      generalize (h.scope s).parent = t, (h'.scope s').parent = t' at hp hparent
      cases hp with
      | none => exact nomatch hparent
      | some ht => exact (ht.2.1 m).symm.trans (ih ht.1 hparent m)

/-- A name that is not to be declared is never bound. -/
theorem Stop.quiet_binds {p : Pairing} {root root' : ScopeId} {name : String}
    (hroot : p.scope root.index root'.index) (hname : ¬p.allows root.index (.declare name)) :
    Stop.Quiet p (Stop.binds root name) := by
  have hquiet {q : Pairing} {s s' : ScopeId} {w w' : World} (hle : p ≤ q)
      (hs : q.scope s.index s'.index) (hw : World.Alike q w w') :
      (w.heap.isBelow root s && (w.heap.resolve name s).isSome) = false := by
    cases hbelow : w.heap.isBelow root s with
    | false => rfl
    | true =>
      have hallows : ¬q.allows s.index (.declare name) := fun hd ↦
        hname ((hle.allows hroot _).1 ((hw.heap.allows_of_isBelow _ hs hbelow _).1 hd))
      rw [hw.heap.resolve_eq_none hs hallows]
      rfl
  exact {
    step := fun _ ↦ rfl
    room := fun _ ↦ rfl
    erase := fun _ _ _ ↦ rfl
    eval := fun hle hs hw ↦ hquiet hle hs.scope hw
    link := fun hle hs hw ↦ hquiet hle hs.scope hw
    exec := fun hle hs hw ↦ hquiet hle hs.scope hw
    bind := fun hle hs hw ↦ hquiet hle hs.scope hw
    invoke := fun _ _ _ _ ↦ rfl
    apply := fun _ _ _ _ ↦ rfl
    finish := fun _ _ _ ↦ rfl }

/-- With room, an expression is evaluated inside of an entry. -/
theorem Action.eval_apply (s : ScopeId) (e : Expr) :
    ∃ m : Machine, ∀ w : World, w.run.hasRoom →
      Action.eval s e w = mapWorld World.leave (expression m s e w.enter) := by
  have hpatience : patience ≠ 0 := Nat.ne_of_gt (Nat.pow_pos (Nat.succ_pos 1))
  obtain ⟨n, hn⟩ := Nat.exists_eq_succ_of_ne_zero hpatience
  refine ⟨machineWithin n, fun w hroom ↦ ?_⟩
  unfold Action.eval machine
  rw [hn]
  exact nested_of_hasRoom n _ hroom

/-- A name without a meaning is not found. -/
theorem Action.lookup_of_none {s : ScopeId} {name : String} {w : World}
    (h : w.heap.resolve name s = none) (call : Caller) :
    Action.lookup call name s w = .ok none w := by
  have hheap : Action.heap w = .ok w.heap w := rfl
  simp only [Action.lookup, Action.bind_apply, hheap, h]
  rfl

/-- Reading a name that means nothing is an error. -/
theorem Action.eval_name_of_none {s : ScopeId} {name : String} {w : World}
    (hroom : w.run.hasRoom) (h : w.heap.resolve name s = none) :
    ending (Action.eval s (.name name) w) = .error (.raised (.unbound name)) := by
  obtain ⟨m, hm⟩ := Action.eval_apply s (.name name)
  have hread : expression m s (.name name) w.enter =
      .error (.raised (.unbound name)) w.enter := by
    simp only [expression, Action.read, Action.bind_apply, Action.lookup_of_none (w := w.enter) h]
    rfl
  rw [hm w hroom, hread]
  rfl

/-- The type of a name that means nothing is known. -/
theorem Action.eval_typeof_of_none {s : ScopeId} {name : String} {w : World}
    (hroom : w.run.hasRoom) (h : w.heap.resolve name s = none) :
    ending (Action.eval s (.unary .typeof (.name name)) w) = .ok (.string "undefined") := by
  obtain ⟨m, hm⟩ := Action.eval_apply s (.unary .typeof (.name name))
  have htype : expression m s (.unary .typeof (.name name)) w.enter =
      .ok (.string "undefined") w.enter := by
    simp only [expression, unaryExpr, Action.bind_apply,
      Action.lookup_of_none (w := w.enter) h]
    rfl
  rw [hm w hroom, htype]
  rfl

end Nodecraft.Sandbox

namespace Nodecraft.Component

open Script Sandbox

/-! ### The first scope of some logic -/

section

variable (whitelist : Whitelist) (body : Block)

/-- What the code of some logic may mention: the names in it. It also has to do with the names that
the whitelist binds for it. -/
def allowedIn (node : Value × Value) : Mention → Prop
  | .use name => name ∈ names body
  | .declare name => name ∈ declared body ∨
      ((rootCell whitelist node).bindings.get? name).isSome

/-- The pairing of a heap with itself that some logic starts with. -/
def rootPairing (node : Value × Value) (n : Nat) : Pairing :=
  (Pairing.upTo n).withScope n n (allowedIn whitelist body node)

variable {whitelist body}

/-- A body runs in its root scope alike under every whitelist that agrees on its names. -/
theorem runs_root (node : Value × Value) (n : Nat) :
    (rootPairing whitelist body node n).Runs ⟨n⟩ ⟨n⟩ (blockMentions body) where
  scope := .inr ⟨rfl, rfl⟩
  allowed {m} hm := by
    refine (Pairing.withScope_allows_self m).2 ?_
    cases m with
    | use name => exact name_mem_names hm
    | declare name => exact .inl (mem_declared.2 hm)

/-- A name that the body neither declares nor is given is not declared in its root scope. -/
theorem not_declares_root {name : String} (hname : name ∉ declared body)
    (hwhitelist : whitelist.get? name = none) (hdata : name ≠ dataKey) (hlookup : name ≠ lookupKey)
    (node : Value × Value) (n : Nat) :
    ¬(rootPairing whitelist body node n).allows n (.declare name) := by
  intro hd
  rcases (Pairing.withScope_allows_self _).1 hd with hd | hbound
  · exact hname hd
  · rw [get?_rootCell, if_neg hlookup, if_neg hdata, hwhitelist] at hbound
    exact nomatch hbound

/-- The heaps with the root scopes for two whitelists that agree on the names of some logic. -/
theorem isolates_root {whitelist' : Whitelist} {h : Heap} (hh : h.Closed)
    (hnames : ∀ name ∈ names body, whitelist.get? name = whitelist'.get? name)
    (node : Value × Value) :
    Isolates h.scopes.size (names body) (rootPairing whitelist body node h.scopes.size)
      (h.newScope (rootCell whitelist node)).2 (h.newScope (rootCell whitelist' node)).2 := by
  have hbase := hh.alike_upTo
  have hreflexive := Pairing.reflexive_upTo h.scopes.size
  have hpast (hall : ∀ t m, (Pairing.upTo h.scopes.size).allows t m) : False :=
    Nat.lt_irrefl _ (hall h.scopes.size (.use ""))
  have hle := hbase.le_withScope (allowedIn whitelist body node)
    fun hall ↦ (hpast hall).elim
  exact {
    alike := hbase.newScope (fun hall ↦ (hpast hall).elim) {
      binding := fun {name} hname ↦ by
        rw [get?_rootCell, get?_rootCell, hnames name hname]
        exact OptionAlike.refl (fun b ↦ ⟨Value.Alike.refl hreflexive b.value, rfl⟩) _
      parent := .none
      fallback := .none
      self := .none
      isFunction := rfl
      unbound := fun {name} hname ↦ ⟨Option.isNone_iff_eq_none.1
        (Option.not_isSome_iff_eq_none.1 (fun hs ↦ hname (.inr hs)) ▸ rfl), rfl⟩ }
    aligned := rfl
    reflexive := hreflexive.mono hle
    scope := fun {s} hs ↦ by
      rw [show (h.newScope (rootCell whitelist node)).2.scopes.size = h.scopes.size + 1 by
        simp [Heap.newScope]] at hs
      rcases Nat.lt_succ_iff_lt_or_eq.1 hs with hold | rfl
      · exact .inl ⟨rfl, hold⟩
      · exact .inr ⟨rfl, rfl⟩
    older_le := by simp [Heap.newScope]
    older := fun hs m ↦ (Pairing.withScope_allows_of_ne (Nat.ne_of_lt hs) m).2 hs
    uses := fun {s name} hs hname ↦ by
      by_cases heq : s = h.scopes.size
      · rw [heq]
        exact (Pairing.withScope_allows_self _).2 hname
      · have hsize : s < h.scopes.size + 1 := by simpa [Heap.newScope] using hs
        exact (Pairing.withScope_allows_of_ne heq _).2 (by change s < h.scopes.size; omega) }

/-- A closed heap is isolated from itself. -/
theorem isolates_closed {h : Heap} (hh : h.Closed) (ns : List String) :
    Isolates h.scopes.size ns (Pairing.upTo h.scopes.size) h h where
  alike := hh.alike_upTo
  aligned := rfl
  reflexive := Pairing.reflexive_upTo _
  scope hs := ⟨rfl, hs⟩
  older_le := Nat.le_refl _
  older hs _ := hs
  uses hs _ := hs

end

/-! ### Evaluations -/

/-- An evaluation that has no reason to stop is that with another whitelist, as long as both bind
the same to what the logic names. -/
theorem evaluateOn_same {h : Heap} (hh : h.Closed) (limits : Limits) {body : Logic.Body}
    (hbody : body.program ≠ []) (data : NodeData) (store : NodeStore)
    {whitelist whitelist' : Whitelist}
    (hnames : ∀ name ∈ names body.program, whitelist.get? name = whitelist'.get? name)
    {stop : Stop} (hstop : ∀ node,
      Stop.Quiet (rootPairing whitelist body.program node h.scopes.size) stop) :
    SameFromThenOn (commonBindings h.scopes.size (names body.program)) (probe stop patience) machine
      (evaluateOn (probe stop patience) whitelist limits body data store h)
      (evaluate whitelist' limits body data store h) := by
  let cells := nodeCells data store (h.ofData data).2
  have hsize : cells.2.scopes.size = h.scopes.size := size_rootCells data store h
  have hstart : Isolates h.scopes.size (names body.program)
      (rootPairing whitelist body.program cells.1 h.scopes.size)
      (cells.2.newScope (rootCell whitelist cells.1)).2
      (cells.2.newScope (rootCell whitelist' cells.1)).2 := by
    rw [← hsize]
    exact isolates_root (closed_nodeCells (closed_ofData hh data) data store) hnames cells.1
  have hmachine := probe_alike (hstop cells.1) patience
  obtain ⟨⟨q, hle, hend⟩, hsame, -⟩ := hstart.run
    (optionsOf_alike hmachine (runs_root cells.1 h.scopes.size)) Options.Alike.eq
    (Run.start limits (h.ofData data).1)
  rw [← evaluateOn_machine, evaluateOn_of_ne_nil _ _ _ hbody, evaluateOn_of_ne_nil _ _ _ hbody]
  refine Isolates.sameFromThenOn (p := q) ?_ (hmachine.mono hle) ?_
  · rw [heapOf_onHeap, heapOf_onHeap]
    exact hend
  · rw [ending_onHeap, ending_onHeap]
    exact hsame

/-- Logic gives the same result with whitelists that bind the same values to the names that occur
in it, and has the same effects but for bindings that it never names, also when functions are called
afterwards. A name that it does not declare, that is not whitelisted and not one of the node's
means nothing wherever its code runs: reading it there, where there is room for the entry, is an error,
and its type is `undefined`. -/
theorem evaluate_isolated {h : Heap} (hh : h.Closed) (limits : Limits) (body : Logic.Body)
    (data : NodeData) (store : NodeStore) (whitelist whitelist' : Whitelist)
    (hnames : ∀ name ∈ names body.program, whitelist.get? name = whitelist'.get? name) :
    SameFromThenOn (commonBindings h.scopes.size (names body.program)) machine machine
        (evaluate whitelist limits body data store h)
        (evaluate whitelist' limits body data store h) ∧
      ∀ name, name ∉ declared body.program → whitelist.get? name = none → name ≠ dataKey →
        name ≠ lookupKey →
        (body.program ≠ [] →
          SameFromThenOn (commonBindings h.scopes.size (names body.program))
            (probe (Stop.binds ⟨h.scopes.size⟩ name) patience) machine
            (evaluateOn (probe (Stop.binds ⟨h.scopes.size⟩ name) patience) whitelist limits body
              data store h)
            (evaluate whitelist limits body data store h)) ∧
        ∀ (s : ScopeId) (w : World), w.run.hasRoom → w.heap.resolve name s = none →
          ending (Action.eval s (.name name) w) = .error (.raised (.unbound name)) ∧
          ending (Action.eval s (.unary .typeof (.name name)) w) = .ok (.string "undefined") := by
  refine ⟨?_, fun name hdeclared hwhitelist hdata hlookup ↦ ⟨fun hbody ↦ ?_, fun s w hroom hnone ↦
    ⟨Action.eval_name_of_none hroom hnone, Action.eval_typeof_of_none hroom hnone⟩⟩⟩
  · by_cases hbody : body.program = []
    · rw [← evaluateOn_machine, evaluateOn_of_nil _ _ _ hbody, evaluateOn_of_nil _ _ _ hbody]
      exact (isolates_closed hh _).sameFromThenOn (machine_alike _ patience) rfl
    · have hsame := evaluateOn_same hh limits hbody data store hnames
        fun _ ↦ Stop.quiet_never
      rwa [probe_never, ← machine, evaluateOn_machine] at hsame
  · exact evaluateOn_same hh limits hbody data store (fun _ _ ↦ rfl) fun node ↦
      Stop.quiet_binds (.inr ⟨rfl, rfl⟩)
        (not_declares_root hdeclared hwhitelist hdata hlookup node h.scopes.size)

/-- Logic whose setup returns a capability. -/
def refLogic : Logic.Body where
  form := .optionsLiteral
  source := "return ({ setup: () => ref });"
  program := [.return (some (.object [.entry (.fixed "setup")
    (.function (.make none [] none [.return (some (.name "ref"))] true))]))]

/-- The setup cannot tell whether there is another capability, and does not reach it. -/
theorem evaluate_isolated_refLogic :
    Heap.empty.Closed ∧
      (∀ name ∈ names refLogic.program, Whitelist.get? ⟨[("ref", .bool true)], true⟩ name =
        Whitelist.get? ⟨[("ref", .bool true), ("fetch", .null)], true⟩ name) ∧
      "fetch" ∉ declared refLogic.program ∧
      SameFromThenOn (commonBindings 0 ["ref"]) machine machine
        (evaluate ⟨[("ref", .bool true)], true⟩ .standard refLogic [] [] .empty)
        (evaluate ⟨[("ref", .bool true), ("fetch", .null)], true⟩ .standard refLogic [] [] .empty) ∧
      SameFromThenOn (commonBindings 0 ["ref"]) (probe (Stop.binds ⟨0⟩ "fetch") patience) machine
        (evaluateOn (probe (Stop.binds ⟨0⟩ "fetch") patience) ⟨[("ref", .bool true)], true⟩
          .standard refLogic [] [] .empty)
        (evaluate ⟨[("ref", .bool true)], true⟩ .standard refLogic [] [] .empty) := by
  have hnames : ∀ name ∈ names refLogic.program,
      Whitelist.get? ⟨[("ref", .bool true)], true⟩ name =
        Whitelist.get? ⟨[("ref", .bool true), ("fetch", .null)], true⟩ name := by
    intro name hname
    obtain rfl : name = "ref" := List.mem_singleton.1 hname
    rfl
  have hdeclared : "fetch" ∉ declared refLogic.program := List.not_mem_nil
  obtain ⟨hsame, hunbound⟩ := evaluate_isolated Heap.closed_empty .standard refLogic [] []
    ⟨[("ref", .bool true)], true⟩ ⟨[("ref", .bool true), ("fetch", .null)], true⟩ hnames
  exact ⟨Heap.closed_empty, hnames, hdeclared, hsame,
    (hunbound "fetch" hdeclared rfl (by decide) (by decide)).1 (List.cons_ne_nil _ _)⟩

end Nodecraft.Component
