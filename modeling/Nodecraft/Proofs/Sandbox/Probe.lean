import Nodecraft.Proofs.Sandbox.Methods
import Nodecraft.Proofs.Sandbox.Rules

/-!
# Tying the recursion, and probing runs

A probe follows the rules of evaluation, but is broken off as soon as its machine is asked a
query in a world it is to stop at. So a run that ends by itself comes to such a query exactly if
the probe of the run is broken off. The probe that never stops is the machine itself
(`probe_never`).

`Machine.Related.probing` ties the recursion for relations between actions: if the answers of two
probes are related, so are the answers by the rules over these probes. Together with the
relation of the two probes that answer nothing, it relates all probes, and the three ways into an
interpreter (`Entry`) with them.

Most primitive actions neither look at a run's limits and counters nor change them, and they fail
only in ways that a script could catch. For a relation between actions it is enough
to hold of these neutral actions and to be kept by the combinations: then it is a congruence
(`Congruence.ofNeutral`).
-/

set_option autoImplicit false

namespace Nodecraft.Sandbox

open Script Evaluation

/-- The limits and counters of a run. -/
structure Counters where
  limits : Limits
  depth : Nat
  steps : Nat
  nesting : Nat

def World.counters (w : World) : Counters := ⟨w.run.limits, w.run.depth, w.run.steps, w.run.nesting⟩

def World.withCounters (c : Counters) (w : World) : World :=
  { w with run := { w.run with
      limits := c.limits, depth := c.depth, steps := c.steps, nesting := c.nesting } }

@[simp] theorem World.withCounters_counters (w : World) : w.withCounters w.counters = w := rfl

@[simp] theorem World.counters_withCounters (c : Counters) (w : World) :
    (w.withCounters c).counters = c := rfl

/-- The code of every function is of an admitted kind. -/
def Heap.Within (Admits : FunctionDef → Prop) (h : Heap) : Prop :=
  ∀ fn ∈ h.functions, fn.Within Admits

/-- Functions that are not in the store have no code, so they are within every bound. -/
theorem Heap.Within.function {Admits : FunctionDef → Prop} {h : Heap} (hh : h.Within Admits)
    (f : FunctionId) : (h.function f).Within Admits := by
  unfold Heap.function
  rw [Array.getD_eq_getD_getElem?]
  cases hf : h.functions[f.index]? with
  | none => exact trivial
  | some fn => exact hh fn (Array.mem_of_getElem? hf)

/-- An action that neither sees the counters of a run nor changes them, that fails only as a
script could, and that adds only functions with admitted code. -/
structure Action.Neutral (Admits : FunctionDef → Prop) {α : Type} (x : Action α) : Prop where
  blind (c : Counters) (w : World) : x (w.withCounters c) = mapWorld (World.withCounters c) (x w)
  failure {w w' : World} {e : Failure} : x w = .error e w' →
    ∃ s : ScriptError, e = .raised s ∧ s.isCatchable = true
  within {w : World} : w.heap.Within Admits → (finalWorld (x w)).heap.Within Admits

namespace Action.Neutral

variable {Admits : FunctionDef → Prop} {α : Type}

/-- Neutral actions touch no counter. -/
theorem counters {x : Action α} (hx : x.Neutral Admits) (w : World) :
    (finalWorld (x w)).counters = w.counters := by
  have h := hx.blind w.counters w
  rw [World.withCounters_counters] at h
  rw [h, finalWorld_mapWorld, World.counters_withCounters]

/-- A neutral action commutes with every change of the counters alone. -/
theorem commute {x : Action α} (hx : x.Neutral Admits) {g : World → World}
    {c : Counters → Counters} (hg : ∀ w, g w = w.withCounters (c w.counters)) (w : World) :
    x (g w) = mapWorld g (x w) := by
  have hfinal := hx.counters w
  rw [hg w, hx.blind]
  cases h : x w with
  | ok a w' =>
    rw [h] at hfinal
    exact congrArg (EStateM.Result.ok a) (by rw [hg w', ← hfinal]; rfl)
  | error e w' =>
    rw [h] at hfinal
    exact congrArg (EStateM.Result.error e) (by rw [hg w', ← hfinal]; rfl)

theorem pure (a : α) : (pure a : Action α).Neutral Admits where
  blind _ _ := rfl
  failure h := nomatch h
  within h := h

theorem heap : Action.heap.Neutral Admits where
  blind _ _ := rfl
  failure h := nomatch h
  within h := h

theorem raise {e : ScriptError} (he : e.isCatchable = true) :
    (Action.raise e : Action α).Neutral Admits where
  blind _ _ := rfl
  failure h := by cases h; exact ⟨e, rfl, he⟩
  within h := h

/-- Changes of the store are neutral unless they bring in code. -/
theorem modifyHeap {f : Heap → Heap} (hf : ∀ h, (f h).functions = h.functions) :
    (Action.modifyHeap f).Neutral Admits where
  blind _ _ := rfl
  failure h := nomatch h
  within {w} h fn hfn := h fn (hf w.heap ▸ hfn)

/-- So are allocations. -/
theorem allocate {f : Heap → α × Heap} (hf : ∀ h, (f h).2.functions = h.functions) :
    (Action.allocate f).Neutral Admits where
  blind _ _ := rfl
  failure h := nomatch h
  within {w} h fn hfn := h fn (hf w.heap ▸ hfn)

/-- A function may be made from code that is admitted. -/
theorem newFunction {fn : Function} (hfn : fn.Within Admits) :
    (Action.newFunction fn).Neutral Admits where
  blind _ _ := rfl
  failure h := nomatch h
  within {w} h other hother := by
    rcases Array.mem_push.1 hother with hold | rfl
    · exact h other hold
    · exact hfn

theorem isRegistering : Action.isRegistering.Neutral Admits where
  blind _ _ := rfl
  failure h := nomatch h
  within h := h

theorem properties : (return (← Action.run).props : Action Value).Neutral Admits where
  blind _ _ := rfl
  failure h := nomatch h
  within h := h

theorem addWatcher (watcher : Watcher) : (Action.addWatcher watcher).Neutral Admits where
  blind _ _ := rfl
  failure h := nomatch h
  within h := h

theorem addHook (hook : LifecycleHook) (callback : Value) :
    (Action.addHook hook callback).Neutral Admits where
  blind _ _ := rfl
  failure h := nomatch h
  within h := h

theorem nextTick (callback : Value) : (Action.nextTick callback).Neutral Admits := by
  cases callback with
  | function f =>
    exact ⟨fun _ _ ↦ rfl, fun h ↦ (nomatch h), fun h ↦ h⟩
  | _ => exact pure _

/-- What a neutral action does with the heap may depend on the heap. -/
theorem read {f : Heap → Action α} (hf : ∀ h, (f h).Neutral Admits) :
    (Action.heap >>= f).Neutral Admits where
  blind c w := (hf w.heap).blind c w
  failure {_ _ _} h := (hf _).failure h
  within {w} h := (hf w.heap).within h

theorem deleteProperty (target : Value) (key : String) :
    (Action.deleteProperty target key).Neutral Admits := by
  cases target with
  | object o =>
    refine read fun h ↦ ?_
    split
    · exact raise rfl
    · exact modifyHeap fun _ ↦ rfl
  | array a =>
    unfold Action.deleteProperty
    dsimp only
    split
    · exact modifyHeap fun _ ↦ rfl
    · exact pure _
  | _ => exact pure _

end Action.Neutral

theorem Action.Neutral.takeTicks {Admits : FunctionDef → Prop} :
    Action.takeTicks.Neutral Admits :=
  ⟨fun _ _ ↦ rfl, fun h ↦ (nomatch h), fun h ↦ h⟩

/-- Writing to objects is put together from reading the heap, storing a field, refusing to, and
calls. -/
theorem Action.related_writeObject {R : (α : Type) → Action α → Action α → Prop}
    (pure : R Unit (Pure.pure ()) (Pure.pure ()))
    (bind : ∀ {α β : Type} {x y : Action α} {f g : α → Action β},
      R α x y → (∀ a, R β (f a) (g a)) → R β (x >>= f) (y >>= g))
    (read : ∀ {β : Type} {f g : Heap → Action β},
      (∀ h, R β (f h) (g h)) → R β (Action.heap >>= f) (Action.heap >>= g))
    (frozen : ∀ key,
      R Unit (Action.writePlain.frozenError key) (Action.writePlain.frozenError key))
    (insert : ∀ (o : ObjectId) (key : String) (v : Value),
      R Unit (Action.modifyHeap fun h ↦ h.insertField o key v)
        (Action.modifyHeap fun h ↦ h.insertField o key v))
    {call call' : Caller} (hcall : Caller.Related R call call') (o : ObjectId) (key : String)
    (v : Value) : R Unit (Action.writeObject call o key v) (Action.writeObject call' o key v) := by
  have hplain (o : ObjectId) (key : String) :
      R Unit (Action.writePlain call o key v) (Action.writePlain call' o key v) := by
    refine read fun h ↦ ?_
    dsimp only
    split
    · exact frozen key
    · split
      · split
        · split
          · exact bind (hcall _ _ _) fun _ ↦ pure
          · exact pure
        · exact insert o key v
      · exact insert o key v
  refine read fun h ↦ ?_
  dsimp only
  split
  · split
    · exact frozen key
    · split
      · split
        · exact hplain _ _
        · exact insert o key v
      · exact insert o key v
  · exact hplain o key

/-- A relation that holds of all neutral actions and is kept by the combinations. -/
theorem Congruence.ofNeutralWithin {R : (α : Type) → Action α → Action α → Prop}
    {Admits : FunctionDef → Prop}
    (neutral : ∀ {α : Type} {x : Action α}, x.Neutral Admits → R α x x)
    (bind : ∀ {α β : Type} {x y : Action α} {f g : α → Action β},
      R α x y → (∀ a, R β (f a) (g a)) → R β (x >>= f) (y >>= g))
    (function : ∀ {β : Type} (id : FunctionId) {f g : Function → Action β},
      (∀ fn, fn.Within Admits → R β (f fn) (g fn)) →
      R β (Action.heap >>= fun h ↦ f (h.function id)) (Action.heap >>= fun h ↦ g (h.function id)))
    (entering : ∀ {α : Type} {x y : Action α},
      R α x y → R α (Action.entering x) (Action.entering y))
    (catching : ∀ {α : Type} {x y : Action α} {f g : ScriptError → Action α}, R α x y →
      (∀ e, e.isCatchable = true → R α (f e) (g e)) →
      R α (Action.catching x f) (Action.catching y g)) :
    Congruence R Admits where
  pure a := neutral (.pure a)
  bind := bind
  raise _ he := neutral (.raise he.isCatchable)
  read h := bind (neutral .heap) h
  function := function
  modifyHeap _ hf := neutral (.modifyHeap fun h ↦ (hf h).functions)
  allocate _ hf := neutral (.allocate fun h ↦ (hf h).functions)
  writeObject := Action.related_writeObject (neutral (.pure ())) bind (bind (neutral .heap))
    (fun _ ↦ neutral (.raise rfl)) fun _ _ _ ↦ neutral (.modifyHeap fun _ ↦ rfl)
  newFunction _ hfn := neutral (.newFunction hfn)
  isRegistering := neutral .isRegistering
  addHook hook callback := neutral (.addHook hook callback)
  nextTick callback := neutral (.nextTick callback)
  properties := neutral .properties
  entering := entering
  catching := catching

/-- Where the code of functions does not matter, reading a function is like reading the heap. -/
theorem Congruence.ofNeutral {R : (α : Type) → Action α → Action α → Prop}
    (neutral : ∀ {α : Type} {x : Action α}, x.Neutral (fun _ ↦ True) → R α x x)
    (bind : ∀ {α β : Type} {x y : Action α} {f g : α → Action β},
      R α x y → (∀ a, R β (f a) (g a)) → R β (x >>= f) (y >>= g))
    (entering : ∀ {α : Type} {x y : Action α},
      R α x y → R α (Action.entering x) (Action.entering y))
    (catching : ∀ {α : Type} {x y : Action α} {f g : ScriptError → Action α}, R α x y →
      (∀ e, e.isCatchable = true → R α (f e) (g e)) →
      R α (Action.catching x f) (Action.catching y g)) :
    Congruence R (fun _ ↦ True) :=
  .ofNeutralWithin neutral bind
    (fun _ _ _ h ↦ bind (neutral .heap) fun _ ↦ h _ (Function.within_true _)) entering catching

end Nodecraft.Sandbox

namespace Nodecraft.Sandbox

open Script Evaluation

/-- What a machine may be asked to do. -/
inductive Query
  | step
  /-- Room for another entry. -/
  | room
  | erase (target : Value) (key : String)
  | eval (s : ScopeId) (e : Expr)
  | link (s : ScopeId) (e : Expr)
  | exec (s : ScopeId) (stmt : Stmt)
  | bind (kind : DeclKind) (s : ScopeId) (p : Pattern) (v : Value)
  | invoke (f : FunctionId) (self : Value) (args : List Value)
  /-- The call of a function, once it is counted. -/
  | apply (f : FunctionId) (self : Value) (args : List Value)
  /-- The end of a statement whose guarded part and finalizer ended in these ways. -/
  | finish (guarded finalizer : Outcome Completion)

/-- Which queries to stop at, and in which worlds. -/
abbrev Stop := Query → World → Bool

/-- Stops nowhere. -/
def Stop.never : Stop := fun _ _ ↦ false

/-- An action that is broken off before it starts in certain worlds. -/
def Action.stopping {α : Type} (stop : World → Bool) (x : Action α) : Action α :=
  fun w ↦ if stop w then .error .unfinished w else x w

/-- Runs a finalizer, unless the ends of both actions are a reason to stop. -/
def Action.finalizingUnless (stop : Stop) (x f : Action Completion) :
    Action Completion :=
  Action.stopping (fun w ↦ Settled (x w) && stop (.finish (x w) (f (finalWorld (x w)))) w)
    (finalizing x f)

/-- The rules of evaluation over a machine, broken off at certain queries. -/
def Machine.probing (stop : Stop) (m : Machine) : Machine where
  rounds := m.rounds + 1
  step := m.step
  room := m.room
  finalize := m.finalize
  erase := m.erase
  eval s e := Action.stopping (stop (.eval s e)) (m.nested (expression m s e))
  link s e := Action.stopping (stop (.link s e)) (chainLink m s e)
  exec s stmt := Action.stopping (stop (.exec s stmt)) (m.nested (statement m s stmt))
  bind kind s p v := Action.stopping (stop (.bind kind s p v)) (bindPattern m kind s v p)
  invoke f self args := Action.stopping (stop (.invoke f self args))
    (Action.calling (Action.stopping (stop (.apply f self args)) (apply m f self args)))

/-- The machine that follows the rules up to a number of nested evaluations and is broken off at
certain queries. -/
def probe (stop : Stop) : Nat → Machine
  | 0 =>
    { rounds := 0
      step := Action.stopping (stop .step) Action.step
      room := Action.stopping (stop .room) Action.room
      finalize := Action.finalizingUnless stop
      erase := fun target key ↦
        Action.stopping (stop (.erase target key)) (Action.deleteProperty target key)
      eval := fun _ _ ↦ throw .unfinished
      link := fun _ _ ↦ throw .unfinished
      exec := fun _ _ ↦ throw .unfinished
      bind := fun _ _ _ _ ↦ throw .unfinished
      invoke := fun _ _ _ ↦ throw .unfinished }
  | n + 1 => (probe stop n).probing stop

@[simp] theorem Action.stopping_never {α : Type} (q : Query) (x : Action α) :
    Action.stopping (Stop.never q) x = x := by
  rfl

/-- Where it is to stop, an action is broken off before anything of it is done. -/
theorem Action.stopping_of {α : Type} {stop : World → Bool} {x : Action α} {w : World}
    (h : stop w) : Action.stopping stop x w = .error .unfinished w :=
  if_pos h

/-- Elsewhere it is what it is. -/
theorem Action.stopping_of_not {α : Type} {stop : World → Bool} {x : Action α} {w : World}
    (h : ¬stop w) : Action.stopping stop x w = x w :=
  if_neg h

section

variable {stop : Stop} {x f : Action Completion} {w : World}

/-- Where it is to stop, it does so after block and finalizer have run. -/
theorem Action.finalizingUnless_of (hs : Settled (x w))
    (h : stop (.finish (x w) (f (finalWorld (x w)))) w) :
    Action.finalizingUnless stop x f w = .error .unfinished w :=
  Action.stopping_of (Bool.and_eq_true_iff.2 ⟨decide_eq_true hs, h⟩)

theorem Action.finalizingUnless_of_not (hs : Settled (x w))
    (h : ¬stop (.finish (x w) (f (finalWorld (x w)))) w) :
    Action.finalizingUnless stop x f w = finishing (x w) (f (finalWorld (x w))) :=
  (Action.stopping_of_not fun h' ↦ h (Bool.and_eq_true_iff.1 h').2).trans
    (finalizing_of_settled hs)

/-- After a failure that no script sees, no finalizer is run. -/
theorem Action.finalizingUnless_of_failure {w' : World} {e : Failure} (h : x w = .error e w')
    (he : ∀ s, e ≠ .raised s) : Action.finalizingUnless stop x f w = .error e w' := by
  refine (Action.stopping_of_not fun h' ↦ ?_).trans (finalizing_of_failure h he)
  have hs := of_decide_eq_true (Bool.and_eq_true_iff.1 h').1
  rw [h] at hs
  cases e with
  | raised s => exact he s rfl
  | _ => exact hs

end

@[simp] theorem Action.finalizingUnless_never :
    Action.finalizingUnless Stop.never = finalizing := by
  funext x f w
  exact Action.stopping_of_not fun h ↦ nomatch (Bool.and_eq_true_iff.1 h).2

@[simp] theorem probe_step (stop : Stop) (n : Nat) :
    (probe stop n).step = Action.stopping (stop .step) Action.step := by
  induction n with
  | zero => rfl
  | succ n ih => exact ih

@[simp] theorem probe_room (stop : Stop) (n : Nat) :
    (probe stop n).room = Action.stopping (stop .room) Action.room := by
  induction n with
  | zero => rfl
  | succ n ih => exact ih

@[simp] theorem probe_finalize (stop : Stop) (n : Nat) :
    (probe stop n).finalize = Action.finalizingUnless stop := by
  induction n with
  | zero => rfl
  | succ n ih => exact ih

@[simp] theorem probe_erase (stop : Stop) (n : Nat) (target : Value) (key : String) :
    (probe stop n).erase target key =
      Action.stopping (stop (.erase target key)) (Action.deleteProperty target key) := by
  induction n with
  | zero => rfl
  | succ n ih => exact ih

/-- The probe that never stops is the machine of the rules. -/
theorem probe_never (n : Nat) : probe Stop.never n = machineWithin n := by
  induction n with
  | zero => simp only [probe, Action.stopping_never, Action.finalizingUnless_never]; rfl
  | succ n ih => simp only [probe, Machine.probing, Action.stopping_never, ih]; rfl

section

variable {α : Type} (n : Nat) (x : Action α) {w : World}

/-- What comes of an entry that there is room for. -/
theorem nested_of_hasRoom (hroom : w.run.hasRoom) :
    (machineWithin n).nested x w = mapWorld World.leave (x w.enter) := by
  change (Action.room >>= fun _ ↦ Action.entering x) w = _
  rw [Action.bind_apply, Action.room_of_hasRoom hroom]
  exact Action.entering_apply x w

/-- Without room an entry is refused before its code is looked at. -/
theorem nested_of_not (hroom : ¬w.run.hasRoom) :
    (machineWithin n).nested x w = .error (.raised .stackExhausted) w := by
  change (Action.room >>= fun _ ↦ Action.entering x) w = _
  rw [Action.bind_apply, Action.room_of_not hroom]

end

/-! ### Statements without room or once the budget is used up -/

/-- Once the budget is used up, every step is refused, and it stays so. -/
theorem Action.step_of_isSpent {w : World} (hw : w.run.IsSpent) :
    ∃ b w', Action.step w = .error (.raised (.stepBudget b)) w' ∧ w'.run.IsSpent ∧
      w'.run.nesting = w.run.nesting := by
  obtain ⟨hnesting, b, hb, hlt⟩ := hw
  refine ⟨b, w.tick, ?_, ⟨hnesting, b, hb, Nat.lt_succ_of_lt hlt⟩, rfl⟩
  rw [Action.step_apply, hb]
  exact if_pos (Nat.le_of_lt hlt)

theorem Action.Halts.stopping {x : Action Completion} (hx : x.Halts) (stop : World → Bool) :
    (Action.stopping stop x).Halts where
  cramped w hroom := by
    by_cases hstop : stop w
    · rw [Action.stopping_of hstop]
      exact .inl rfl
    · rw [Action.stopping_of_not hstop]
      exact hx.cramped w hroom
  spent w hw hroom := by
    by_cases hstop : stop w
    · rw [Action.stopping_of hstop]
      exact .inl rfl
    · rw [Action.stopping_of_not hstop]
      exact hx.spent w hw hroom

section

variable {m : Machine} {stop stop' : World → Bool}

/-- A statement begins with a step, which the budget does not allow. -/
theorem Machine.spent_statement (hm : m.step = Action.stopping stop Action.step) (s : ScopeId)
    (stmt : Stmt) {w : World} (hw : w.run.IsSpent) :
    match Action.entering (statement m s stmt) w with
    | .ok _ _ => False
    | .error e w' => e = .unfinished ∨ (∃ b, e = .raised (.stepBudget b)) ∧ w'.run.IsSpent := by
  have henter : w.enter.run.IsSpent := by
    obtain ⟨hnesting, b, hb, hlt⟩ := hw
    refine ⟨Nat.succ_pos _, b, hb, ?_⟩
    change b < if w.run.nesting = 0 then 0 else w.run.steps
    rwa [if_neg (Nat.pos_iff_ne_zero.1 hnesting)]
  unfold statement
  rw [Action.entering_apply, Action.bind_apply, hm]
  by_cases hstop : stop w.enter
  · rw [Action.stopping_of hstop]
    exact .inl rfl
  · obtain ⟨b, w', hstep, hspent, hnesting⟩ := Action.step_of_isSpent henter
    rw [Action.stopping_of_not hstop, hstep]
    have hpos : 0 < w'.run.nesting - 1 := by
      rw [hnesting]
      exact hw.1
    exact .inr ⟨⟨b, rfl⟩, hpos, hspent.2⟩

/-- A statement is an entry, which needs room, and begins with a step. -/
theorem Machine.halts_statement (hstep : m.step = Action.stopping stop Action.step)
    (hentry : m.room = Action.stopping stop' Action.room) (s : ScopeId) (stmt : Stmt) :
    (m.nested (statement m s stmt)).Halts where
  cramped w hroom := by
    unfold Machine.nested
    rw [Action.bind_apply, hentry]
    by_cases hstop : stop' w
    · rw [Action.stopping_of hstop]
      exact .inl rfl
    · rw [Action.stopping_of_not hstop, Action.room_of_not hroom]
      exact .inr rfl
  spent w hw hroom := by
    unfold Machine.nested
    rw [Action.bind_apply, hentry]
    by_cases hstop : stop' w
    · rw [Action.stopping_of hstop]
      exact .inl rfl
    · rw [Action.stopping_of_not hstop, Action.room_of_hasRoom hroom]
      exact spent_statement hstep s stmt hw

end

/-! ### Relating probes -/

/-- The queries that are put to the rules for a construct. -/
def Query.IsPlain : Query → Prop
  | .eval _ _ => True
  | .link _ _ => True
  | .exec _ _ => True
  | .bind _ _ _ _ => True
  | _ => False

/-- What it takes to relate two probes by a relation that is a congruence: it is kept by breaking
off before constructs, and it knows about steps, room for entries, finalizers, calls, the removal of
properties and the registration of watchers. -/
structure Probing (R : (α : Type) → Action α → Action α → Prop) (stop stop' : Stop) : Prop
    extends Congruence R (fun _ ↦ True) where
  step : R Unit (Action.stopping (stop .step) Action.step)
    (Action.stopping (stop' .step) Action.step)
  room : R Unit (Action.stopping (stop .room) Action.room)
    (Action.stopping (stop' .room) Action.room)
  finalize {x y f g : Action Completion} : R Completion x y → R Completion f g →
    x.Finalized f → y.Finalized g →
    R Completion (Action.finalizingUnless stop x f) (Action.finalizingUnless stop' y g)
  erase (target : Value) (key : String) :
    R Unit (Action.stopping (stop (.erase target key)) (Action.deleteProperty target key))
      (Action.stopping (stop' (.erase target key)) (Action.deleteProperty target key))
  watches (n n' : Nat) : Caller.Related R (probe stop n).call (probe stop' n').call →
    ∀ {c : Capability}, c.Watches → ∀ args,
      R Value (Action.capability (probe stop n).call c args)
        (Action.capability (probe stop' n').call c args)
  stopping {α : Type} (q : Query) {x y : Action α} : q.IsPlain → R α x y →
    R α (Action.stopping (stop q) x) (Action.stopping (stop' q) y)
  calling (id : FunctionId) (self : Value) (args : List Value) {x y : Action Value} :
    R Value x y → R Value (Action.stopping (stop (.invoke id self args)) (Action.calling x))
      (Action.stopping (stop' (.invoke id self args)) (Action.calling y))
  performing (id : FunctionId) (self : Value) (args : List Value)
    {f g : Function → Action Value} : (∀ fn, fn.IsRegular → R Value (f fn) (g fn)) →
    f (.native (.array .splice)) = Action.spliceCall self args →
    g (.native (.array .splice)) = Action.spliceCall self args →
    R Value (Action.stopping (stop (.apply id self args))
        (Action.heap >>= fun h ↦ f (h.function id)))
      (Action.stopping (stop' (.apply id self args))
        (Action.heap >>= fun h ↦ g (h.function id)))
  unfinished {α : Type} : R α (throw .unfinished) (throw .unfinished)

/-- Machines as they are can be probed for what neutral actions have and what is kept by counting
a step, making sure of room, finalizing and calling. -/
theorem Congruence.probing {R : (α : Type) → Action α → Action α → Prop}
    (hR : Congruence R fun _ ↦ True)
    (neutral : ∀ {α : Type} {x : Action α}, x.Neutral (fun _ ↦ True) → R α x x)
    (step : R Unit Action.step Action.step) (room : R Unit Action.room Action.room)
    (finalizing : ∀ {x y f g : Action Completion}, R Completion x y → R Completion f g →
      x.Finalized f → y.Finalized g → R Completion (finalizing x f) (finalizing y g))
    (calling : ∀ {x y : Action Value}, R Value x y →
      R Value (Action.calling x) (Action.calling y))
    (overlap : R Value (throw .overlap) (throw .overlap))
    (unfinished : ∀ {α : Type}, R α (throw .unfinished) (throw .unfinished)) :
    Probing R Stop.never Stop.never where
  toCongruence := hR
  step := by rwa [Action.stopping_never]
  room := by rwa [Action.stopping_never]
  finalize hx hf hxf hxf' := by
    rw [Action.finalizingUnless_never]
    exact finalizing hx hf hxf hxf'
  erase target key := by
    rw [Action.stopping_never]
    exact neutral (.deleteProperty target key)
  watches _ _ hcall _ hc args := hR.watches hcall (fun w ↦ neutral (.addWatcher w)) hc args
  stopping q x y _ hxy := by rwa [Action.stopping_never, Action.stopping_never]
  calling id self args x y hxy := by
    rw [Action.stopping_never, Action.stopping_never]
    exact calling hxy
  performing id self args f g hfg hf hg := by
    rw [Action.stopping_never, Action.stopping_never]
    exact hR.performing overlap id self args (fun fn _ ↦ hfg fn) hf hg
  unfinished := unfinished

/-- Without room, or with its budget used up, no statement does anything. -/
theorem probe_halts (stop : Stop) (n : Nat) (s : ScopeId) (stmt : Stmt) :
    ((probe stop n).exec s stmt).Halts := by
  cases n with
  | zero => exact ⟨fun _ _ ↦ .inl rfl, fun _ _ _ ↦ .inl rfl⟩
  | succ n =>
    exact (Machine.halts_statement (probe_step stop n) (probe_room stop n) s stmt).stopping _

/-- If the answers of two probes are related, so are the answers by the rules over them. -/
theorem Machine.Related.probing {R : (α : Type) → Action α → Action α → Prop}
    {stop stop' : Stop} (hR : Probing R stop stop') {n n' : Nat}
    (h : ∀ size, Machine.Related R (fun _ ↦ True) size (probe stop n) (probe stop' n'))
    (size : Nat) :
    Machine.Related R (fun _ ↦ True) size (probe stop (n + 1)) (probe stop' (n' + 1)) := by
  have hinvoke (id : FunctionId) (self : Value) (args : List Value) :
      R Value ((probe stop (n + 1)).invoke id self args)
        ((probe stop' (n' + 1)).invoke id self args) :=
    hR.calling id self args (hR.performing id self args
      (fun fn hfn ↦ (h 0).perform (fun _ _ ↦ h _) self args fn fn.within_true hfn) rfl rfl)
  exact {
    toCongruence := hR.toCongruence
    admits := fun _ _ ↦ trivial
    step := (h size).step
    room := (h size).room
    finalize := (h size).finalize
    erase := (h size).erase
    watches := hR.watches (n + 1) (n' + 1) (hR.machineCall (h 0).room hinvoke)
    eval := fun s e _ ↦
      hR.stopping _ trivial ((h size).nested ((h _).expression s e (Nat.le_refl _)))
    link := fun s e _ ↦ hR.stopping _ trivial ((h _).chainLink s e (Nat.le_refl _))
    exec := fun s stmt _ ↦
      hR.stopping _ trivial ((h size).nested ((h _).statement s stmt (Nat.le_refl _)))
    pattern := fun kind s p v _ ↦
      hR.stopping _ trivial ((h _).asked.bindPattern kind s v p (Nat.le_refl _))
    invoke := hinvoke
    loop := fun {again again' round round'} ha hr ↦ by
      refine hR.bind ha fun b ↦ ?_
      split
      · refine hR.bind (h 0).step fun _ ↦ hR.bind hr fun c ↦ ?_
        cases c with
        | some c => exact hR.pure c
        | none => exact (h 0).loop ha hr
      · exact hR.pure _
    halts := probe_halts stop (n + 1)
    halts' := probe_halts stop' (n' + 1) }

/-- The same of the machine itself. -/
theorem machine_halts (n : Nat) (s : ScopeId) (stmt : Stmt) :
    ((machineWithin n).exec s stmt).Halts := by
  rw [← probe_never]
  exact probe_halts Stop.never n s stmt

/-- Probes of the same depth are related. -/
theorem Probing.related {R : (α : Type) → Action α → Action α → Prop} {stop stop' : Stop}
    (hR : Probing R stop stop') (n : Nat) : ∀ size,
    Machine.Related R (fun _ ↦ True) size (probe stop n) (probe stop' n) := by
  induction n with
  | zero =>
    intro size
    exact {
      toCongruence := hR.toCongruence
      admits := fun _ _ ↦ trivial
      step := hR.step
      room := hR.room
      finalize := hR.finalize
      erase := hR.erase
      watches := hR.watches 0 0 (hR.machineCall hR.room fun _ _ _ ↦ hR.unfinished)
      eval := fun _ _ _ ↦ hR.unfinished
      link := fun _ _ _ ↦ hR.unfinished
      exec := fun _ _ _ ↦ hR.unfinished
      pattern := fun _ _ _ _ _ ↦ hR.unfinished
      invoke := fun _ _ _ ↦ hR.unfinished
      loop := fun _ _ ↦ hR.unfinished
      halts := probe_halts stop 0
      halts' := probe_halts stop' 0 }
  | succ n ih => exact Machine.Related.probing hR ih

/-! ### Ways into an interpreter -/

/-- What an interpreter can be asked to run from outside scripts. -/
inductive Entry
  | program (s : ScopeId) (body : Block)
  | call (f self : Value) (args : List Value)
  | eval (s : ScopeId) (e : Expr)

/-- Runs an entry on a machine; on `machine` these are `Action.runProgram`, `Action.call` and
`Action.eval`. -/
def Entry.run (m : Machine) : Entry → Action Value
  | .program s body => Evaluation.program m s body
  | .call f self args => m.call f self args
  | .eval s e => m.eval s e

/-- Machines related for code of every size run alike. -/
theorem Machine.Related.run {R : (α : Type) → Action α → Action α → Prop}
    {m m' : Machine} (h : ∀ size, Machine.Related R (fun _ ↦ True) size m m') (entry : Entry) :
    R Value (entry.run m) (entry.run m') := by
  cases entry with
  | program s body => exact (h _).program s body (Nat.le_refl _)
  | call f self args => exact (h 0).call f self args
  | eval s e => exact (h _).eval s e (Nat.lt_succ_self _)

/-- Runs from outside of scripts begin with an entry. So they have whatever an entry makes of what a
machine's answers have, if neutral actions have it and it is kept by sequencing. -/
theorem Entry.run_of_entering {P Q : {α : Type} → Action α → Prop}
    (h : ∀ n size,
      Machine.Related (fun _ x _ ↦ P x) (fun _ ↦ True) size (machineWithin n) (machineWithin n))
    (neutral : ∀ {α : Type} {x : Action α}, x.Neutral (fun _ ↦ True) → Q x)
    (bind : ∀ {α β : Type} {x : Action α} {f : α → Action β},
      Q x → (∀ a, Q (f a)) → Q (x >>= f))
    (room : Q Action.room) (entering : ∀ {α : Type} {x : Action α}, P x → Q (Action.entering x))
    (unfinished : Q (throw .unfinished : Action Value)) (entry : Entry) (n : Nat) :
    Q (entry.run (machineWithin n)) := by
  have nested (n : Nat) {α : Type} {x : Action α} (hx : P x) : Q ((machineWithin n).nested x) :=
    bind room fun _ ↦ entering hx
  cases entry with
  | program s body =>
    refine bind (nested n ((h n _).block s body (Nat.le_refl _))) fun c ↦ ?_
    cases c with
    | «return» v => exact neutral (.pure v)
    | _ => exact neutral (.pure _)
  | call f self args =>
    cases f with
    | function id => exact nested n ((h n 0).invoke id self args)
    | _ => exact neutral (.raise rfl)
  | eval s e =>
    cases n with
    | zero => exact unfinished
    | succ n => exact nested n ((h n _).expression s e (Nat.le_refl _))

/-- What is asked of probes from outside of scripts is related, if their runs are. -/
theorem Machine.asked_of_runs {R : (α : Type) → Action α → Action α → Prop}
    (hR : Congruence R fun _ ↦ True) {stop stop' : Stop}
    (unfinished : R Unit (throw .unfinished) (throw .unfinished))
    (stopping : ∀ (q : Query) {x y : Action Unit}, q.IsPlain → R Unit x y →
      R Unit (Action.stopping (stop q) x) (Action.stopping (stop' q) y))
    (runs : ∀ (n : Nat) (entry : Entry),
      R Value (entry.run (probe stop n)) (entry.run (probe stop' n))) (n : Nat) :
    ∀ size, Machine.Asked R (fun _ ↦ True) size (probe stop n) (probe stop' n) := by
  induction n with
  | zero =>
    exact fun _ ↦ {
      toCongruence := hR
      eval := fun s e _ ↦ runs 0 (.eval s e)
      pattern := fun _ _ _ _ _ ↦ unfinished
      call := fun f self args ↦ runs 0 (.call f self args) }
  | succ n ih =>
    exact fun _ ↦ {
      toCongruence := hR
      eval := fun s e _ ↦ runs (n + 1) (.eval s e)
      pattern := fun kind s p v _ ↦
        stopping (.bind kind s p v) trivial ((ih _).bindPattern kind s v p (Nat.le_refl _))
      call := fun f self args ↦ runs (n + 1) (.call f self args) }

end Nodecraft.Sandbox
