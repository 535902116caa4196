import Nodecraft.Proofs.Sandbox.Leads

/-!
# Which variables of a loop closures capture

Whatever scripts do, scopes stay where they are, and what is declared in them stays declared
(`World.Leads.keepsScopes`). So what a closure means by a name is settled by the scope it was made in,
unless a scope on the way to the name's own declares it as well (`Heap.Finds.resolve`).

A loop over items declares its variables anew for each item, so the closures of a round have variables
of their own. A counting loop declares its variables once, in the scope of its head, and the bodies of
all rounds run in scopes right under it: closures of all rounds have the same variables, and
see what was assigned to them last, wherever that was (`loops_capture`).
-/

set_option autoImplicit false

namespace Nodecraft.Sandbox

open Script Evaluation

/-! ### Runs keep scopes -/

/-- Whatever scripts do, scopes stay where they are and keep their names. -/
theorem World.Leads.keepsScopes {stop : Stop} {w w₁ : World} (hw : w.Leads stop w₁) :
    w.heap.KeepsScopes w₁.heap := by
  induction hw with
  | refl w => exact .refl _
  | trans _ _ ih ih' => exact ih.trans ih'
  | count w _ _ _ => exact .refl _
  | queue w _ => exact .refl _
  | extend he => exact he.toKeepsScopes
  | newFunction w fn => exact .of_eq rfl
  | insert _ _ _ => exact .of_eq rfl
  | erase _ _ => exact .of_eq rfl
  | addHook w hook callback => exact .refl _
  | observe _ _ _ ih => exact ih.trans (.of_eq rfl)

/-- A machine asks nothing of the world but what scripts do. -/
theorem machineWithin_leads (n size : Nat) :
    Machine.Related (fun _ x _ ↦ x.Leads Stop.never) (fun _ ↦ True) size (machineWithin n)
      (machineWithin n) := by
  have hprobe := (Probing.leads Stop.never Stop.never).related n size
  rwa [probe_never] at hprobe

/-! ### Names and the scopes they belong to -/

/-- Code in the scope finds a name at home: on the way there no scope declares the name or falls back
to a value that has it. -/
inductive Heap.Finds (h : Heap) (name : String) (home : ScopeId) : ScopeId → Prop
  | home : Heap.Finds h name home home
  | under {s parent : ScopeId} : (h.scope s).parent = some parent → parent.index < s.index →
    (h.scope s).bindings.get? name = none →
    (∀ target ∈ (h.scope s).fallback, h.hasOwn target name = false) →
    Heap.Finds h name home parent → Heap.Finds h name home s

namespace Heap.Finds

variable {h : Heap} {name : String} {home inner s : ScopeId}

/-- A name found from an inner scope is found from the scopes within. -/
theorem trans (hs : h.Finds name inner s) (hinner : h.Finds name home inner) :
    h.Finds name home s := by
  induction hs with
  | home => exact hinner
  | under hparent hlt hnone hfallback _ ih => exact .under hparent hlt hnone hfallback ih

/-- The search from a scope outwards comes upon the binding. -/
theorem resolveWithin {b : Binding} (hb : (h.scope home).bindings.get? name = some b)
    (hs : h.Finds name home s) :
    ∀ n, s.index < n → h.resolveWithin name n s = some (.binding home b) := by
  induction hs with
  | home =>
    intro n hn
    obtain ⟨n, rfl⟩ := Nat.exists_eq_add_one_of_ne_zero (Nat.ne_zero_of_lt hn)
    rw [Heap.resolveWithin, hb]
  | @under s parent hparent hlt hnone hfallback _ ih =>
    intro n hn
    obtain ⟨n, rfl⟩ := Nat.exists_eq_add_one_of_ne_zero (Nat.ne_zero_of_lt hn)
    have houter : (h.scope s).parent.bind (h.resolveWithin name n) = some (.binding home b) := by
      rw [hparent]
      exact ih n (by omega)
    rw [Heap.resolveWithin, hnone]
    cases hf : (h.scope s).fallback with
    | none => exact houter
    | some target =>
      have hno := hfallback target hf
      dsimp only
      rw [hno]
      exact houter

/-- A name that is found at home means its binding there. -/
theorem resolve {b : Binding} (hs : h.Finds name home s)
    (hb : (h.scope home).bindings.get? name = some b) :
    h.resolve name s = some (.binding home b) :=
  hs.resolveWithin hb _ (Nat.lt_succ_self _)

theorem newScope (hs : h.Finds name home s) (hlt : s.index < h.scopes.size) (scope : Scope) :
    (h.newScope scope).2.Finds name home s := by
  induction hs with
  | home => exact .home
  | @under s parent hparent hlt' hnone hfallback _ ih =>
    have hold : (h.newScope scope).2.scope s = h.scope s :=
      (Cells.getD_push _ _ _ _).trans (if_neg (Nat.ne_of_lt hlt))
    exact .under (by rw [hold, hparent]) hlt' (by rw [hold, hnone]) (by rw [hold]; exact hfallback)
      (ih (Nat.lt_trans hlt' hlt))

/-- A call of a closure finds what the closure's own scope finds. -/
theorem call (hs : h.Finds name home s) (hlt : s.index < h.scopes.size) (self : Option Value) :
    (h.newScope ⟨[], some s, none, self, true⟩).2.Finds name home ⟨h.scopes.size⟩ := by
  have hnew : (h.newScope ⟨[], some s, none, self, true⟩).2.scope ⟨h.scopes.size⟩ =
      ⟨[], some s, none, self, true⟩ := (Cells.getD_push _ _ _ _).trans (if_pos rfl)
  refine .under (congrArg Scope.parent hnew) hlt ?_ ?_ (hs.newScope hlt _)
  · rw [hnew]
    rfl
  · rw [hnew]
    exact fun target htarget ↦ nomatch htarget

end Heap.Finds

/-- From the heap on, a name means its binding at home to all code that runs under a scope, such as
the closures made there, unless a scope on the way declares the name as well. -/
def Heap.Captures (h : Heap) (inner : ScopeId) (name : String) (home : ScopeId) : Prop :=
  ∀ h₁ : Heap, h.KeepsScopes h₁ → ∀ s : ScopeId, h₁.Finds name inner s →
    (inner = home ∨ (h₁.scope inner).bindings.get? name = none) →
    ∃ b, (h₁.scope home).bindings.get? name = some b ∧
      h₁.resolve name s = some (.binding home b)

namespace Heap

variable {h h₁ : Heap} {inner home : ScopeId} {name : String} {b : Binding}

/-- A name that a scope declares is its own. -/
theorem captures_self (hlt : inner.index < h.scopes.size)
    (hb : (h.scope inner).bindings.get? name = some b) : h.Captures inner name inner := by
  intro h₁ hk s hs _
  obtain ⟨b₁, hb₁⟩ := (hk.scope hlt).declared hb
  exact ⟨b₁, hb₁, hs.resolve hb₁⟩

/-- A block's scope leaves names to the scope around it. -/
theorem captures_parent (hlt : home.index < inner.index) (hinner : inner.index < h.scopes.size)
    (hparent : (h.scope inner).parent = some home) (hfallback : (h.scope inner).fallback = none)
    (hb : (h.scope home).bindings.get? name = some b) : h.Captures inner name home := by
  intro h₁ hk s hs hno
  have hkept := hk.scope hinner
  obtain ⟨b₁, hb₁⟩ := (hk.scope (Nat.lt_trans hlt hinner)).declared hb
  have hnone : (h₁.scope inner).bindings.get? name = none :=
    hno.resolve_left fun heq ↦ Nat.ne_of_lt hlt (congrArg ScopeId.index heq.symm)
  have houter : h₁.Finds name home inner := by
    refine .under (hkept.parent.trans hparent) hlt hnone (fun target htarget ↦ ?_) .home
    rw [hkept.fallback, hfallback] at htarget
    cases htarget
  exact ⟨b₁, hb₁, (hs.trans houter).resolve hb₁⟩

/-- What is captured stays captured while scopes are kept. -/
theorem Captures.mono (hc : h.Captures inner name home) (hk : h.KeepsScopes h₁) :
    h₁.Captures inner name home :=
  fun h₂ hk' ↦ hc h₂ (hk.trans hk')

end Heap

/-! ### Scopes of blocks -/

/-- The scope of a block is new and lies in the scope around it. -/
theorem scope_childScope (s : ScopeId) (w : World) :
    (finalWorld (Action.childScope s w)).heap.scope ⟨w.heap.scopes.size⟩ =
      ⟨[], some s, none, none, false⟩ :=
  (Cells.getD_push _ _ _ _).trans (if_pos rfl)

theorem size_childScope (s : ScopeId) (w : World) :
    (finalWorld (Action.childScope s w)).heap.scopes.size = w.heap.scopes.size + 1 :=
  Array.size_push _

/-! ### Counting loops -/

section

variable (m : Machine) (head : ScopeId) (test update : Option Expr) (body : Stmt)

/-- A number of rounds, from one world to another, each of which asks for another one. -/
inductive Evaluation.Rounds : Nat → World → World → Prop
  | none (w : World) : Rounds 0 w w
  | next {k : Nat} {w w₁ w₂ : World} : Rounds k w w₁ →
    (m.step >>= fun _ ↦ forRound m head test update body) w₁ = .ok Option.none w₂ →
    Rounds (k + 1) w w₂

/-- A round whose test holds: the scope its body gets, and the world its body leaves. -/
structure Evaluation.Round (w : World) (inner : ScopeId) (w₂ : World) : Prop where
  ran : ∃ w₁, (m.step >>= fun _ ↦ testHolds m head test) w = .ok true w₁ ∧
    inner = ⟨w₁.heap.scopes.size⟩ ∧
    w₂ = finalWorld (m.exec inner body (finalWorld (Action.childScope head w₁)))

end

/-- What comes after an action leads on from where the action ended. -/
theorem finalWorld_bind_leads {α β : Type} (x : Action α) {f : α → Action β}
    (hf : ∀ a, (f a).Leads Stop.never) (w : World) :
    (finalWorld (x w)).Leads Stop.never (finalWorld ((x >>= f) w)) := by
  rw [Action.bind_apply]
  cases x w with
  | ok a w₁ => exact hf a w₁
  | error e w₁ => exact .refl w₁

/-- Rounds in a row, up to the bound on them. -/
theorem Action.Leads.repeatRounds {step : Action Unit} {again : Action Bool}
    {round : Action (Option Completion)} (hstep : step.Leads Stop.never)
    (hagain : again.Leads Stop.never) (hround : round.Leads Stop.never) (j : Nat) :
    (Evaluation.repeatRounds step again round j).Leads Stop.never := by
  induction j with
  | zero => exact .failure _
  | succ j ih =>
    refine .bind hagain fun b ↦ ?_
    split
    · refine .bind hstep fun _ ↦ .bind hround fun r ↦ ?_
      cases r with
      | some end_ => exact .pure _
      | none => exact ih
    · exact .pure _

section

variable {n : Nat} {head : ScopeId} {test update : Option Expr} {body : Stmt}

theorem leads_testHolds : (testHolds (machineWithin n) head test).Leads Stop.never :=
  (machineWithin_leads n (2 * SizeOf.sizeOf test)).testHolds head test (Nat.le_refl _)

theorem leads_eval (s : ScopeId) (e : Expr) :
    (discard ((machineWithin n).eval s e)).Leads Stop.never :=
  ((machineWithin_leads n (2 * SizeOf.sizeOf e + 1)).eval s e (Nat.lt_succ_self _)).bind
    fun _ ↦ .pure _

theorem leads_exec (n : Nat) (s : ScopeId) (stmt : Stmt) :
    ((machineWithin n).exec s stmt).Leads Stop.never :=
  (machineWithin_leads n (2 * SizeOf.sizeOf stmt + 1)).exec s stmt (Nat.lt_succ_self _)

theorem leads_forRound : (forRound (machineWithin n) head test update body).Leads Stop.never :=
  (machineWithin_leads n
    (2 * (SizeOf.sizeOf test + SizeOf.sizeOf update + SizeOf.sizeOf body) + 1)).forRound
    head test update body (by omega) (by omega) (by omega)

namespace Evaluation

/-- A counting loop does its rounds from where its initializer leaves off. -/
theorem forLoop_of_init {m : Machine} {s : ScopeId} {init : Stmt} {w w₀ : World} {c : Completion}
    (hinit : m.exec ⟨w.heap.scopes.size⟩ init (finalWorld (Action.childScope s w)) = .ok c w₀)
    (test update : Option Expr) (body : Stmt) :
    forLoop m s (some init) test update body w = Evaluation.repeatRounds m.step (pure true)
      (forRound m ⟨w.heap.scopes.size⟩ test update body) m.rounds w₀ := by
  have hdiscard : (discard (m.exec ⟨w.heap.scopes.size⟩ init) : Action PUnit)
      (finalWorld (Action.childScope s w)) = .ok ⟨⟩ w₀ := by
    change (m.exec ⟨w.heap.scopes.size⟩ init >>= fun _ ↦ (pure ⟨⟩ : Action PUnit)) _ = _
    rw [Action.bind_apply, hinit]
    rfl
  change (discard (m.exec ⟨w.heap.scopes.size⟩ init) >>= fun _ ↦ _)
    (finalWorld (Action.childScope s w)) = _
  rw [Action.bind_apply, hdiscard]

/-- A loop that has gone round goes on from there. -/
theorem Rounds.repeatRounds {m : Machine} {k : Nat} {w w₁ : World}
    (h : Rounds m head test update body k w w₁) (j : Nat) :
    Evaluation.repeatRounds m.step (pure true) (forRound m head test update body) (j + k) w =
      Evaluation.repeatRounds m.step (pure true) (forRound m head test update body) j w₁ := by
  induction h generalizing j with
  | none w => rfl
  | @next k w w₁ w₂ _ hround ih =>
    rw [← Nat.add_assoc, Nat.add_right_comm, ih]
    obtain ⟨⟨⟩, w', hstep, hround⟩ := bind_eq_ok hround
    change (m.step >>= fun _ ↦ _) w₁ = _
    rw [Action.bind_apply, hstep]
    change (forRound m head test update body >>= fun _ ↦ _) w' = _
    rw [Action.bind_apply, hround]

/-- Rounds keep scopes. -/
theorem Rounds.keepsScopes {k : Nat} {w w₁ : World}
    (h : Rounds (machineWithin n) head test update body k w w₁) :
    w.heap.KeepsScopes w₁.heap := by
  induction h with
  | none w => exact .refl _
  | @next k w w₁ w₂ _ hround ih =>
    have hleads : ((machineWithin n).step >>= fun _ ↦
        forRound (machineWithin n) head test update body).Leads Stop.never :=
      .bind (machineWithin_leads n 0).step fun _ ↦ leads_forRound
    have hw := hleads w₁
    rw [hround] at hw
    exact ih.trans hw.keepsScopes

/-- What is left of a loop after the body of a round is done by scripts. -/
theorem Round.leads_loop {w w₂ : World} {inner : ScopeId}
    (h : Round (machineWithin n) head test body w inner w₂) (j : Nat) :
    w₂.Leads Stop.never (finalWorld (repeatRounds (machineWithin n).step (pure true)
      (forRound (machineWithin n) head test update body) (j + 1) w)) := by
  obtain ⟨w₁, htest, rfl, rfl⟩ := h.ran
  obtain ⟨⟨⟩, w', hstep, htest⟩ := bind_eq_ok htest
  have hround : (finalWorld ((machineWithin n).exec ⟨w₁.heap.scopes.size⟩ body
      (finalWorld (Action.childScope head w₁)))).Leads Stop.never
      (finalWorld (forRound (machineWithin n) head test update body w')) := by
    unfold forRound
    rw [Action.bind_apply, htest]
    refine finalWorld_bind_leads _ (fun c ↦ ?_) _
    split
    · exact .pure _
    · cases update with
      | none => exact .pure _
      | some e => exact (leads_eval head e).bind fun _ ↦ .pure _
  refine hround.trans ?_
  change World.Leads _ _ (finalWorld (((machineWithin n).step >>= fun _ ↦ _) w))
  rw [Action.bind_apply, hstep]
  refine finalWorld_bind_leads (forRound (machineWithin n) head test update body) (fun r ↦ ?_) w'
  cases r with
  | some end_ => exact .pure _
  | none =>
    exact .repeatRounds (machineWithin_leads n 0).step (.pure _) leads_forRound j

end Evaluation

end

/-! ### What closures of loops capture -/

/-- A round of a loop over items: the scope made for its item, the world in which the item has been
bound there, and the world its body leaves. -/
structure Evaluation.ItemRound (m : Machine) (kind : DeclKind) (s : ScopeId) (binding : Pattern)
    (body : Stmt) (item : Value) (w : World) (inner : ScopeId) (w₁ w₂ : World) : Prop where
  ran : ∃ w₀, m.step w = .ok () w₀ ∧ inner = ⟨w₀.heap.scopes.size⟩ ∧
    m.bind kind inner binding item (finalWorld (Action.childScope s w₀)) = .ok () w₁ ∧
    w₂ = finalWorld (m.exec inner body w₁)

section

variable {n : Nat} {body : Stmt} {w w₁ w₂ : World} {inner : ScopeId}

/-- A closure made in a round of a counting loop captures the one scope of the loop. -/
theorem Evaluation.Round.captures {head : ScopeId} {test : Option Expr} {name : String} {b : Binding}
    (h : Round (machineWithin n) head test body w inner w₂)
    (hhead : head.index < w.heap.scopes.size)
    (hb : (w.heap.scope head).bindings.get? name = some b) :
    w₂.heap.Captures inner name head := by
  obtain ⟨w₁, htest, rfl, rfl⟩ := h.ran
  have hleads : ((machineWithin n).step >>= fun _ ↦
      testHolds (machineWithin n) head test).Leads Stop.never :=
    .bind (machineWithin_leads n 0).step fun _ ↦ leads_testHolds
  have hw : w.heap.KeepsScopes w₁.heap := by
    have hleads := hleads w
    rw [htest] at hleads
    exact hleads.keepsScopes
  have hchild : w.heap.KeepsScopes (finalWorld (Action.childScope head w₁)).heap :=
    hw.trans (.newScope w₁.heap _)
  obtain ⟨b₁, hb₁⟩ := (hchild.scope hhead).declared hb
  have hscope := scope_childScope head w₁
  have hcaptures : (finalWorld (Action.childScope head w₁)).heap.Captures
      ⟨w₁.heap.scopes.size⟩ name head :=
    Heap.captures_parent (Nat.lt_of_lt_of_le hhead hw.scopes_le)
      (by rw [size_childScope]; exact Nat.lt_succ_self _) (congrArg Scope.parent hscope)
      (congrArg Scope.fallback hscope) hb₁
  exact hcaptures.mono (leads_exec n _ body _).keepsScopes

/-- A closure made in a round over items captures a scope that is new in this round. -/
theorem Evaluation.ItemRound.captures {kind : DeclKind} {s : ScopeId} {binding : Pattern}
    {item : Value} (h : ItemRound (machineWithin n) kind s binding body item w inner w₁ w₂) :
    (w.heap.scopes.size ≤ inner.index ∧ inner.index < w₂.heap.scopes.size) ∧
      ∀ {name : String} {b : Binding}, (w₁.heap.scope inner).bindings.get? name = some b →
        w₂.heap.Captures inner name inner := by
  obtain ⟨w₀, hstep, rfl, hbind, rfl⟩ := h.ran
  have hw₀ : w.heap.KeepsScopes w₀.heap := by
    have hleads := (machineWithin_leads n 0).step w
    rw [hstep] at hleads
    exact hleads.keepsScopes
  have hw₁ : (finalWorld (Action.childScope s w₀)).heap.KeepsScopes w₁.heap := by
    have hleads := (machineWithin_leads n (2 * SizeOf.sizeOf binding + 1)).pattern kind
      ⟨w₀.heap.scopes.size⟩ binding item (Nat.lt_succ_self _) (finalWorld (Action.childScope s w₀))
    rw [hbind] at hleads
    exact hleads.keepsScopes
  have hinner : w₀.heap.scopes.size < w₁.heap.scopes.size :=
    Nat.lt_of_lt_of_le (by rw [size_childScope]; exact Nat.lt_succ_self _) hw₁.scopes_le
  have hbody := (leads_exec n ⟨w₀.heap.scopes.size⟩ body w₁).keepsScopes
  exact ⟨⟨hw₀.scopes_le, Nat.lt_of_lt_of_le hinner hbody.scopes_le⟩,
    fun hb ↦ (Heap.captures_self hinner hb).mono hbody⟩

end

/-- The closures that the rounds of a counting loop make have the variables that were declared in the
scope of its head before the first round: whenever they are called later, also after the loop, they see
what was last assigned to these. The rounds of a loop over items have variables in scopes of
their own. -/
theorem loops_capture (n : Nat) {s : ScopeId} {init : Stmt} {w w₀ : World} {c : Completion}
    (hinit : (machineWithin n).exec ⟨w.heap.scopes.size⟩ init
      (finalWorld (Action.childScope s w)) = .ok c w₀)
    (test update : Option Expr) (body : Stmt) :
    let m := machineWithin n
    let head : ScopeId := ⟨w.heap.scopes.size⟩
    (∀ {k : Nat} {v v₂ : World} {inner : ScopeId}, k < n →
      Rounds m head test update body k w₀ v → Round m head test body v inner v₂ →
      v₂.heap.KeepsScopes (finalWorld (forLoop m s (some init) test update body w)).heap ∧
      ∀ {name : String} {b : Binding}, (w₀.heap.scope head).bindings.get? name = some b →
        v₂.heap.Captures inner name head) ∧
    (∀ {kind : DeclKind} {binding : Pattern} {item : Value} {v v₁ v₂ : World} {inner : ScopeId},
      ItemRound m kind s binding body item v inner v₁ v₂ →
      (v.heap.scopes.size ≤ inner.index ∧ inner.index < v₂.heap.scopes.size) ∧
      ∀ {name : String} {b : Binding}, (v₁.heap.scope inner).bindings.get? name = some b →
        v₂.heap.Captures inner name inner) ∧
    ∀ (entry : Entry) (u : World), u.heap.KeepsScopes (finalWorld (entry.run machine u)).heap := by
  refine ⟨fun {k v v₂ inner} hk hrounds hround ↦ ?_, fun hround ↦ ?_, fun entry u ↦ ?_⟩
  · have hloop := forLoop_of_init hinit test update body
    have hhead : w.heap.scopes.size < w₀.heap.scopes.size := by
      have hleads := leads_exec n ⟨w.heap.scopes.size⟩ init (finalWorld (Action.childScope s w))
      rw [hinit] at hleads
      have hle := hleads.keepsScopes.scopes_le
      rw [size_childScope] at hle
      exact hle
    have hkeeps := hrounds.keepsScopes
    refine ⟨?_, fun hb ↦ ?_⟩
    · obtain ⟨j, hj⟩ := Nat.exists_eq_add_of_lt hk
      have hrest := hrounds.repeatRounds (j + 1)
      rw [show j + 1 + k = (machineWithin n).rounds from (by omega : j + 1 + k = n)] at hrest
      rw [hloop, hrest]
      exact (hround.leads_loop j).keepsScopes
    · obtain ⟨b₁, hb₁⟩ := (hkeeps.scope hhead).declared hb
      exact hround.captures (Nat.lt_of_lt_of_le hhead hkeeps.scopes_le) hb₁
  · exact hround.captures
  · exact (Action.Leads.run_machine entry u).keepsScopes

/-! ### A loop whose closure sees the end of the loop -/

/-- `let more = true` -/
def sharedInit : Stmt :=
  .declare .letKind [.declare (.name "more") (some (.literal (.bool true)))]

/-- `more = false` -/
def sharedUpdate : Expr := .assign .plain (.name "more") (.literal (.bool false))

/-- `{ f = () => more; seen = f(); }` -/
def sharedBody : Stmt :=
  let reader := Expr.function (.make none [] none [.return (some (.name "more"))] true)
  .block [
    .expr (.assign .plain (.name "f") reader),
    .expr (.assign .plain (.name "seen") (.call (.name "f") [] false))]

/-- `let f, seen; for (let more = true; more; more = false) { f = () => more; seen = f(); }`, and
whether `f` still gives what it gave in its round. -/
def sharedLoop : Entry :=
  .program ⟨0⟩ [
    .declare .letKind [.declare (.name "f") none, .declare (.name "seen") none],
    .forLoop (some sharedInit) (some (.name "more")) (some sharedUpdate) sharedBody,
    .return (some (.binary .strictEq (.name "seen") (.call (.name "f") [] false)))]

/-- A world with a root scope. -/
def World.rooted : World :=
  ⟨(Heap.empty.newScope ⟨[], none, none, none, true⟩).2, Run.start ⟨8, some 100, fun _ _ ↦ true⟩ .undefined⟩

/-- What is made in the loop's only round keeps the variable of the head. -/
theorem loops_capture_shared :
    (finalWorld (forLoop (machineWithin 12) ⟨0⟩ (some sharedInit) (some (.name "more"))
      (some sharedUpdate) sharedBody .rooted)).heap.Captures ⟨2⟩ "more" ⟨1⟩ := by
  have hround : Round (machineWithin 12) ⟨1⟩ (some (.name "more")) sharedBody
      (finalWorld ((machineWithin 12).exec ⟨1⟩ sharedInit (finalWorld (Action.childScope ⟨0⟩ .rooted))))
      ⟨2⟩ _ := ⟨_, rfl, rfl, rfl⟩
  have hcapture := (@loops_capture 12 ⟨0⟩ sharedInit .rooted _ _ rfl (some (.name "more"))
    (some sharedUpdate) sharedBody).1 (by decide) (.none _) hround
  exact (hcapture.2 rfl).mono hcapture.1

/-- After the loop the closure gives something else than it did in its round. -/
theorem sharedLoop_differs :
    (match sharedLoop.run (machineWithin 12) .rooted with
      | .ok (.bool b) _ => b
      | _ => true) = false := by
  decide +kernel

end Nodecraft.Sandbox
