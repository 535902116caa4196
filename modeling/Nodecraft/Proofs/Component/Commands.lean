import Nodecraft.Proofs.Component.Operations
import Nodecraft.Proofs.Sandbox.Leads

/-!
# What an instance is asked to do

A mounted instance obeys commands one after the other, and goes on whatever they end with. Commands
that run handlers or methods settle afterwards (`Command.obeyOn_eq`).

What obeying does to the world is a sequence of the changes that scripts make, and one more when the
instance ends. So an invariant of these changes is one of whole lives (`Instance.observes_of_leads`),
and it comes with the runs on a machine that stops before certain changes: what ends there ends in the
same way on the machine itself.
-/

set_option autoImplicit false

namespace Nodecraft

open Sandbox

namespace Instance

/-! ### Commands -/

inductive Command
  | get (key : String)
  | render
  | stateJson
  | trigger (id : Nat) (event : Json)
  | callMethod (name : String) (args : List Json)
  /-- The last thing that mounting does. -/
  | settle
  | unmount

namespace Command

def obeyOn (m : Machine) : Command → Op Unit
  | .get key => discard (getOn m key)
  | .render => discard (renderOn m)
  | .stateJson => discard (stateJsonOn m)
  | .trigger id event => triggerOn m id event
  | .callMethod name args => discard (callMethodOn m name args)
  | .settle => settleOn m
  | .unmount => unmountOn m

def obey : Command → Op Unit := obeyOn machine

/-- What is done before watchers have their turns, if they have. -/
def workOn (m : Machine) : Command → Op Unit
  | .trigger id event => handleOn m id event
  | .callMethod name args => discard (runMethodOn m name args)
  | .settle => pure ()
  | c => c.obeyOn m

def work : Command → Op Unit := workOn machine

def settles : Command → Bool
  | .trigger _ _ => true
  | .callMethod _ _ => true
  | .settle => true
  | _ => false

/-- A command is its work and, for most, settling. -/
theorem obeyOn_eq (m : Machine) (c : Command) : c.obeyOn m = (do
    c.workOn m
    if c.settles then settleOn m) := by
  cases c with
  | trigger id event => rfl
  | callMethod name args =>
    have hdiscard {α : Type} (x : Op α) : discard x = x >>= fun _ ↦ pure () := rfl
    change discard (callMethodOn m name args) =
      discard (runMethodOn m name args) >>= fun _ ↦ settleOn m
    unfold callMethodOn
    simp only [hdiscard, bind_assoc, pure_bind, bind_pure_unit]
  | settle => rfl
  | _ => exact (bind_pure_unit).symm

/-- The same on the machine. -/
theorem obey_eq (c : Command) : c.obey = (do
    c.work
    if c.settles then Instance.settle) :=
  c.obeyOn_eq machine

end Command

/-- An instance that has obeyed commands, whatever they have ended with. -/
def after (i : Instance) (commands : List Command) : Instance :=
  commands.foldl (fun i c ↦ left (c.obey i)) i

section

variable {S : (α : Type) → Instance → Op α → Op α → Prop}
  {R : (α : Type) → Action α → Action α → Prop} {m m' : Machine} (h : Works S R m m')

include h

/-- Every command works alike on machines that serve alike. -/
theorem Works.workOn (i : Instance) (c : Command) : S Unit i (c.workOn m) (c.workOn m') := by
  cases c with
  | get key => exact h.discard (h.getOn i key)
  | render => exact h.discard (h.renderOn i)
  | stateJson => exact h.discard (h.stateJsonOn i)
  | trigger id event => exact h.handleOn i id event
  | callMethod name args => exact h.discard (h.runMethodOn i name args)
  | settle => exact h.pure i _
  | unmount => exact h.unmountOn i

/-- Every command, settling included, works alike on machines that serve alike. -/
theorem Works.obeyOn (ho : Observes S R m m') (i : Instance) (c : Command) :
    S Unit i (c.obeyOn m) (c.obeyOn m') := by
  rw [c.obeyOn_eq, c.obeyOn_eq]
  refine h.bind (h.workOn i c) fun _ j _ ↦ ?_
  split
  · exact ho.settleOn j
  · exact h.pure j _

end

/-! ### Invariants of what scripts change -/

/-- The operation came to an end by itself. -/
def Ended {α : Type} : EStateM.Result Failure Instance α → Prop
  | .error .unfinished _ => False
  | _ => True

instance {α : Type} : ∀ r : EStateM.Result Failure Instance α, Decidable (Ended r)
  | .ok _ _ => isTrue trivial
  | .error (.raised _) _ => isTrue trivial
  | .error .unfinished _ => isFalse id
  | .error .overlap _ => isTrue trivial

theorem Ended.of_error {α β : Type} {e : Failure} {i j : Instance}
    (h : Ended (.error e i : EStateM.Result Failure Instance α)) :
    Ended (.error e j : EStateM.Result Failure Instance β) := by
  cases e <;> exact h

/-- Operations do the same on machines of which the second does whatever the first does. -/
theorem works_of_refines {m m' : Machine} (h : m.Serves (fun _ x y ↦ x.Refines y) m') :
    Works (fun _ i x y ↦ Ended (x i) → y i = x i) (fun _ x y ↦ x.Refines y) m m' where
  toServes := h
  pure _ _ _ := rfl
  bind {_ _ i x y f g} hxy hfg hended := by
    cases hx : x i with
    | ok a j =>
      have hy : y i = .ok a j := (hxy (hx ▸ trivial)).trans hx
      rw [bind_of_ok hx] at hended ⊢
      rw [bind_of_ok hy]
      exact hfg a j hx hended
    | error e j =>
      rw [bind_of_error hx] at hended ⊢
      exact bind_of_error ((hxy (hx ▸ hended.of_error)).trans hx)
  read hfg := hfg
  lift i x y hxy hended := by
    cases hx : x i.world with
    | ok a w => rw [lift_of_ok hx, lift_of_ok ((hxy _ (hx ▸ trivial)).trans hx)]
    | error e w =>
      rw [lift_of_error hx] at hended ⊢
      refine lift_of_error ((hxy _ ?_).trans hx)
      rw [hx]
      cases e <;> exact hended
  shows _ _ _ := rfl
  close _ _ := rfl
  finish _ _ := rfl

/-- With more fuel, operations that end do the same. -/
theorem observes_of_refines {m m' : Machine} (h : m.Serves (fun _ x y ↦ x.Refines y) m') :
    Observes (fun _ i x y ↦ Ended (x i) → y i = x i) (fun _ x y ↦ x.Refines y) m m' where
  toRespects := (works_of_refines h).toRespects
  report _ _ _ _ := rfl

/-- A probe with more fuel that stops less often serves as its refinement. -/
theorem serves_refines {stop stop' : Stop} (hstop : ∀ q w, stop' q w → stop q w) {n n' : Nat}
    (hn : n ≤ n') : (probe stop n).Serves (fun _ x y ↦ x.Refines y) (probe stop' n') :=
  Machine.Related.serves (probe_refines hstop n n' hn) (.refl _) (fun _ _ ↦ .refl _)
    (.of_unfinished _)

theorem serves_refines_machine (stop : Stop) :
    (probe stop patience).Serves (fun _ x y ↦ x.Refines y) machine := by
  have hstop (q : Query) (w : World) : Stop.never q w → stop q w := fun h ↦ nomatch h
  have hserves := serves_refines hstop (Nat.le_refl patience)
  rwa [probe_never] at hserves

theorem serves_leads (stop : Stop) (n : Nat) :
    (probe stop n).Serves (fun _ x _ ↦ x.Leads stop) (probe stop n) :=
  Machine.Related.serves ((Probing.leads stop stop).related n) .takeTicks (fun _ _ ↦ .failure _)
    (.failure _)

/-- What a command does that ends on a machine that stops, it does on the machine. -/
theorem Command.obey_of_ended {stop : Stop} {c : Command} {i : Instance}
    (h : Ended (c.obeyOn (probe stop patience) i)) : c.obey i = c.obeyOn (probe stop patience) i :=
  have hserves := serves_refines_machine stop
  (works_of_refines hserves).obeyOn (observes_of_refines hserves) i c h

/-- A command that ends where evaluations nest less deep ends. -/
theorem Command.ended_of_le {stop : Stop} {c : Command} {i : Instance} {n n' : Nat} (hn : n ≤ n')
    (h : Ended (c.obeyOn (probe stop n) i)) : Ended (c.obeyOn (probe stop n') i) := by
  have hstop (q : Query) (w : World) : stop q w → stop q w := id
  have hserves := serves_refines hstop hn
  have heq := (works_of_refines hserves).obeyOn (observes_of_refines hserves) i c h
  rwa [heq]

/-- A launch that ends on the probe ends alike on the machine. -/
theorem launch_of_ended {stop : Stop} {watch : Fields Value} {i : Instance}
    (h : Ended (launchOn (probe stop patience) watch i)) :
    launchOn machine watch i = launchOn (probe stop patience) watch i :=
  (works_of_refines (serves_refines_machine stop)).toRespects.launchOn (fun _ _ _ ↦ rfl) i watch h

/-- Setup does what scripts do. -/
theorem leads_callSetup (setup : Value) : (callSetup setup).Leads Stop.never := by
  intro w
  have hcontext : (setupContext w.run.props).Leads Stop.never :=
    (Action.Leads.newFunction _).bind fun _ ↦
      (Action.Leads.newObject .plain _).bind fun _ ↦ .pure _
  exact hcontext.bind (fun context ↦ .call_machine setup .undefined [w.run.props, context]) w

/-- What is registered during setup is kept outside of the heap. -/
theorem heap_registering {α : Type} (x : Action α) (w : World) :
    (finalWorld (registering x w)).heap =
      (finalWorld (x { w with run := { w.run with hooks := some .empty } })).heap := by
  change (finalWorld ((x >>= fun a ↦ _) { w with run := { w.run with hooks := some .empty } })).heap = _
  rw [Action.bind_apply]
  cases x { w with run := { w.run with hooks := some .empty } } <;> rfl

/-- A relation between worlds that outlasts the changes of scripts, and a state's loss of its
functions. -/
structure Outlasts (stop : Stop) (P : World → World → Prop) : Prop where
  leads {w w₁ : World} : w.Leads stop w₁ → P w w₁
  trans {w w₁ w₂ : World} : P w w₁ → P w₁ w₂ → P w w₂
  strip (w : World) (o : ObjectId) : P w { w with heap := w.heap.modifyObject o fun object ↦
    { object with fields := object.fields.filter fun f ↦ !f.2.isFunction } }

/-- The same state, in a world that has changed. -/
structure Goes (P : World → World → Prop) (i j : Instance) : Prop where
  state : j.state = i.state
  world : P i.world j.world

section

variable {stop : Stop} {P : World → World → Prop} (h : Outlasts stop P) {n : Nat}

include h

/-- An invariant of scripts outlasts the work of every operation. -/
theorem Outlasts.works : Works (fun _ i x _ ↦ i.Goes P (left (x i)))
    (fun _ x _ ↦ ∀ w, P w (finalWorld (x w))) (probe stop n) (probe stop n) where
  toRespects := .ofPreorder ((serves_leads stop n).mono fun hx w ↦ h.leads (hx w))
    (fun _ ↦ ⟨rfl, h.leads (.refl _)⟩)
    (fun hij hjk ↦ ⟨hjk.state.trans hij.state, h.trans hij.world hjk.world⟩)
    fun i _ _ hx ↦ ⟨rfl, hx i.world⟩
  shows _ _ := ⟨rfl, h.leads (.refl _)⟩
  close i := ⟨rfl, h.strip i.world i.state⟩
  finish _ := ⟨rfl, h.leads (.refl _)⟩

/-- An invariant of scripts outlasts the reports of settling. -/
theorem Outlasts.observes : Observes (fun _ i x _ ↦ i.Goes P (left (x i)))
    (fun _ x _ ↦ ∀ w, P w (finalWorld (x w))) (probe stop n) (probe stop n) where
  toRespects := h.works.toRespects
  report _ _ _ := ⟨rfl, h.leads (.refl _)⟩

/-- An invariant of scripts outlasts every command that a probe serves. -/
theorem Outlasts.obeyOn (c : Command) (i : Instance) :
    i.Goes P (left (c.obeyOn (probe stop n) i)) :=
  h.works.obeyOn h.observes i c

/-- An invariant of scripts outlasts a launch that a probe serves. -/
theorem Outlasts.launchOn (watch : Fields Value) (i : Instance) :
    i.Goes P (left (launchOn (probe stop n) watch i)) :=
  h.works.toRespects.launchOn (fun _ _ ↦ ⟨rfl, h.leads (.refl _)⟩) i watch

end

section

variable {P : World → World → Prop} (h : Outlasts Stop.never P)

include h

theorem Outlasts.works_machine : Works (fun _ i x _ ↦ i.Goes P (left (x i)))
    (fun _ x _ ↦ ∀ w, P w (finalWorld (x w))) machine machine := by
  have hworks := h.works (n := patience)
  rwa [probe_never] at hworks

theorem Outlasts.observes_machine : Observes (fun _ i x _ ↦ i.Goes P (left (x i)))
    (fun _ x _ ↦ ∀ w, P w (finalWorld (x w))) machine machine := by
  have hobserves := h.observes (n := patience)
  rwa [probe_never] at hobserves

/-- An invariant of scripts outlasts every command. -/
theorem Outlasts.obey (c : Command) (i : Instance) : i.Goes P (left (c.obey i)) :=
  h.works_machine.obeyOn h.observes_machine i c

/-- An invariant of scripts outlasts the launch. -/
theorem Outlasts.launch (watch : Fields Value) (i : Instance) :
    i.Goes P (left (Instance.launchOn machine watch i)) :=
  h.works_machine.toRespects.launchOn (fun _ _ ↦ ⟨rfl, h.leads (.refl _)⟩) i watch

end

end Instance

end Nodecraft
