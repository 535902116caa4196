import Nodecraft.Proofs.Sandbox.Probe
import Nodecraft.Template.Render

/-!
# Relations between renderings

Rendering runs code only through the machine it is given: it evaluates expressions, binds the names
of loops and reads properties. A relation between actions that holds of these over two machines, and
is kept by running one action after another, holds of whole renderings over the two (`Respects.run`).
The relations that the rules of evaluation respect are of this kind (`Respects.of_asked`).
-/

set_option autoImplicit false

namespace Nodecraft.Template

open Script Sandbox

/-- A relation between actions that holds of what rendering does over two machines. -/
structure Respects (R : (α : Type) → Action α → Action α → Prop) (m m' : Machine) : Prop where
  pure {α : Type} (a : α) : R α (pure a) (pure a)
  bind {α β : Type} {x y : Action α} {f g : α → Action β} :
    R α x y → (∀ a, R β (f a) (g a)) → R β (x >>= f) (y >>= g)
  read {β : Type} {f g : Heap → Action β} :
    (∀ h, R β (f h) (g h)) → R β (Action.heap >>= f) (Action.heap >>= g)
  typeError {α : Type} (message : String) :
    R α (Action.typeError message) (Action.typeError message)
  unfinished {α : Type} : R α (throw .unfinished) (throw .unfinished)
  newScope (scope : Scope) : R ScopeId (Action.newScope scope) (Action.newScope scope)
  valueOf (s : ScopeId) (e : Expr) : R Value (valueOf m s e) (valueOf m' s e)
  pattern (kind : DeclKind) (s : ScopeId) (p : Pattern) (v : Value) :
    R Unit (m.bind kind s p v) (m'.bind kind s p v)
  getProperty (target : Value) (key : String) :
    R Value (Action.getProperty m.call target key) (Action.getProperty m'.call target key)

/-- What an expression stands for that failed. -/
def fallback : ScriptError → Action Value
  | .unbound _ => return .undefined
  | e => Action.raise e

/-- An expression of a template falls back where it fails. -/
theorem valueOf_eq (m : Machine) (s : ScopeId) (e : Expr) :
    valueOf m s e = Action.catching (m.eval s e) fallback := by
  funext w
  unfold valueOf Action.catching
  rw [Action.bind_apply]
  unfold Action.outcome
  cases m.eval s e w with
  | ok v w => rfl
  | error failure w =>
    cases failure with
    | raised e => cases e <;> rfl
    | _ => rfl

/-- A relation that the rules of evaluation respect holds of what rendering does. -/
theorem Respects.of_asked {R : (α : Type) → Action α → Action α → Prop} {m m' : Machine}
    (h : ∀ size, Machine.Asked R (fun _ ↦ True) size m m')
    (raise : ∀ {α : Type} (e : ScriptError), e.isCatchable = true →
      R α (Action.raise e) (Action.raise e))
    (unfinished : ∀ {α : Type}, R α (throw .unfinished) (throw .unfinished)) : Respects R m m' where
  pure := (h 0).pure
  bind := (h 0).bind
  read := (h 0).read
  typeError _ := raise _ rfl
  unfinished := unfinished
  newScope := (h 0).newScope
  valueOf s e := by
    rw [valueOf_eq, valueOf_eq]
    refine (h 0).catching ((h _).eval s e (Nat.lt_succ_self _)) fun e he ↦ ?_
    cases e with
    | unbound name => exact (h 0).pure _
    | _ => exact raise _ he
  pattern kind s p v := (h _).pattern kind s p v (Nat.lt_succ_self _)
  getProperty := (h 0).getProperty (h 0).call

/-- Renderings are related that are so whatever handlers have been bound. -/
def Rendering.Related (R : (α : Type) → Action α → Action α → Prop) {α : Type}
    (x y : Rendering α) : Prop :=
  ∀ handlers, R (α × Array BoundHandler) (x.run handlers) (y.run handlers)

namespace Respects

variable {R : (α : Type) → Action α → Action α → Prop} {m m' : Machine} (h : Respects R m m')

include h

/-! ### Texts, loops and attributes -/

theorem heap : R Heap Action.heap Action.heap := h.read fun heap ↦ h.pure heap

/-- A text is evaluated alike on related machines. -/
theorem interpolate (s : ScopeId) (parts : List TextPart) :
    R String (interpolate m s parts) (interpolate m' s parts) := by
  induction parts with
  | nil => exact h.pure _
  | cons part rest ih =>
    cases part with
    | fixed text => exact h.bind ih fun _ ↦ h.pure _
    | shown e =>
      exact h.bind (h.valueOf s e) fun v ↦ h.read fun _ ↦ h.bind ih fun _ ↦ h.pure _

theorem objectRows (source : Value) (keys : List String) : ∀ i : Nat,
    R (List (List Value)) (objectRows m source i keys) (objectRows m' source i keys) := by
  induction keys with
  | nil => exact fun _ ↦ h.pure _
  | cons key rest ih =>
    exact fun i ↦ h.bind (h.getProperty source key) fun _ ↦ h.bind (ih (i + 1)) fun _ ↦ h.pure _

/-- So are the rows of a loop. -/
theorem loopRows (source : Value) :
    R (List (List Value)) (loopRows m source) (loopRows m' source) := by
  cases source with
  | array a => exact h.read fun _ ↦ h.pure _
  | number x =>
    dsimp only [Template.loopRows]
    split
    · exact h.typeError _
    · exact h.pure _
  | object o => exact h.read fun _ ↦ h.objectRows _ _ _
  | _ => exact h.pure _

theorem bindAliases (s : ScopeId) (aliases : List Pattern) : ∀ values : List Value,
    R Unit (bindAliases m s aliases values) (bindAliases m' s aliases values) := by
  induction aliases with
  | nil => exact fun _ ↦ h.pure _
  | cons p rest ih =>
    intro values
    cases values with
    | nil => exact h.pure _
    | cons v values => exact h.bind (h.pattern .constKind s p v) fun _ ↦ ih values

theorem addValue (acc : Evaluated) (name : String) (v : Value) :
    R Evaluated (addValue acc name v) (addValue acc name v) := by
  refine h.read fun heap ↦ ?_
  split
  · cases classText? heap v with
    | some text => exact h.pure _
    | none => exact h.unfinished
  · split
    · cases styleText? heap v with
      | some text => exact h.pure _
      | none => exact h.unfinished
    · exact h.pure _

theorem addEntries (source : Value) (keys : List String) : ∀ acc : Evaluated,
    R Evaluated (addEntries m source acc keys) (addEntries m' source acc keys) := by
  induction keys with
  | nil => exact fun _ ↦ h.pure _
  | cons key rest ih =>
    exact fun acc ↦ h.bind (h.getProperty source key) fun v ↦ h.bind (h.addValue acc key v) ih

theorem addAttribute (s : ScopeId) (acc : Evaluated) (a : Attribute) :
    R Evaluated (addAttribute m s acc a) (addAttribute m' s acc a) := by
  cases a with
  | fixed name value => exact h.addValue acc name _
  | bound name e => exact h.bind (h.valueOf s e) fun v ↦ h.addValue acc name v
  | spread e => exact h.bind (h.valueOf s e) fun v ↦ h.read fun _ ↦ h.addEntries v _ acc

/-- So are attributes. -/
theorem evaluateAttributes (s : ScopeId) (attributes : List Attribute) : ∀ acc : Evaluated,
    R Evaluated (evaluateAttributes m s acc attributes) (evaluateAttributes m' s acc attributes) := by
  induction attributes with
  | nil => exact fun _ ↦ h.pure _
  | cons a rest ih => exact fun acc ↦ h.bind (h.addAttribute s acc a) ih

/-- So is the visibility. -/
theorem addVisibility (s : ScopeId) (acc : Evaluated) (visible : Option Expr) :
    R Evaluated (addVisibility m s acc visible) (addVisibility m' s acc visible) := by
  cases visible with
  | none => exact h.pure _
  | some e =>
    refine h.bind (h.valueOf s e) fun v ↦ ?_
    split
    · exact h.pure _
    · exact h.pure _

/-! ### Trees -/

theorem returns {α : Type} (a : α) : Rendering.Related R (Pure.pure a) (Pure.pure a) :=
  fun handlers ↦ h.pure (a, handlers)

/-- One rendering after the other. -/
theorem sequence {α β : Type} {x y : Rendering α} {f g : α → Rendering β}
    (hxy : Rendering.Related R x y) (hfg : ∀ a, Rendering.Related R (f a) (g a)) :
    Rendering.Related R (x >>= f) (y >>= g) :=
  fun handlers ↦ h.bind (hxy handlers) fun p ↦ hfg p.1 p.2

theorem lift {α : Type} {x y : Action α} (hxy : R α x y) :
    Rendering.Related R (liftM x : Rendering α) (liftM y : Rendering α) :=
  fun handlers ↦ h.bind hxy fun a ↦ h.pure (a, handlers)

theorem bindEvents (s : ScopeId) (events : List (String × Nat)) : ∀ acc : List (String × Nat),
    Rendering.Related R (bindEvents s acc events) (bindEvents s acc events) := by
  induction events with
  | nil => exact fun _ ↦ h.returns _
  | cons event rest ih =>
    obtain ⟨name, handler⟩ := event
    exact fun acc handlers ↦ h.bind (h.pure (handlers.size, handlers.push ⟨handler, s⟩))
      fun p ↦ ih _ p.2

theorem renderRows (aliases : List Pattern) {body body' : ScopeId → Rendering (List View.Node)}
    (hbody : ∀ s, Rendering.Related R (body s) (body' s)) (s : ScopeId)
    (rows : List (List Value)) :
    Rendering.Related R (renderRows m aliases body s rows) (renderRows m' aliases body' s rows) := by
  induction rows with
  | nil => exact h.returns _
  | cons values rest ih =>
    exact h.sequence (h.lift (h.newScope _)) fun inner ↦
      h.sequence (h.lift (h.bindAliases inner aliases values)) fun _ ↦
        h.sequence (hbody inner) fun _ ↦ h.sequence ih fun _ ↦ h.returns _

variable (registered : Registered)

mutual

/-- A tree is rendered alike, by recursion over it together with its children and branches. -/
theorem render (s : ScopeId) : ∀ t : Tree,
    Rendering.Related R (render m registered s t) (render m' registered s t)
  | .text text => by
    unfold Template.render
    exact h.returns _
  | .interpolated parts => by
    unfold Template.render
    exact h.sequence (h.lift (h.interpolate s parts)) fun _ ↦ h.returns _
  | .fragment children => by
    unfold Template.render
    exact renderAll s children
  | .conditional branches => by
    unfold Template.render
    exact renderBranches s branches
  | .loop aliases source body => by
    unfold Template.render
    exact h.sequence (h.lift (h.valueOf s source)) fun v ↦
      h.sequence (h.lift (h.loopRows v)) fun rows ↦
        h.renderRows aliases (fun inner ↦ render inner body) s rows
  | .element tag attributes events visible children => by
    unfold Template.render
    refine h.sequence (h.lift (h.evaluateAttributes s attributes _)) fun acc ↦
      h.sequence (h.lift (h.addVisibility s acc visible)) fun acc ↦
        h.sequence (h.bindEvents s events []) fun events ↦
          h.sequence (renderAll s children) fun children ↦ h.sequence (h.lift h.heap) fun heap ↦ ?_
    cases componentOf? registered tag with
    | some name => exact h.returns _
    | none => exact h.returns _

theorem renderAll (s : ScopeId) : ∀ trees : List Tree,
    Rendering.Related R (renderAll m registered s trees) (renderAll m' registered s trees)
  | [] => by
    unfold Template.renderAll
    exact h.returns _
  | t :: rest => by
    unfold Template.renderAll
    exact h.sequence (render s t) fun _ ↦ h.sequence (renderAll s rest) fun _ ↦ h.returns _

theorem renderBranches (s : ScopeId) : ∀ branches : List Branch,
    Rendering.Related R (renderBranches m registered s branches)
      (renderBranches m' registered s branches)
  | [] => by
    unfold Template.renderBranches
    exact h.returns _
  | .branch none t :: _ => by
    unfold Template.renderBranches
    exact render s t
  | .branch (some test) t :: rest => by
    unfold Template.renderBranches
    refine h.sequence (h.lift (h.valueOf s test)) fun v ↦ ?_
    split
    · exact render s t
    · exact renderBranches s rest

end

/-- A relation that holds of what rendering does over two machines holds of whole renderings. -/
theorem run (t : Template) (state : Value) :
    R Output (runOn m t registered state) (runOn m' t registered state) := by
  refine h.bind (h.bind (h.newScope _) fun outer ↦ h.newScope _) fun s ↦ ?_
  exact h.bind (h.renderAll registered s t.roots #[]) fun p ↦ h.pure _

end Respects

/-- Handlers run over machines that are related are related. -/
theorem invokeOn_related {R : (α : Type) → Action α → Action α → Prop} {m m' : Machine}
    (h : ∀ size, Machine.Related R (fun _ ↦ True) size m m') (t : Template) (bound : BoundHandler)
    (event : Value) : R Unit (t.invokeOn m bound event) (t.invokeOn m' bound event) := by
  have heval (s : ScopeId) (e : Expr) : R Value (m.eval s e) (m'.eval s e) :=
    (h _).eval s e (Nat.lt_succ_self _)
  unfold invokeOn
  cases t.handlers[bound.handler]? with
  | none => exact (h 0).typeError _ (.of_ne (by decide))
  | some handler =>
    refine (h 0).bind ((h 0).childScope bound.scope) fun s ↦
      (h 0).bind ((h 0).declare s "$event" event false) fun _ ↦ ?_
    cases handler with
    | inline body => exact (h 0).discard ((h _).program s body (Nat.le_refl _))
    | callable e =>
      cases e with
      | member object key _ =>
        exact (h 0).bind (heval s object) fun target ↦
          (h 0).bind ((h _).memberKey s key (Nat.le_refl _)) fun key ↦
          (h 0).bind ((h 0).getProperty (h 0).call target key) fun f ↦
          (h 0).discard ((h 0).call f target [event])
      | _ => exact (h 0).bind (heval s _) fun f ↦ (h 0).discard ((h 0).call f .undefined [event])

end Nodecraft.Template
