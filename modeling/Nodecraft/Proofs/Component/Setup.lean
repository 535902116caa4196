import Nodecraft.Component.Instance
import Nodecraft.Proofs.Component.Evaluation
import Nodecraft.Proofs.Sequence

/-!
# User code that runs while an instance is set up

What contributes to a state before it is handed to a script: the hook before creation and the
factory of the user's data run before there is a state (`Component.factory`), and setup runs when
there is one (`Component.setupFields`). They do the same in worlds that are alike.
-/

set_option autoImplicit false

namespace Nodecraft

open Sandbox Pairing

namespace Component

/-- Runs the hook before creation and the factory of the user's data, and gives its fields. -/
def factory (c : Component) : Action (Fields Value) := do
  match c.hook .beforeCreate with
  | some f => discard (Action.call f (← c.reservedObject) [])
  | none => pure ()
  c.userData

/-- A state with the given fields, and the reserved ones. -/
def stateOf (c : Component) (user : Fields Value) : Action ObjectId := do
  let reserved ← c.reservedEntries
  Action.newObject .state (reserved.foldl (fun fields f ↦ fields.insert f.1 f.2) user)

/-- Creation is the factory, then the state of what it gave. -/
theorem create_eq (c : Component) : Instance.create c = c.factory >>= c.stateOf := by
  unfold Instance.create factory newState
  cases c.hook .beforeCreate with
  | none => rfl
  | some f => simp only [bind_assoc]; rfl

/-- The fields that setup contributes, and what it has registered. -/
def setupFields (c : Component) : Action (Fields Value × HookRegistry) := do
  match c.options.setup with
  | none => return ([], .empty)
  | some setup =>
    let r ← Instance.registering (Instance.callSetup setup)
    return (contributed (← Action.heap) r.1, r.2)

section

variable {p : Pairing} {c : Component}

theorem hook_alike (hc : Options.Alike p c.options c.options) (hook : LifecycleHook) :
    OptionAlike Value.Alike p (c.hook hook) (c.hook hook) :=
  ListAlike.lookup hc.hooks hook

/-- The object that the sides of a node are in. -/
def sides : Object :=
  ⟨.plain, [("Left", .string "left"), ("Top", .string "top"), ("Right", .string "right"),
    ("Bottom", .string "bottom")], true⟩

theorem sides_alike (p : Pairing) : Object.Alike p sides sides where
  kind := .plain
  fields := .cons ⟨rfl, .string _⟩ (.cons ⟨rfl, .string _⟩ (.cons ⟨rfl, .string _⟩
    (.cons ⟨rfl, .string _⟩ .nil)))
  frozen := rfl

/-- The objects for both sides are made alike. -/
theorem newSides_alike {h h' : Heap} (hh : Heap.Alike p h h') :
    ∃ q, Heap.Moves p h q h.newSides.2 h'.newSides.2 ∧
      Value.Alike q h.newSides.1 h'.newSides.1 := by
  obtain ⟨q, hm, ho⟩ := hh.newObject (sides_alike p)
  exact ⟨q, hm, .object ho⟩

theorem reservedEntries_alike (c : Component) :
    Action.Alike p (FieldsAlike Value.Alike) c.reservedEntries c.reservedEntries := by
  refine (Action.Alike.allocate fun q _ h h' hh ↦ hh.ofDocument _).bind fun q _ v v' hv ↦ ?_
  refine (Action.Alike.newNative (.plain (n := .nodeData c.store) trivial)).bind
    fun r hr f f' hf ↦ ?_
  refine (Action.Alike.allocate fun q _ h h' hh ↦ newSides_alike hh).bind fun s hs u u' hu ↦ ?_
  exact .pure (.cons ⟨rfl, Stable.mono hs (Stable.mono hr hv)⟩
    (.cons ⟨rfl, Stable.mono hs hf⟩ (.cons ⟨rfl, hu⟩ .nil)))

/-- What is reserved is made alike. -/
theorem reservedObject_alike (c : Component) :
    Action.Alike p Value.Alike c.reservedObject c.reservedObject :=
  c.reservedEntries_alike.bind fun _ _ _ _ hf ↦ .newPlain hf

/-- What the data contributes. -/
theorem contributed_alike {h h' : Heap} (hh : Heap.Alike p h h') {v v' : Value}
    (hv : Value.Alike p v v') :
    FieldsAlike Value.Alike p (contributed h v) (contributed h' v') := by
  cases hv with
  | object ho =>
    have hobject := hh.object ho
    simp only [contributed]
    rw [hobject.kind.isPlain_eq]
    split
    · exact hobject.fields
    · exact .nil
  | _ => exact .nil

theorem call_alike {f f' self self' : Value} (hf : Value.Alike p f f')
    (hself : Value.Alike p self self') {args args' : List Value}
    (hargs : ListAlike Value.Alike p args args') :
    Action.Alike p Value.Alike (Action.call f self args) (Action.call f' self' args') :=
  (machine_alike p patience).call p (Pairing.le_refl p) _ _ _ _ _ _ hf hself hargs

/-- Data factories that are alike give data that is alike. -/
theorem userData_alike (hc : Options.Alike p c.options c.options) :
    Action.Alike p (FieldsAlike Value.Alike) c.userData c.userData := by
  have hdata := hc.data
  unfold userData
  cases hoption : c.options.data with
  | none => exact .pure .nil
  | some v =>
    rw [hoption] at hdata
    cases hdata with
    | some hv =>
      cases hv with
      | function hf =>
        refine c.reservedObject_alike.bind fun q hq self self' hself ↦ ?_
        exact (call_alike (.function (hq.function hf)) hself (.cons hself .nil)).bind
          fun r _ v v' hv ↦ .readSame fun s hs h h' hh ↦ contributed_alike hh (Stable.mono hs hv)
      | _ => exact .pure .nil

/-- So do the factories of whole states. -/
theorem factory_alike (hc : Options.Alike p c.options c.options) :
    Action.Alike p (FieldsAlike Value.Alike) c.factory c.factory := by
  have hhook := hook_alike hc .beforeCreate
  unfold factory
  generalize c.hook .beforeCreate = hook at hhook
  cases hhook with
  | none => exact userData_alike hc
  | some hf =>
    refine c.reservedObject_alike.bind fun q hq self self' hself ↦ ?_
    exact (call_alike (Stable.mono hq hf) hself .nil).discard.bindSame fun r hr _ ↦
      userData_alike (Stable.mono (Pairing.le_trans hq hr) hc)

theorem alike_noHooks (p : Pairing) : HookRegistry.Alike p .empty .empty :=
  ⟨List.Forall₂.nil, List.Forall₂.nil⟩

/-- What is registered meanwhile is alike as well. -/
theorem registering_alike {α β : Type} {Q : Pairing → α → β → Prop} [Stable Q] {x : Action α}
    {y : Action β} (hx : Action.Alike p Q x y) :
    Action.Alike p (PairAlike Q HookRegistry.Alike) (Instance.registering x)
      (Instance.registering y) := by
  have hset (q : Pairing) {hooks : Option HookRegistry}
      (hhooks : OptionAlike HookRegistry.Alike q hooks hooks) :
      Action.Alike q Same (Action.modifyRun fun r ↦ { r with hooks := hooks })
        (Action.modifyRun fun r ↦ { r with hooks := hooks }) :=
    .modifyRun fun r hr _ _ hrun ↦ { hrun with hooks := Stable.mono hr hhooks }
  refine (hset p (.some (alike_noHooks p))).bindSame fun q hq _ ↦ ?_
  refine (hx.mono hq).bind fun r _ a b hab ↦ ?_
  refine .readRun fun s hs run run' hrun ↦ ?_
  refine (hset s .none).bindSame fun t ht _ ↦ .pure ⟨?_, ?_⟩
  · exact Stable.mono ht (Stable.mono hs hab)
  · exact Stable.mono ht (OptionAlike.getD hrun.hooks (alike_noHooks s))

theorem callSetup_alike {setup setup' : Value} (hs : Value.Alike p setup setup') :
    Action.Alike p Value.Alike (Instance.callSetup setup) (Instance.callSetup setup') := by
  refine .readRun fun q hq run run' hrun ↦ ?_
  have hcontext : Action.Alike q Value.Alike (Instance.setupContext run.props)
      (Instance.setupContext run'.props) :=
    (Action.Alike.newNative (.plain (n := .emit) trivial)).bind fun r hr emit emit' hemit ↦
      .newPlain (.cons ⟨rfl, Stable.mono hr hrun.props⟩ (.cons ⟨rfl, hemit⟩ .nil))
  exact hcontext.bind fun r hr context context' hcontext ↦
    call_alike (Stable.mono hr (Stable.mono hq hs)) .undefined
      (.cons (Stable.mono hr hrun.props) (.cons hcontext .nil))

/-- Setups that are alike return what is alike, and register what is alike. -/
theorem setupFields_alike (hc : Options.Alike p c.options c.options) :
    Action.Alike p (PairAlike (FieldsAlike Value.Alike) HookRegistry.Alike) c.setupFields
      c.setupFields := by
  have hsetup := hc.setup
  unfold setupFields
  generalize c.options.setup = setup at hsetup
  cases hsetup with
  | none => exact .pure ⟨.nil, alike_noHooks p⟩
  | some hs =>
    refine (registering_alike (callSetup_alike hs)).bind fun q _ r r' hr ↦ ?_
    exact .readSame fun s hs h h' hh ↦ ⟨contributed_alike hh (Stable.mono hs hr.1),
      Stable.mono hs hr.2⟩

end

end Component

namespace Instance

def withHeap (i : Instance) (h : Heap) : Instance := { i with world := { i.world with heap := h } }

/-- The computed cell of a getter and a setter, if there is a getter. -/
def cellOf (getter setter : Option Value) : Op (Option Value) := do
  match getter with
  | none => return none
  | some getter =>
    return some (.object (← lift (Action.newObject (.computed getter setter) [])))

end Instance

end Nodecraft
