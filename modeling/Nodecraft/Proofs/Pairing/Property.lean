import Nodecraft.Proofs.Pairing.Action
import Nodecraft.Sandbox.Operator

/-!
# Properties, names and operators in worlds that are alike

Properties of values that are alike read alike and are written alike, names that code may mention
are looked up and assigned alike, and operators give the same results. Where an action calls a
function it does so through a `Caller`, and callers are alike if calls of functions that are alike
with arguments that are alike are.

Fields are only written after the object has been found not to be frozen. These are the lemmas that
look at the world in which an action starts, and not only at what it reads there.
-/

set_option autoImplicit false

namespace Nodecraft.Sandbox

open Script Evaluation

def Caller.Alike (p : Pairing) (call call' : Caller) : Prop :=
  ∀ q, p ≤ q → ∀ f f' self self' args args', Value.Alike q f f' → Value.Alike q self self' →
    ListAlike Value.Alike q args args' →
    Action.Alike q Value.Alike (call f self args) (call' f' self' args')

theorem Caller.Alike.mono {p q : Pairing} {call call' : Caller} (h : Caller.Alike p call call')
    (hle : p ≤ q) : Caller.Alike q call call' :=
  fun r hr ↦ h r (Pairing.le_trans hle hr)

/-! ### Methods as values -/

theorem textMethod?_isPlain {key : String} : ∀ n ∈ textMethod? key, n.IsPlain := by
  intro n hn
  obtain ⟨m, -, rfl⟩ := Option.map_eq_some_iff.1 hn
  trivial

theorem numberMethod?_isPlain {key : String} : ∀ n ∈ numberMethod? key, n.IsPlain := by
  intro n hn
  obtain ⟨m, -, rfl⟩ := Option.map_eq_some_iff.1 hn
  trivial

theorem arrayMethod?_isPlain {key : String} : ∀ n ∈ arrayMethod? key, n.IsPlain := by
  intro n hn
  obtain ⟨m, -, rfl⟩ := Option.map_eq_some_iff.1 hn
  trivial

theorem functionMethod?_isPlain {key : String} : ∀ n ∈ functionMethod? key, n.IsPlain := by
  intro n hn
  obtain ⟨m, -, rfl⟩ := Option.map_eq_some_iff.1 hn
  trivial

theorem objectMethod?_isPlain {key : String} : ∀ n ∈ objectMethod? key, n.IsPlain := by
  intro n hn
  unfold objectMethod? at hn
  split at hn
  · obtain rfl := Option.some.inj hn
    trivial
  · exact nomatch hn

namespace Action.Alike

variable {p : Pairing} {call call' : Caller}

theorem methodValue {n : Option Native} (hn : ∀ k ∈ n, k.IsPlain) :
    Action.Alike p Value.Alike (Action.methodValue n) (Action.methodValue n) := by
  cases n with
  | none => exact .pure .undefined
  | some n => exact newNative (.plain (hn n rfl))

/-! ### Reading properties -/

theorem readField {o o' : ObjectId} (ho : p.object o.index o'.index) (key : String) :
    Action.Alike p Value.Alike (Action.readField o key) (Action.readField o' key) := by
  refine read fun q hq h h' hh ↦ ?_
  have hown := hh.own? (hq.object ho) key
  generalize h.own? o key = v, h'.own? o' key = v' at hown ⊢
  cases hown with
  | none => exact methodValue objectMethod?_isPlain
  | some hv => exact .pure hv

theorem arrayItem {a a' : ArrayId} (ha : p.array a.index a'.index) (i : Nat) :
    Action.Alike p Value.Alike
      (Action.heap >>= fun h ↦ Pure.pure ((h.array a).getD i .undefined))
      (Action.heap >>= fun h ↦ Pure.pure ((h.array a').getD i .undefined)) :=
  readSame fun _ hq _ _ hh ↦ ArrayAlike.getD (hh.array (hq.array ha)) i .undefined

theorem iterate {v v' : Value} (hv : Value.Alike p v v') :
    Action.Alike p (ListAlike Value.Alike) (Action.iterate v) (Action.iterate v') := by
  cases hv with
  | array ha => exact readSame fun _ hq _ _ hh ↦ hh.array (hq.array ha)
  | string s => exact .pure (ListAlike.ofMap fun c ↦ .string c.toString)
  | _ => exact typeError _

section

variable (hcall : Caller.Alike p call call')

include hcall

theorem readPlain {o o' : ObjectId} (ho : p.object o.index o'.index) (key : String) :
    Action.Alike p Value.Alike (Action.readPlain call o key) (Action.readPlain call' o' key) := by
  refine read fun q hq h h' hh ↦ ?_
  have hk := (hh.object (hq.object ho)).kind
  have hfield := (readField ho key).mono hq
  generalize (h.object o).kind = k, (h'.object o').kind = k' at hk ⊢
  cases hk with
  | computed hgetter _ =>
    dsimp only
    split
    · exact hcall q hq _ _ _ _ _ _ hgetter .undefined .nil
    · exact hfield
  | _ => exact hfield

theorem readObject {o o' : ObjectId} (ho : p.object o.index o'.index) (key : String) :
    Action.Alike p Value.Alike (Action.readObject call o key)
      (Action.readObject call' o' key) := by
  refine read fun q hq h h' hh ↦ ?_
  have hk := (hh.object (hq.object ho)).kind
  have hown := hh.own? (hq.object ho) key
  have hplain := (readPlain hcall ho key).mono hq
  generalize (h.object o).kind = k, (h'.object o').kind = k' at hk ⊢
  cases hk with
  | state =>
    dsimp only
    generalize h.own? o key = v, h'.own? o' key = v' at hown ⊢
    cases hown with
    | none => exact methodValue objectMethod?_isPlain
    | some hv =>
      cases hv with
      | object hinner =>
        dsimp only
        rw [← (hh.object hinner).kind.isCell_eq]
        split
        · exact readPlain (hcall.mono hq) hinner "value"
        · exact .pure (.object hinner)
      | _ => exact .pure (by constructor; try assumption)
  | _ => exact hplain

/-- Reading a property of paired values runs alike, getters included. -/
theorem getProperty {v v' : Value} (hv : Value.Alike p v v') (key : String) :
    Action.Alike p Value.Alike (Action.getProperty call v key)
      (Action.getProperty call' v' key) := by
  cases hv with
  | undefined => exact typeError _
  | null => exact typeError _
  | bool b => exact .pure .undefined
  | number x => exact methodValue numberMethod?_isPlain
  | string s =>
    dsimp only [Action.getProperty]
    split
    · exact .pure (.number _)
    · split
      · exact .pure (OptionAlike.getD (.ofMap fun c ↦ .string c.toString) .undefined)
      · exact methodValue textMethod?_isPlain
  | array ha =>
    dsimp only [Action.getProperty]
    split
    · exact readSame fun q hq h h' hh ↦ by
        rw [(hh.array (hq.array ha)).size_eq]
        exact .number _
    · split
      · exact arrayItem ha _
      · exact methodValue arrayMethod?_isPlain
  | function hf =>
    dsimp only [Action.getProperty]
    split
    · exact readSame fun q hq h h' hh ↦ by
        rw [hh.functionName_eq (hq.function hf)]
        exact .string _
    · exact methodValue functionMethod?_isPlain
  | object ho => exact readObject hcall ho key

/-! ### Names -/

/-- A name that code may use is looked up alike in paired scopes. -/
theorem lookup {name : String} {s s' : ScopeId} (hs : p.scope s.index s'.index)
    (hname : p.allows s.index (.use name)) :
    Action.Alike p (OptionAlike Value.Alike) (Action.lookup call name s)
      (Action.lookup call' name s') := by
  refine read fun q hq h h' hh ↦ ?_
  have hfound := hh.resolve_alike (hq.scope hs) ((hq.allows hs _).2 hname)
  generalize h.resolve name s = found, h'.resolve name s' = found' at hfound ⊢
  cases hfound with
  | none => exact .pure .none
  | some hfound =>
    cases hfound with
    | binding _ _ hb => exact .pure (.some hb.value)
    | field hv => exact (getProperty (hcall.mono hq) hv name).map fun _ _ _ _ hab ↦ .some hab

/-- A name is read alike in paired scopes, or fails with the same message. -/
theorem readName {name : String} {s s' : ScopeId} (hs : p.scope s.index s'.index)
    (hname : p.allows s.index (.use name)) :
    Action.Alike p Value.Alike (Action.read call name s) (Action.read call' name s') := by
  refine (lookup hcall hs hname).bind fun q _ v v' hv ↦ ?_
  cases hv with
  | none => exact raise (.unbound name)
  | some hv => exact .pure hv

end

/-! ### Declaring names -/

/-- A name that code may declare is declared alike in paired scopes. -/
theorem declare {name : String} {s s' : ScopeId} (hs : p.scope s.index s'.index)
    (hname : p.allows s.index (.declare name)) {v v' : Value} (hv : Value.Alike p v v')
    (mutable : Bool) :
    Action.Alike p Same (Action.declare s name v mutable) (Action.declare s' name v' mutable) :=
  modifyHeap fun q hq _ _ hh ↦
    ⟨q, hh.declare (hq.scope hs) ((hq.allows hs _).2 hname) (Stable.mono hq hv) mutable⟩

theorem declareAs (kind : DeclKind) {name : String} {s s' : ScopeId}
    (hs : p.scope s.index s'.index) (hname : p.allows s.index (.declare name)) {v v' : Value}
    (hv : Value.Alike p v v') :
    Action.Alike p Same (Action.declareAs kind s name v) (Action.declareAs kind s' name v') := by
  cases kind with
  | letKind => exact declare hs hname hv true
  | constKind => exact declare hs hname hv false
  | var =>
    refine modifyHeap (f := fun h ↦ h.declare (h.functionScope s) name v true)
      (g := fun h ↦ h.declare (h.functionScope s') name v' true) fun q hq h h' hh ↦ ?_
    obtain ⟨hscope, hallows⟩ := hh.functionScope_alike (hq.scope hs)
    exact ⟨q, hh.declare hscope ((hallows _).2 ((hq.allows hs _).2 hname)) (Stable.mono hq hv)
      true⟩

/-! ### Writing arrays -/

theorem modifyArray {a a' : ArrayId} (ha : p.array a.index a'.index)
    {f f' : Array Value → Array Value} (hf : ∀ q, p ≤ q → ∀ xs xs',
      ArrayAlike Value.Alike q xs xs' → ArrayAlike Value.Alike q (f xs) (f' xs')) :
    Action.Alike p Same (Action.modifyHeap fun h ↦ h.modifyArray a f)
      (Action.modifyHeap fun h ↦ h.modifyArray a' f') :=
  modifyHeap fun q hq _ _ hh ↦ ⟨q, hh.modifyArray (hq.array ha) (hf q hq)⟩

theorem setArrayLength {a a' : ArrayId} (ha : p.array a.index a'.index) {v v' : Value}
    (hv : Value.Alike p v v') :
    Action.Alike p Same (Action.setArrayLength a v) (Action.setArrayLength a' v') := by
  refine (number hv).bindSame fun q hq x ↦ ?_
  split
  · exact typeError _
  · exact modifyArray (hq.array ha) fun _ _ _ _ hxs ↦ ArrayAlike.resized hxs _

/-- Writing an item of paired arrays runs alike, past the end as well. -/
theorem setArrayItem {a a' : ArrayId} (ha : p.array a.index a'.index) (key : String) {v v' : Value}
    (hv : Value.Alike p v v') :
    Action.Alike p Same (Action.setArrayItem a key v) (Action.setArrayItem a' key v') := by
  dsimp only [Action.setArrayItem]
  split
  · split
    · refine modifyArray ha fun q hq xs xs' hxs ↦ ?_
      rw [ArrayAlike.size_eq hxs]
      split
      · exact ArrayAlike.setIfInBounds hxs _ (Stable.mono hq hv)
      · exact ArrayAlike.setIfInBounds (ArrayAlike.resized hxs _) _ (Stable.mono hq hv)
    · exact typeError _
  · exact typeError _

end Action.Alike

/-! ### Writing objects -/

theorem World.Alike.insertField {p : Pairing} {w w' : World} (hw : World.Alike p w w')
    {o o' : ObjectId} (ho : p.object o.index o'.index) (hfrozen : (w.heap.object o).frozen = false)
    (key : String) {v v' : Value} (hv : Value.Alike p v v') :
    Outcome.Follows p w.heap Same (Action.modifyHeap (fun h ↦ h.insertField o key v) w)
      (Action.modifyHeap (fun h ↦ h.insertField o' key v') w') :=
  have hm := hw.heap.insertField ho hfrozen key hv
  ⟨p, hm.grows, .ok rfl (hw.moves hm)⟩

theorem World.Alike.eraseField {p : Pairing} {w w' : World} (hw : World.Alike p w w')
    {o o' : ObjectId} (ho : p.object o.index o'.index) (hfrozen : (w.heap.object o).frozen = false)
    (key : String) :
    Outcome.Follows p w.heap Same (Action.modifyHeap (fun h ↦ h.eraseField o key) w)
      (Action.modifyHeap (fun h ↦ h.eraseField o' key) w') :=
  have hm := hw.heap.eraseField ho hfrozen key
  ⟨p, hm.grows, .ok rfl (hw.moves hm)⟩

namespace Action.Alike

variable {p : Pairing} {call call' : Caller}

theorem now {α β : Type} {Q : Pairing → α → β → Prop} {x : Action α} {y : Action β}
    (hx : Action.Alike p Q x y) {q : Pairing} (hq : p ≤ q) {w w' : World}
    (hw : World.Alike q w w') : Outcome.Follows q w.heap Q (x w) (y w') :=
  hx q hq w w' hw

/-- A property is deleted alike from paired values. -/
theorem deleteProperty {v v' : Value} (hv : Value.Alike p v v') (key : String) :
    Action.Alike p Same (Action.deleteProperty v key) (Action.deleteProperty v' key) := by
  cases hv with
  | @object o o' ho =>
    intro q hq w w' hw
    change Outcome.Follows q w.heap Same
      ((if (w.heap.object o).frozen then Action.typeError _ else Action.modifyHeap _ :
        Action Unit) w)
      ((if (w'.heap.object o').frozen then Action.typeError _ else Action.modifyHeap _ :
        Action Unit) w')
    rw [← (hw.heap.object (hq.object ho)).frozen]
    split
    · exact (typeError _).now hq hw
    · exact hw.eraseField (hq.object ho) (Bool.eq_false_iff.2 ‹_›) key
  | array ha =>
    dsimp only [Action.deleteProperty]
    split
    · exact modifyArray ha fun _ _ _ _ hxs ↦ ArrayAlike.setIfInBounds hxs _ .undefined
    · exact .pure rfl
  | _ => exact .pure rfl

variable (hcall : Caller.Alike p call call')

include hcall

theorem writePlain {o o' : ObjectId} (ho : p.object o.index o'.index) (key : String) {v v' : Value}
    (hv : Value.Alike p v v') :
    Action.Alike p Same (Action.writePlain call o key v) (Action.writePlain call' o' key v') := by
  intro q hq w w' hw
  have hobject := hw.heap.object (hq.object ho)
  have hinsert (hfrozen : ¬(w.heap.object o).frozen = true) :=
    hw.insertField (hq.object ho) (Bool.eq_false_iff.2 hfrozen) key (Stable.mono hq hv)
  unfold Action.writePlain
  change Outcome.Follows q w.heap Same
    ((if (w.heap.object o).frozen then _ else _ : Action Unit) w)
    ((if (w'.heap.object o').frozen then _ else _ : Action Unit) w')
  rw [← hobject.frozen]
  split
  · exact (typeError _).now hq hw
  · have hk := hobject.kind
    rename_i hfrozen
    replace hinsert := hinsert hfrozen
    generalize (w.heap.object o).kind = k, (w'.heap.object o').kind = k' at hk ⊢
    cases hk with
    | computed _ hsetter =>
      dsimp only
      split
      · cases hsetter with
        | none => exact (Action.Alike.pure (p := p) rfl).now hq hw
        | some hf =>
          exact (hcall q hq _ _ _ _ _ _ hf .undefined (.cons (Stable.mono hq hv) .nil)).discard.now
            (Pairing.le_refl q) hw
      · exact hinsert
    | _ => exact hinsert

/-- Writing a property of paired objects runs alike, through setters and cells as well. -/
theorem writeObject {o o' : ObjectId} (ho : p.object o.index o'.index) (key : String)
    {v v' : Value} (hv : Value.Alike p v v') :
    Action.Alike p Same (Action.writeObject call o key v)
      (Action.writeObject call' o' key v') := by
  intro q hq w w' hw
  have hobject := hw.heap.object (hq.object ho)
  have hplain := (writePlain hcall ho key hv).now hq hw
  have hinsert (hfrozen : ¬(w.heap.object o).frozen = true) :=
    hw.insertField (hq.object ho) (Bool.eq_false_iff.2 hfrozen) key (Stable.mono hq hv)
  have hk := hobject.kind
  have hfound := hobject.fields.get? key
  have hheap (w : World) : Action.heap w = .ok w.heap w := rfl
  simp only [Action.writeObject, Action.bind_apply, hheap]
  generalize (w.heap.object o).kind = k, (w'.heap.object o').kind = k' at hk ⊢
  cases hk with
  | state =>
    dsimp only
    rw [← hobject.frozen]
    split
    · exact (typeError _).now hq hw
    · rename_i hfrozen
      replace hinsert := hinsert hfrozen
      generalize (w.heap.object o).fields.get? key = u, (w'.heap.object o').fields.get? key = u'
        at hfound ⊢
      cases hfound with
      | none => exact hinsert
      | some hu =>
        cases hu with
        | object hinner =>
          dsimp only
          rw [← (hw.heap.object hinner).kind.isCell_eq]
          split
          · exact (writePlain (hcall.mono hq) hinner "value" (Stable.mono hq hv)).now
              (Pairing.le_refl q) hw
          · exact hinsert
        | _ => exact hinsert
  | _ => exact hplain

/-- Writing a property of paired values runs alike. -/
theorem setProperty {t t' : Value} (ht : Value.Alike p t t') (key : String) {v v' : Value}
    (hv : Value.Alike p v v') :
    Action.Alike p Same (Action.setProperty call t key v) (Action.setProperty call' t' key v') := by
  have htext := (text ht).bindSame (R := Same) (f := fun shown ↦ (Action.typeError
    ("Cannot set properties of " ++ shown ++ " (setting '" ++ key ++ "')") : Action Unit))
    fun _ _ _ ↦ typeError _
  cases ht with
  | array ha =>
    dsimp only [Action.setProperty]
    split
    · exact setArrayLength ha hv
    · exact setArrayItem ha key hv
  | object ho => exact writeObject hcall ho key hv
  | _ => exact htext

/-- Assigning to a name runs alike in paired scopes, or fails with the same message. -/
theorem assign {name : String} {s s' : ScopeId} (hs : p.scope s.index s'.index)
    (hname : p.allows s.index (.use name)) {v v' : Value} (hv : Value.Alike p v v') :
    Action.Alike p Same (Action.assign call name v s) (Action.assign call' name v' s') := by
  refine read fun q hq h h' hh ↦ ?_
  have hfound := hh.resolve_alike (hq.scope hs) ((hq.allows hs _).2 hname)
  generalize h.resolve name s = found, h'.resolve name s' = found' at hfound ⊢
  cases hfound with
  | none => exact raise (.unbound name)
  | some hfound =>
    cases hfound with
    | binding hscope hdeclare hb =>
      dsimp only
      rw [← hb.mutable]
      split
      · exact declare hscope hdeclare (Stable.mono hq hv) true
      · exact typeError _
    | field hv' => exact setProperty (hcall.mono hq) hv' name (Stable.mono hq hv)

end Action.Alike

/-! ### Operators -/

namespace Action.Alike

variable {p : Pairing} {a a' b b' : Value} (ha : Value.Alike p a a') (hb : Value.Alike p b b')

include ha

theorem unary (op : UnaryOp) :
    Action.Alike p Value.Alike (Action.unary op a) (Action.unary op a') := by
  cases op with
  | neg => exact (number ha).bindSame fun _ _ _ ↦ .pure (.number _)
  | plus => exact (number ha).bindSame fun _ _ _ ↦ .pure (.number _)
  | not =>
    dsimp only [Action.unary]
    rw [ha.isTruthy_eq]
    exact .pure (.bool _)
  | bitNot => exact (number ha).bindSame fun _ _ _ ↦ .pure (.number _)
  | typeof =>
    dsimp only [Action.unary]
    rw [ha.typeName_eq]
    exact .pure (.string _)
  | void => exact .pure .undefined

include hb

/-- Paired values are added alike, as numbers or as texts. -/
theorem add : Action.Alike p Value.Alike (Action.add a b) (Action.add a' b') := by
  refine read fun q hq h h' hh ↦ ?_
  have hl := hh.primitive_alike (Stable.mono hq ha)
  have hr := hh.primitive_alike (Stable.mono hq hb)
  dsimp only
  rw [hh.text_eq hl, hh.text_eq hr, hh.number_eq hl, hh.number_eq hr]
  generalize h.primitive a = l, h'.primitive a' = l' at hl ⊢
  generalize h.primitive b = r, h'.primitive b' = r' at hr ⊢
  cases hl <;> cases hr <;> first | exact .pure (.string _) | exact .pure (.number _)

theorem isMember : Action.Alike p Value.Alike (Action.isMember a b) (Action.isMember a' b') := by
  refine read fun q hq h h' hh ↦ ?_
  have hb := Stable.mono hq hb
  have htext := hh.text_eq hb
  dsimp only
  rw [hh.key_eq (Stable.mono hq ha)]
  cases hb with
  | object ho =>
    dsimp only
    rw [(hh.object ho).fields.has_eq]
    exact .pure (.bool _)
  | array hitems =>
    dsimp only
    rw [ArrayAlike.size_eq (hh.array hitems)]
    exact .pure (.bool _)
  | _ =>
    dsimp only
    rw [htext]
    exact typeError _

theorem numeric (f : Float → Float → Float) :
    Action.Alike p Value.Alike (Action.numeric f a b) (Action.numeric f a' b') :=
  (number ha).bindSame fun _ hq _ ↦ (number (Stable.mono hq hb)).bindSame fun _ _ _ ↦
    .pure (.number _)

theorem bitwise (f : Nat → Nat → Int) :
    Action.Alike p Value.Alike (Action.bitwise f a b) (Action.bitwise f a' b') :=
  (number ha).bindSame fun _ hq _ ↦ (number (Stable.mono hq hb)).bindSame fun _ _ _ ↦
    .pure (.number _)

theorem ordered (accept : Ordering → Bool) :
    Action.Alike p Value.Alike (Action.ordered accept a b) (Action.ordered accept a' b') :=
  readSame fun _ hq _ _ hh ↦ by
    rw [hh.compare_eq (Stable.mono hq ha) (Stable.mono hq hb)]
    exact .bool _

/-- Every binary operator runs alike on paired values. -/
theorem binary (op : BinaryOp) :
    Action.Alike p Value.Alike (Action.binary op a b) (Action.binary op a' b') := by
  dsimp only [Action.binary]
  cases op with
  | add => exact add ha hb
  | isIn => exact isMember ha hb
  | eq | ne =>
    exact readSame fun q hq h h' hh ↦ by
      rw [hh.looseEquals_eq (Stable.mono hq ha) (Stable.mono hq hb)]
      exact .bool _
  | strictEq | strictNe =>
    exact pureIn fun q hq h h' hh ↦ by
      rw [hh.strictEquals_eq (Stable.mono hq ha) (Stable.mono hq hb)]
      exact .bool _
  | sub | mul | div | rem | exp => exact numeric ha hb _
  | lt | le | gt | ge => exact ordered ha hb _
  | shl | shr | ushr | bitOr | bitXor | bitAnd => exact bitwise ha hb _

end Action.Alike

end Nodecraft.Sandbox
