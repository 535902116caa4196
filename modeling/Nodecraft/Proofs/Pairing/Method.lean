import Nodecraft.Proofs.Pairing.Property
import Nodecraft.Sandbox.Machine

/-!
# Functions that no script defines, in worlds that are alike

Methods and capabilities call back through a `Caller`, each over a list that was fixed when it
started. Lists that are alike go round alike, by induction on the list, and so every method and
every capability does the same with receivers and arguments that are alike (`native`).
-/

set_option autoImplicit false

namespace Nodecraft.Sandbox

open Script Evaluation

variable {p : Pairing}

/-! ### Arguments -/

theorem ListAlike.argument {args args' : List Value} (ha : ListAlike Value.Alike p args args')
    (i : Nat) : Value.Alike p (argument args i) (argument args' i) :=
  ListAlike.getD ha i .undefined

theorem Heap.Alike.relativeIndex_eq {h h' : Heap} (hh : Heap.Alike p h h') {v v' : Value}
    (hv : Value.Alike p v v') (length default : Nat) :
    relativeIndex h v length default = relativeIndex h' v' length default := by
  have hnumber := hh.number_eq hv
  cases hv with
  | undefined => rfl
  | _ => simp only [relativeIndex, hnumber]

theorem Heap.Alike.sameValue_eq {h h' : Heap} (hh : Heap.Alike p h h') {v v' u u' : Value}
    (hv : Value.Alike p v v') (hu : Value.Alike p u u') : sameValue v u = sameValue v' u' := by
  have hstrict := hh.strictEquals_eq hv hu
  cases hv with
  | number x =>
    cases hu with
    | number y => rfl
    | _ => exact hstrict
  | _ => exact hstrict

theorem Heap.Alike.sliceText_eq {h h' : Heap} (hh : Heap.Alike p h h') (s : String)
    {args args' : List Value} (ha : ListAlike Value.Alike p args args') :
    Action.sliceText h s args = Action.sliceText h' s args' := by
  simp only [Action.sliceText, hh.relativeIndex_eq (ha.argument _)]

namespace Action.Alike

theorem textReceiver {self self' : Value} (hself : Value.Alike p self self') (method : String) :
    Action.Alike p Same (Action.textReceiver self method) (Action.textReceiver self' method) := by
  cases hself with
  | string s => exact .pure rfl
  | _ => exact typeError _

/-- The same array on both sides. -/
def SameArray (p : Pairing) (a a' : ArrayId) : Prop := p.array a.index a'.index

instance : Stable SameArray where
  mono hle _ _ h := hle.array h

theorem arrayReceiver {self self' : Value} (hself : Value.Alike p self self') (method : String) :
    Action.Alike p SameArray (Action.arrayReceiver self method)
      (Action.arrayReceiver self' method) := by
  cases hself with
  | array ha => exact .pure ha
  | _ => exact typeError _

theorem callback {args args' : List Value} (ha : ListAlike Value.Alike p args args')
    (method : String) :
    Action.Alike p Value.Alike (Action.callback args method) (Action.callback args' method) := by
  have hhead := ha.head?
  dsimp only [Action.callback]
  generalize args.head? = v, args'.head? = v' at hhead ⊢
  cases hhead with
  | none => exact typeError _
  | some hv =>
    have htext := (text hv).bindSame (R := Value.Alike) (f := fun shown ↦ (Action.typeError
      (shown ++ " is not a function (in " ++ method ++ ")") : Action Value))
      fun _ _ _ ↦ typeError _
    cases hv with
    | function hf => exact .pure (.function hf)
    | _ => exact htext

/-! ### Numbers -/

theorem toFixed (x digits : Float) :
    Action.Alike p Value.Alike (Action.toFixed x digits) (Action.toFixed x digits) := by
  unfold Action.toFixed
  extract_lets digits
  split
  · exact typeError _
  · exact .pure (.string _)

theorem toRadix (x : Float) (radix : Nat) :
    Action.Alike p Value.Alike (Action.toRadix x radix) (Action.toRadix x radix) := by
  dsimp only [Action.toRadix]
  split
  · exact typeError _
  · split
    · exact .pure (.string _)
    · exact .pure (.string _)

/-- Every method of numbers runs alike on paired receivers and arguments. -/
theorem numberMethod (m : NumberMethod) {self self' : Value} (hself : Value.Alike p self self')
    {args args' : List Value} (ha : ListAlike Value.Alike p args args') :
    Action.Alike p Value.Alike (Action.numberMethod m self args)
      (Action.numberMethod m self' args') := by
  refine (number hself).bindSame fun q hq x ↦ ?_
  have hfirst : Value.Alike q (argument args 0) (argument args' 0) :=
    Stable.mono hq (ha.argument 0)
  cases m with
  | toFixed => exact (number hfirst).bindSame fun _ _ digits ↦ toFixed x digits
  | toString =>
    have hradix := (number hfirst).bindSame (R := Value.Alike)
      (f := fun radix ↦ Action.toRadix x (Number.clampTo 0 (UInt32.size - 1) radix).toNat)
      fun _ _ _ ↦ toRadix x _
    dsimp only
    generalize argument args 0 = v, argument args' 0 = v' at hfirst hradix ⊢
    cases hfirst with
    | undefined => exact toRadix x 10
    | _ => exact hradix
  | valueOf => exact .pure (.number x)

/-! ### Texts -/

theorem pad {self self' : Value} (hself : Value.Alike p self self') {args args' : List Value}
    (ha : ListAlike Value.Alike p args args') (atStart : Bool) :
    Action.Alike p Value.Alike (Action.pad self args atStart)
      (Action.pad self' args' atStart) := by
  refine (textReceiver hself _).bindSame fun q hq s ↦
    (number (Stable.mono hq (ha.argument 0))).bindSame fun r hr x ↦ ?_
  have hsecond : Value.Alike r (argument args 1) (argument args' 1) :=
    Stable.mono hr (Stable.mono hq (ha.argument 1))
  dsimp only
  split
  · exact typeError _
  · have hshown (fill : String) (missing : Nat) : Action.Alike r Value.Alike
        (if missing = 0 || fill.isEmpty then Pure.pure (.string s)
          else Pure.pure (.string (if atStart then Text.cycled fill missing ++ s
            else s ++ Text.cycled fill missing)))
        (if missing = 0 || fill.isEmpty then Pure.pure (.string s)
          else Pure.pure (.string (if atStart then Text.cycled fill missing ++ s
            else s ++ Text.cycled fill missing))) := by
      split
      · exact .pure (.string _)
      · exact .pure (.string _)
    have htext := (text hsecond).bindSame fun t ht fill ↦
      (hshown fill ((Number.clampTo 0 UInt64.size x).toNat - s.length)).mono ht
    generalize argument args 1 = v, argument args' 1 = v' at hsecond htext ⊢
    cases hsecond with
    | undefined => exact hshown " " _
    | _ => exact htext

theorem repeatText {self self' : Value} (hself : Value.Alike p self self')
    {args args' : List Value} (ha : ListAlike Value.Alike p args args') :
    Action.Alike p Value.Alike (Action.repeatText self args) (Action.repeatText self' args') := by
  refine (textReceiver hself _).bindSame fun q hq s ↦
    (number (Stable.mono hq (ha.argument 0))).bindSame fun _ _ x ↦ ?_
  dsimp only
  split
  · exact typeError _
  · split
    · exact typeError _
    · exact .pure (.string _)

/-- Replacing the occurrences of a pattern is alike when the replacements are. -/
theorem replaceOccurrences (pattern : List Char) (all : Bool) {replacement replacement' :
    Nat → Action String} (hr : ∀ i, Action.Alike p Same (replacement i) (replacement' i))
    (fuel : Nat) : ∀ position cs, Action.Alike p Same
      (Action.replaceOccurrences pattern all replacement fuel position cs)
      (Action.replaceOccurrences pattern all replacement' fuel position cs) := by
  induction fuel with
  | zero => intro position cs; exact .pure rfl
  | succ fuel ih =>
    intro position cs
    dsimp only [Action.replaceOccurrences]
    split
    · exact .pure rfl
    · refine (hr _).bindSame fun q hq inserted ↦ ?_
      split
      · exact ((ih _ _).mono hq).bindSame fun _ _ _ ↦ .pure rfl
      · exact (Action.Alike.pure (Q := Same) rfl).bindSame fun _ _ _ ↦ .pure rfl

theorem replaceBetween (all : Bool) {replacement replacement' : Nat → Action String}
    (hr : ∀ i, Action.Alike p Same (replacement i) (replacement' i)) (cs : List Char) :
    ∀ position, Action.Alike p Same (Action.replaceBetween all replacement position cs)
      (Action.replaceBetween all replacement' position cs) := by
  induction cs with
  | nil => intro position; exact hr position
  | cons c cs ih =>
    intro position
    refine (hr position).bindSame fun q hq inserted ↦ ?_
    split
    · exact ((ih _).mono hq).bindSame fun _ _ _ ↦ .pure rfl
    · exact .pure rfl

variable {call call' : Caller} (hcall : Caller.Alike p call call')

include hcall in
theorem replacementText (pattern : String) (position : Nat) {v v' : Value}
    (hv : Value.Alike p v v') :
    Action.Alike p Same (Action.replacementText call pattern position v)
      (Action.replacementText call' pattern position v') := by
  have htext := text hv
  cases hv with
  | function hf =>
    exact (hcall p (Pairing.le_refl p) _ _ _ _ _ _ (.function hf) .undefined
      (.cons (.string _) (.cons (.number _) .nil))).bind fun _ _ _ _ hv ↦ text hv
  | _ => exact htext

include hcall in
/-- Replacing in a text runs alike, replacement functions included. -/
theorem replace {self self' : Value} (hself : Value.Alike p self self') {args args' : List Value}
    (ha : ListAlike Value.Alike p args args') (all : Bool) :
    Action.Alike p Value.Alike (Action.replace call self args all)
      (Action.replace call' self' args' all) := by
  refine (textReceiver hself _).bindSame fun q hq s ↦
    (text (Stable.mono hq (ha.argument 0))).bindSame fun r hr pattern ↦ ?_
  have hreplacement (position : Nat) := replacementText ((hcall.mono hq).mono hr) pattern position
    (Stable.mono hr (Stable.mono hq (ha.argument 1)))
  dsimp only
  split
  · exact (replaceBetween all hreplacement _ 0).bindSame fun _ _ _ ↦ .pure (.string _)
  · exact (replaceOccurrences _ all hreplacement _ 0 _).bindSame fun _ _ _ ↦ .pure (.string _)

include hcall in
/-- Every method of texts runs alike on paired receivers and arguments. -/
theorem textMethod (m : TextMethod) {self self' : Value} (hself : Value.Alike p self self')
    {args args' : List Value} (ha : ListAlike Value.Alike p args args') :
    Action.Alike p Value.Alike (Action.textMethod call m self args)
      (Action.textMethod call' m self' args') := by
  have hfirst := ha.argument 0
  cases m with
  | toUpperCase | toLowerCase | trim | trimStart | trimEnd | toString | valueOf =>
    exact (textReceiver hself _).bindSame fun _ _ _ ↦ .pure (.string _)
  | includes | startsWith | endsWith =>
    exact (textReceiver hself _).bindSame fun _ hq _ ↦
      (text (Stable.mono hq hfirst)).bindSame fun _ _ _ ↦ .pure (.bool _)
  | indexOf =>
    refine (textReceiver hself _).bindSame fun _ hq s ↦
      (text (Stable.mono hq hfirst)).bindSame fun _ _ t ↦ ?_
    split
    · exact .pure (.number _)
    · exact .pure (.number _)
  | charAt =>
    exact (textReceiver hself _).bindSame fun _ hq _ ↦
      (number (Stable.mono hq hfirst)).bindSame fun _ _ _ ↦ .pure (.string _)
  | slice =>
    exact (textReceiver hself _).bindSame fun q hq s ↦ readSame fun r hr h h' hh ↦ by
      rw [hh.sliceText_eq s (Stable.mono hr (Stable.mono hq ha))]
      exact .string _
  | split =>
    refine (textReceiver hself _).bindSame fun q hq s ↦ ?_
    have hfirst : Value.Alike q (argument args 0) (argument args' 0) := Stable.mono hq hfirst
    have hparts := (text hfirst).bindSame (R := Value.Alike) (f := fun separator ↦
      Action.newArray ((Action.splitText s separator).map Value.string).toArray)
      fun _ _ _ ↦ newArray (.ofList (.ofMap fun part ↦ .string part))
    generalize argument args 0 = v, argument args' 0 = v' at hfirst hparts ⊢
    cases hfirst with
    | undefined => exact newArray (.cons (.string s) .nil)
    | _ => exact hparts
  | replace => exact replace hcall hself ha false
  | replaceAll => exact replace hcall hself ha true
  | padStart => exact pad hself ha true
  | padEnd => exact pad hself ha false
  | «repeat» => exact repeatText hself ha

/-! ### Arrays -/

section

variable {a a' : ArrayId} (ha : SameArray p a a')

include ha

theorem items : Action.Alike p (ListAlike Value.Alike) (Action.items a) (Action.items a') :=
  readSame fun _ hq _ _ hh ↦ hh.array (hq.array ha)

theorem setItems {values values' : List Value} (hv : ListAlike Value.Alike p values values') :
    Action.Alike p Same (Action.setItems a values) (Action.setItems a' values') :=
  modifyArray ha fun _ hq _ _ _ ↦ .ofList (Stable.mono hq hv)

theorem sizeOf : Action.Alike p Value.Alike (Action.sizeOf a) (Action.sizeOf a') :=
  readSame fun _ hq _ _ hh ↦ by
    rw [ArrayAlike.size_eq (hh.array (hq.array ha))]
    exact .number _

theorem pop : Action.Alike p Value.Alike (Action.pop a) (Action.pop a') :=
  read fun _ hq _ _ hh ↦
    have hlast := ArrayAlike.back? (hh.array (hq.array ha))
    (modifyArray (hq.array ha) fun _ _ _ _ hxs ↦ ArrayAlike.pop hxs).bindSame fun _ hr _ ↦
      .pure (Stable.mono hr (OptionAlike.getD hlast .undefined))

theorem shift : Action.Alike p Value.Alike (Action.shift a) (Action.shift a') := by
  refine (items ha).bind fun q hq values values' hv ↦ ?_
  cases hv with
  | nil => exact .pure .undefined
  | cons hfirst hrest =>
    exact (setItems (hq.array ha) hrest).bindSame fun _ hr _ ↦ .pure (Stable.mono hr hfirst)

variable {args args' : List Value} (hargs : ListAlike Value.Alike p args args')

include hargs

theorem slice : Action.Alike p Value.Alike (Action.slice a args) (Action.slice a' args') := by
  refine read fun q hq h h' hh ↦ (items (hq.array ha)).bind fun r hr values values' hv ↦ ?_
  rw [hv.length_eq, hh.relativeIndex_eq (Stable.mono hq (hargs.argument 0)),
    hh.relativeIndex_eq (Stable.mono hq (hargs.argument 1))]
  exact newArray (.ofList (List.forall₂_drop _ (List.forall₂_take _ hv)))

theorem concat : Action.Alike p Value.Alike (Action.concat a args) (Action.concat a' args') := by
  refine read fun q hq h h' hh ↦ newArray (.append (hh.array (hq.array ha)) (.ofList ?_))
  refine List.rel_flatMap (R := Value.Alike q) (Stable.mono hq hargs) fun v v' hv ↦ ?_
  cases hv with
  | array hb => exact hh.array hb
  | undefined => exact .cons .undefined .nil
  | null => exact .cons .null .nil
  | bool b => exact .cons (.bool b) .nil
  | number x => exact .cons (.number x) .nil
  | string s => exact .cons (.string s) .nil
  | object ho => exact .cons (.object ho) .nil
  | function hf => exact .cons (.function hf) .nil

/-- A splice runs alike and gives paired arrays of the removed items. -/
theorem splice : Action.Alike p Value.Alike (Action.splice a args) (Action.splice a' args') := by
  refine read fun q hq h h' hh ↦ ?_
  have hargs : ListAlike Value.Alike q args args' := Stable.mono hq hargs
  have hreads : (args.take 2).any (h.numberReads a) = (args'.take 2).any (h'.numberReads a') :=
    ListAlike.any_eq (List.forall₂_take 2 hargs) fun _ _ hv ↦ hh.numberReads_eq hv (hq.array ha)
  have hcount (available : Nat) : Action.deleteCount h args[1]? available =
      Action.deleteCount h' args'[1]? available := by
    have hv := hargs.getElem? 1
    generalize args[1]? = v, args'[1]? = v' at hv ⊢
    cases hv with
    | none => rfl
    | some hv => simp only [Action.deleteCount, hh.number_eq hv]
  rw [hreads]
  split
  · exact failure .overlap
  · refine (items (hq.array ha)).bind fun r hr values values' hv ↦ ?_
    dsimp only
    rw [hv.length_eq, hh.relativeIndex_eq (hargs.argument 0), hcount]
    refine (setItems (hr.array (hq.array ha)) ?_).bindSame fun s hs _ ↦ newArray (.ofList ?_)
    · exact List.rel_append
        (List.rel_append (List.forall₂_take _ hv) (List.forall₂_drop _ (Stable.mono hr hargs)))
        (List.forall₂_drop _ hv)
    · exact List.forall₂_take _ (List.forall₂_drop _ (Stable.mono hs hv))

end

section Callbacks

include hcall

/-- Calls over paired items give paired results. -/
theorem mapCalls {f f' self self' : Value} (hf : Value.Alike p f f')
    (hself : Value.Alike p self self') {values values' : List Value}
    (hv : ListAlike Value.Alike p values values') : ∀ i,
    Action.Alike p (ListAlike Value.Alike) (Action.mapCalls call f self i values)
      (Action.mapCalls call' f' self' i values') := by
  induction hv with
  | nil => intro i; exact .pure .nil
  | cons hv _ ih =>
    intro i
    exact (hcall p (Pairing.le_refl p) _ _ _ _ _ _ hf .undefined
      (.cons hv (.cons (.number _) (.cons hself .nil)))).bind fun q hq _ _ hr ↦
        ((ih _).mono hq).bind fun _ hs _ _ hrest ↦ .pure (.cons (Stable.mono hs hr) hrest)

theorem firstCall {f f' self self' : Value} (hf : Value.Alike p f f')
    (hself : Value.Alike p self self') (wanted : Bool) {values values' : List Value}
    (hv : ListAlike Value.Alike p values values') : ∀ i,
    Action.Alike p (OptionAlike (PairAlike Same Value.Alike))
      (Action.firstCall call f self wanted i values)
      (Action.firstCall call' f' self' wanted i values') := by
  induction hv with
  | nil => intro i; exact .pure .none
  | cons hv _ ih =>
    intro i
    refine (hcall p (Pairing.le_refl p) _ _ _ _ _ _ hf .undefined
      (.cons hv (.cons (.number _) (.cons hself .nil)))).bind fun q hq r r' hr ↦ ?_
    rw [hr.isTruthy_eq]
    split
    · exact .pure (.some ⟨rfl, Stable.mono hq hv⟩)
    · exact (ih _).mono hq

/-- A fold over paired items keeps paired accumulators. -/
theorem foldCalls {f f' self self' : Value} {values values' : List Value}
    (hv : ListAlike Value.Alike p values values') : ∀ i {q : Pairing}, p ≤ q →
    Value.Alike q f f' → Value.Alike q self self' → ∀ {acc acc' : Value}, Value.Alike q acc acc' →
    Action.Alike q Value.Alike (Action.foldCalls call f self i acc values)
      (Action.foldCalls call' f' self' i acc' values') := by
  induction hv with
  | nil => intro i q _ _ _ acc acc' hacc; exact .pure hacc
  | cons hv _ ih =>
    intro i q hq hf hself acc acc' hacc
    exact (hcall q hq _ _ _ _ _ _ hf .undefined
      (.cons hacc (.cons (Stable.mono hq hv) (.cons (.number _) (.cons hself .nil))))).bind
      fun r hr _ _ hacc ↦ ih _ (Pairing.le_trans hq hr) (Stable.mono hr hf) (Stable.mono hr hself)
        hacc

theorem reduce {f f' self self' : Value} (hf : Value.Alike p f f')
    (hself : Value.Alike p self self') {start start' : Option Value}
    (hs : OptionAlike Value.Alike p start start') {values values' : List Value}
    (hv : ListAlike Value.Alike p values values') :
    Action.Alike p Value.Alike (Action.reduce call f self start values)
      (Action.reduce call' f' self' start' values') := by
  cases hs with
  | some hacc => exact foldCalls hcall hv 0 (Pairing.le_refl p) hf hself hacc
  | none =>
    cases hv with
    | nil => exact typeError _
    | cons hfirst hrest => exact foldCalls hcall hrest 1 (Pairing.le_refl p) hf hself hfirst

theorem itemOrder {comparator comparator' : Option Value}
    (hf : OptionAlike Value.Alike p comparator comparator') {a a' b b' : Value}
    (ha : Value.Alike p a a') (hb : Value.Alike p b b') :
    Action.Alike p Same (Action.itemOrder call comparator a b)
      (Action.itemOrder call' comparator' a' b') := by
  cases hf with
  | some hf =>
    exact (hcall p (Pairing.le_refl p) _ _ _ _ _ _ hf .undefined (.cons ha (.cons hb .nil))).bind
      fun _ _ _ _ hv ↦ (number hv).bindSame fun _ _ _ ↦ .pure rfl
  | none =>
    exact (text ha).bindSame fun _ hq _ ↦ (text (Stable.mono hq hb)).bindSame fun _ _ _ ↦ .pure rfl

end Callbacks

/-- Orders of items that are alike, in all larger pairings. -/
def OrderAlike (p : Pairing) (order order' : Value → Value → Action Ordering) : Prop :=
  ∀ q, p ≤ q → ∀ a a' b b', Value.Alike q a a' → Value.Alike q b b' →
    Action.Alike q Same (order a b) (order' a' b')

/-- An item is inserted at the same place on both sides, since comparators answer alike. -/
theorem insertItem {order order' : Value → Value → Action Ordering}
    (horder : OrderAlike p order order') {v v' : Value} (hv : Value.Alike p v v')
    {sorted sorted' : List Value} (hs : ListAlike Value.Alike p sorted sorted') :
    Action.Alike p (ListAlike Value.Alike) (Action.insertItem order v sorted)
      (Action.insertItem order' v' sorted') := by
  induction hs with
  | nil => exact .pure (.cons hv .nil)
  | @cons w w' rest rest' hw hrest ih =>
    have hkept : ∀ q, p ≤ q → ListAlike Value.Alike q (v :: w :: rest) (v' :: w' :: rest') :=
      fun q hq ↦ Stable.mono hq (List.Forall₂.cons hv (.cons hw hrest))
    refine (horder p (Pairing.le_refl p) _ _ _ _ hw hv).bindSame fun q hq o ↦ ?_
    cases o with
    | gt => exact (ih.mono hq).bind fun r hr _ _ hl ↦
        .pure (.cons (Stable.mono hr (Stable.mono hq hw)) hl)
    | lt => exact .pure (hkept q hq)
    | eq => exact .pure (hkept q hq)

theorem insertAll {order order' : Value → Value → Action Ordering}
    {values values' : List Value} (hv : ListAlike Value.Alike p values values') :
    ∀ {q : Pairing}, p ≤ q → OrderAlike q order order' → ∀ {sorted sorted' : List Value},
    ListAlike Value.Alike q sorted sorted' →
    Action.Alike q (ListAlike Value.Alike) (Action.insertAll order sorted values)
      (Action.insertAll order' sorted' values') := by
  induction hv with
  | nil => intro q _ _ sorted sorted' hs; exact .pure (List.rel_reverse hs)
  | cons hv _ ih =>
    intro q hq horder sorted sorted' hs
    exact (insertItem horder (Stable.mono hq hv) hs).bind fun r hr _ _ hs ↦
      ih (Pairing.le_trans hq hr) (fun t ht ↦ horder t (Pairing.le_trans hr ht)) hs

include hcall in
/-- Sorting runs alike with paired comparators. -/
theorem sort {a a' : ArrayId} (ha : SameArray p a a') {args args' : List Value}
    (hargs : ListAlike Value.Alike p args args') :
    Action.Alike p Same (Action.sort call a args) (Action.sort call' a' args') := by
  refine (items ha).bind fun q hq values values' hv ↦ ?_
  have hcomparator : OptionAlike Value.Alike q (args.head?.filter Value.isFunction)
      (args'.head?.filter Value.isFunction) :=
    OptionAlike.filter (Stable.mono hq hargs.head?) fun _ _ hv ↦ hv.isFunction_eq
  refine (insertAll hv (Pairing.le_refl q) (fun r hr a a' b b' ha hb ↦
    itemOrder ((hcall.mono hq).mono hr) (Stable.mono hr hcomparator) ha hb) .nil).bind
    fun r hr _ _ hs ↦ setItems (hr.array (hq.array ha)) hs

/-- Callbacks go through the items that the receiver has when the method starts. -/
theorem arrayCalls {α β : Type} {Q : Pairing → α → β → Prop} {args args' : List Value}
    (ha : ListAlike Value.Alike p args args') {self self' : Value}
    (hself : Value.Alike p self self') (method : String) {x : Value → List Value → Action α}
    {y : Value → List Value → Action β} (h : ∀ q, p ≤ q → ∀ f f' values values',
      Value.Alike q f f' → ListAlike Value.Alike q values values' →
      Action.Alike q Q (x f values) (y f' values')) :
    Action.Alike p Q
      (do
        let f ← Action.callback args method
        x f (← Action.items (← Action.arrayReceiver self method)))
      (do
        let f ← Action.callback args' method
        y f (← Action.items (← Action.arrayReceiver self' method))) :=
  (callback ha method).bind fun _ hq _ _ hf ↦
    (arrayReceiver (Stable.mono hq hself) method).bind fun _ hr _ _ ha ↦
    (items ha).bind fun _ hs _ _ hv ↦
      h _ (Pairing.le_trans hq (Pairing.le_trans hr hs)) _ _ _ _
        (Stable.mono hs (Stable.mono hr hf)) hv

include hcall in
/-- Every method of arrays runs alike on paired receivers and arguments. -/
theorem arrayMethod (m : ArrayMethod) {self self' : Value} (hself : Value.Alike p self self')
    {args args' : List Value} (hargs : ListAlike Value.Alike p args args') :
    Action.Alike p Value.Alike (Action.arrayMethod call m self args)
      (Action.arrayMethod call' m self' args') := by
  cases m with
  | push =>
    exact (arrayReceiver hself _).bind fun q hq _ _ ha ↦
      (modifyArray ha fun r hr _ _ hxs ↦ ArrayAlike.append hxs
        (.ofList (Stable.mono hr (Stable.mono hq hargs)))).bindSame fun _ hr _ ↦ sizeOf (hr.array ha)
  | pop => exact (arrayReceiver hself _).bind fun _ _ _ _ ha ↦ pop ha
  | shift => exact (arrayReceiver hself _).bind fun _ _ _ _ ha ↦ shift ha
  | unshift =>
    exact (arrayReceiver hself _).bind fun q hq _ _ ha ↦ (items ha).bind fun r hr _ _ hv ↦
      (setItems (hr.array ha)
        (List.rel_append (Stable.mono hr (Stable.mono hq hargs)) hv)).bindSame
        fun _ hs _ ↦ sizeOf (hs.array (hr.array ha))
  | splice =>
    exact (arrayReceiver hself _).bind fun _ hq _ _ ha ↦ splice ha (Stable.mono hq hargs)
  | slice => exact (arrayReceiver hself _).bind fun _ hq _ _ ha ↦ slice ha (Stable.mono hq hargs)
  | concat => exact (arrayReceiver hself _).bind fun _ hq _ _ ha ↦ concat ha (Stable.mono hq hargs)
  | reverse =>
    exact (arrayReceiver hself _).bind fun q hq _ _ ha ↦
      (modifyArray ha fun _ _ _ _ hxs ↦ ArrayAlike.reverse hxs).bindSame fun _ hr _ ↦
        .pure (Stable.mono hr (Stable.mono hq hself))
  | join =>
    refine (arrayReceiver hself _).bind fun q hq a a' ha ↦ ?_
    have hfirst : Value.Alike q (argument args 0) (argument args' 0) :=
      Stable.mono hq (hargs.argument 0)
    have hjoin : Action.Alike q Value.Alike
        (do return .string ((← Action.heap).join a (← Action.text (argument args 0))))
        (do return .string ((← Action.heap).join a' (← Action.text (argument args' 0)))) :=
      read fun r hr h h' hh ↦ (text (Stable.mono hr hfirst)).bindSame fun _ _ separator ↦ by
        rw [hh.join_eq (hr.array ha) separator]
        exact .pure (.string _)
    generalize argument args 0 = v, argument args' 0 = v' at hfirst hjoin ⊢
    cases hfirst with
    | undefined =>
      exact readSame fun r hr h h' hh ↦ by
        rw [hh.join_eq (hr.array ha) ","]
        exact .string _
    | _ => exact hjoin
  | includes =>
    exact (arrayReceiver hself _).bind fun q hq _ _ ha ↦ (items ha).bind fun r hr _ _ hv ↦
      pureIn fun t ht h h' hh ↦ by
        rw [ListAlike.any_eq (Stable.mono ht hv) fun _ _ hv ↦
          hh.sameValue_eq hv (Stable.mono ht (Stable.mono hr (Stable.mono hq (hargs.argument 0))))]
        exact .bool _
  | indexOf =>
    refine (arrayReceiver hself _).bind fun q hq _ _ ha ↦
      (items ha).bind fun r hr values values' hv t ht w w' hw ↦ ?_
    have hfirst : Value.Alike t (argument args 0) (argument args' 0) :=
      Stable.mono ht (Stable.mono hr (Stable.mono hq (hargs.argument 0)))
    rw [ListAlike.findIdx?_eq (Stable.mono ht hv) fun _ _ hv ↦
      hw.heap.strictEquals_eq hv hfirst]
    cases values'.findIdx? _ with
    | none => exact (Action.Alike.pure (.number _)).now (Pairing.le_refl t) hw
    | some i => exact (Action.Alike.pure (.number _)).now (Pairing.le_refl t) hw
  | forEach =>
    exact arrayCalls hargs hself _ fun q hq f f' _ _ hf hv ↦
      (mapCalls (hcall.mono hq) hf (Stable.mono hq hself) hv 0).discard.bindSame fun _ _ _ ↦
        .pure .undefined
  | map =>
    exact arrayCalls hargs hself _ fun q hq f f' _ _ hf hv ↦
      (mapCalls (hcall.mono hq) hf (Stable.mono hq hself) hv 0).bind fun _ _ _ _ hl ↦
        newArray (.ofList hl)
  | filter =>
    refine arrayCalls hargs hself _ fun q hq f f' values values' hf hv ↦
      (mapCalls (hcall.mono hq) hf (Stable.mono hq hself) hv 0).bind fun r hr kept kept' hl ↦
        newArray (.ofList ?_)
    have hzip := ListAlike.zip (Stable.mono (Q := ListAlike Value.Alike) hr hv) hl
    exact List.rel_map (R := PairAlike Value.Alike Value.Alike r) (fun _ _ h ↦ h.1)
      (hzip.filter fun _ _ h ↦ h.2.isTruthy_eq)
  | find =>
    exact arrayCalls hargs hself _ fun q hq f f' _ _ hf hv ↦
      (firstCall (hcall.mono hq) hf (Stable.mono hq hself) true hv 0).bind fun _ _ _ _ hhit ↦
        .pure (OptionAlike.getD (OptionAlike.map hhit fun _ _ h ↦ h.2) .undefined)
  | findIndex =>
    refine arrayCalls hargs hself _ fun q hq f f' _ _ hf hv ↦
      (firstCall (hcall.mono hq) hf (Stable.mono hq hself) true hv 0).bind fun _ _ hit hit' hhit ↦ ?_
    cases hhit with
    | none => exact .pure (.number _)
    | @some hit hit' hhit =>
      dsimp only
      rw [show hit.1 = hit'.1 from hhit.1]
      exact .pure (.number _)
  | some =>
    exact arrayCalls hargs hself _ fun q hq f f' _ _ hf hv ↦
      (firstCall (hcall.mono hq) hf (Stable.mono hq hself) true hv 0).bind fun _ _ _ _ hhit ↦ by
        rw [Option.Rel.isSome_eq hhit]
        exact .pure (.bool _)
  | every =>
    exact arrayCalls hargs hself _ fun q hq f f' _ _ hf hv ↦
      (firstCall (hcall.mono hq) hf (Stable.mono hq hself) false hv 0).bind fun _ _ _ _ hhit ↦ by
        rw [← Option.not_isSome, ← Option.not_isSome, Option.Rel.isSome_eq hhit]
        exact .pure (.bool _)
  | reduce =>
    exact arrayCalls hargs hself _ fun q hq f f' _ _ hf hv ↦
      reduce (hcall.mono hq) hf (Stable.mono hq hself) (Stable.mono hq (hargs.getElem? 1)) hv
  | sort =>
    exact (arrayReceiver hself _).bind fun q hq _ _ ha ↦
      (sort (hcall.mono hq) ha (Stable.mono hq hargs)).bindSame fun _ hr _ ↦
        .pure (Stable.mono hr (Stable.mono hq hself))

/-! ### Functions -/

include hcall in
/-- Every method of functions runs alike on paired receivers and arguments. -/
theorem functionMethod (m : FunctionMethod) {self self' : Value} (hself : Value.Alike p self self')
    {args args' : List Value} (hargs : ListAlike Value.Alike p args args') :
    Action.Alike p Value.Alike (Action.functionMethod call m self args)
      (Action.functionMethod call' m self' args') := by
  have hfirst := hargs.argument 0
  have hle := Pairing.le_refl p
  cases m with
  | call => exact hcall p hle _ _ _ _ _ _ hself hfirst (List.forall₂_drop 1 hargs)
  | apply =>
    have hsecond := hargs.argument 1
    dsimp only [Action.functionMethod]
    generalize argument args 1 = v, argument args' 1 = v' at hsecond ⊢
    cases hsecond with
    | array ha =>
      exact read fun q hq h h' hh ↦ hcall q hq _ _ _ _ _ _ (Stable.mono hq hself)
        (Stable.mono hq hfirst) (hh.array (hq.array ha))
    | undefined => exact hcall p hle _ _ _ _ _ _ hself hfirst .nil
    | null => exact hcall p hle _ _ _ _ _ _ hself hfirst .nil
    | _ => exact typeError _
  | bind =>
    cases hself with
    | function hf => exact newFunction (.bound hf hfirst)
    | _ => exact typeError _

/-! ### Capabilities -/

theorem ref {v v' : Value} (hv : Value.Alike p v v') :
    Action.Alike p Value.Alike (Action.ref v) (Action.ref v') := by
  refine read fun q hq h h' hh ↦ ?_
  have hv : Value.Alike q v v' := Stable.mono hq hv
  rw [hh.isCell_eq hv]
  split
  · exact .pure hv
  · exact newObjectValue .ref (.cons ⟨rfl, hv⟩ .nil)

theorem computed {v v' : Value} (hv : Value.Alike p v v') :
    Action.Alike p Value.Alike (Action.computed v) (Action.computed v') := by
  cases hv with
  | function hf => exact newObjectValue (.computed (.function hf) .none) .nil
  | object ho =>
    refine read fun q hq h h' hh ↦ ?_
    have hget := hh.own? (hq.object ho) "get"
    have hset := OptionAlike.filter (hh.own? (hq.object ho) "set") (f := Value.isFunction)
      (g := Value.isFunction) fun _ _ hv ↦ hv.isFunction_eq
    dsimp only
    generalize h.own? _ "get" = getter, h'.own? _ "get" = getter' at hget ⊢
    cases hget with
    | none => exact typeError _
    | some hget =>
      cases hget with
      | function hf => exact newObjectValue (.computed (.function hf) hset) .nil
      | _ => exact typeError _
  | _ => exact typeError _

theorem watchSource {v v' : Value} (hv : Value.Alike p v v') :
    Action.Alike p WatchSource.Alike (Action.watchSource v) (Action.watchSource v') := by
  have hsource : Action.Alike p WatchSource.Alike
      (do return if (← Action.heap).isCell v then .cell v else .value v)
      (do return if (← Action.heap).isCell v' then .cell v' else .value v') :=
    readSame fun q hq h h' hh ↦ by
      rw [hh.isCell_eq (Stable.mono hq hv)]
      split
      · exact .cell (Stable.mono hq hv)
      · exact .value (Stable.mono hq hv)
  cases hv with
  | function hf => exact .pure (.getter (.function hf))
  | _ => exact hsource

theorem newWatcher {source source' : WatchSource} (hs : WatchSource.Alike p source source')
    {callback callback' last last' : Value} (hc : Value.Alike p callback callback')
    (hl : Value.Alike p last last') :
    Action.Alike p Watcher.Alike (Action.newWatcher source callback last)
      (Action.newWatcher source' callback' last') :=
  (allocate (Q := fun q s s' ↦ q.switch s.index s'.index) fun _ _ _ _ hh ↦ hh.newSwitch).bind
    fun _ hq _ _ hswitch ↦ readSame fun _ hr _ _ hh ↦
      ⟨Stable.mono hr (Stable.mono hq hs), Stable.mono hr (Stable.mono hq hc),
        Stable.mono hr (Stable.mono hq hl), hh.document_eq (Stable.mono hr (Stable.mono hq hl)),
        hr.switch hswitch⟩

theorem isRegistering : Action.Alike p Same Action.isRegistering Action.isRegistering :=
  readRun fun _ _ _ _ hr ↦ .pure (Option.Rel.isSome_eq hr.hooks)

theorem addWatcher {w w' : Watcher} (hw : Watcher.Alike p w w') :
    Action.Alike p Same (Action.addWatcher w) (Action.addWatcher w') :=
  modifyRun fun _ hq _ _ hr ↦ { hr with
    hooks := OptionAlike.map hr.hooks fun _ _ hreg ↦
      { hreg with watchers := ArrayAlike.push hreg.watchers (Stable.mono hq hw) } }

theorem addHook (hook : LifecycleHook) {v v' : Value} (hv : Value.Alike p v v') :
    Action.Alike p Same (Action.addHook hook v) (Action.addHook hook v') :=
  modifyRun fun _ hq _ _ hr ↦ { hr with
    hooks := OptionAlike.map hr.hooks fun _ _ hreg ↦
      { hreg with hooks := ArrayAlike.push hreg.hooks ⟨rfl, Stable.mono hq hv⟩ } }

/-- Hooks are registered alike while a component is set up and refused alike afterwards. -/
theorem register (hook : LifecycleHook) {v v' : Value} (hv : Value.Alike p v v') :
    Action.Alike p Value.Alike (Action.register hook v) (Action.register hook v') := by
  dsimp only [Action.register]
  rw [hv.isFunction_eq]
  split
  · exact typeError _
  · exact (addHook hook hv).bindSame fun _ _ _ ↦ .pure .undefined

theorem nextTick {v v' : Value} (hv : Value.Alike p v v') :
    Action.Alike p Value.Alike (Action.nextTick v) (Action.nextTick v') := by
  have hpush : Action.Alike p Same
      (Action.modifyRun fun r ↦ { r with ticks := r.ticks.push v })
      (Action.modifyRun fun r ↦ { r with ticks := r.ticks.push v' }) :=
    modifyRun fun _ hq _ _ hr ↦ { hr with
      ticks := ArrayAlike.push hr.ticks (Stable.mono hq hv) }
  dsimp only [Action.nextTick]
  rw [hv.isFunction_eq]
  split
  · exact hpush.bindSame fun _ _ _ ↦ .pure .undefined
  · exact .pure .undefined

theorem nodeData (store : NodeStore) {v v' : Value} (hv : Value.Alike p v v') :
    Action.Alike p Value.Alike (Action.nodeData store v) (Action.nodeData store v') := by
  dsimp only [Action.nodeData]
  rw [hv.isNullish_eq]
  split
  · exact typeError _
  · refine (text hv).bindSame fun _ _ name ↦ ?_
    split
    · exact ofDocument _
    · exact .pure .undefined

theorem isImmediate_eq {h h' : Heap} (hh : Heap.Alike p h h') {v v' : Value}
    (hv : Value.Alike p v v') : Action.isImmediate h v = Action.isImmediate h' v' := by
  cases hv with
  | object ho => exact OptionAlike.any_eq (hh.own? ho "immediate") fun _ _ hv ↦ hv.isTruthy_eq
  | _ => rfl

section Calls

include hcall

theorem unref {v v' : Value} (hv : Value.Alike p v v') :
    Action.Alike p Value.Alike (Action.unref call v) (Action.unref call' v') := by
  refine read fun q hq h h' hh ↦ ?_
  rw [hh.isCell_eq (Stable.mono hq hv)]
  split
  · exact getProperty (hcall.mono hq) (Stable.mono hq hv) "value"
  · exact .pure (Stable.mono hq hv)

/-- What a watcher observes is read alike from paired sources. -/
theorem readSource {source source' : WatchSource} (hs : WatchSource.Alike p source source') :
    Action.Alike p Value.Alike (Action.readSource call source)
      (Action.readSource call' source') := by
  cases hs with
  | getter hf => exact hcall p (Pairing.le_refl p) _ _ _ _ _ _ hf .undefined .nil
  | cell hv => exact getProperty hcall hv "value"
  | value hv => exact .pure hv
  | effect hf => exact .pure .undefined

/-- Watchers are added alike on paired sources and callbacks. -/
theorem watch {source source' callback callback' options options' : Value}
    (hs : Value.Alike p source source') (hc : Value.Alike p callback callback')
    (ho : Value.Alike p options options') :
    Action.Alike p Value.Alike (Action.watch call source callback options)
      (Action.watch call' source' callback' options') := by
  dsimp only [Action.watch]
  rw [hc.isFunction_eq]
  split
  · exact typeError _
  · refine (watchSource hs).bind fun q hq _ _ hs ↦ isRegistering.bindSame fun r hr b ↦ ?_
    have hle := Pairing.le_trans hq hr
    split
    · exact newNative (.stop .none)
    · refine (readSource (hcall.mono hle) (Stable.mono hr hs)).bind fun t ht _ _ hcurrent ↦ ?_
      have hle := Pairing.le_trans hle ht
      refine (newWatcher (Stable.mono ht (Stable.mono hr hs)) (Stable.mono hle hc)
        hcurrent).bind fun u hu _ _ hwatcher ↦ ?_
      have hle := Pairing.le_trans hle hu
      refine (newNative (.stop (.some hwatcher.switch))).bind fun x hx _ _ hstop ↦
        (addWatcher (Stable.mono hx hwatcher)).bindSame fun y hy _ ↦ ?_
      have hxy := Pairing.le_trans hx hy
      have hle := Pairing.le_trans hle hxy
      refine read fun z hz h h' hh ↦ ?_
      rw [isImmediate_eq hh (Stable.mono hz (Stable.mono hle ho))]
      split
      · exact (hcall z (Pairing.le_trans hle hz) _ _ _ _ _ _ (Stable.mono hz (Stable.mono hle hc))
          .undefined (.cons (Stable.mono hz (Stable.mono hxy (Stable.mono hu hcurrent)))
            (.cons .undefined .nil))).discard.bindSame fun _ hz' _ ↦
          .pure (Stable.mono hz' (Stable.mono hz (Stable.mono hy hstop)))
      · exact .pure (Stable.mono hz (Stable.mono hy hstop))

theorem watchEffect {effect effect' : Value} (he : Value.Alike p effect effect') :
    Action.Alike p Value.Alike (Action.watchEffect call effect)
      (Action.watchEffect call' effect') := by
  dsimp only [Action.watchEffect]
  rw [he.isFunction_eq]
  split
  · exact typeError _
  · refine isRegistering.bindSame fun q hq b ↦ ?_
    split
    · exact newNative (.stop .none)
    · refine (hcall q hq _ _ _ _ _ _ (Stable.mono hq he) .undefined .nil).discard.bindSame
        fun r hr _ ↦ ?_
      have he := Stable.mono (Pairing.le_trans hq hr) he
      exact (newWatcher (.effect he) he .undefined).bind fun s hs _ _ hwatcher ↦
        (newNative (.stop (.some hwatcher.switch))).bind fun t ht _ _ hstop ↦
        (addWatcher (Stable.mono ht hwatcher)).bindSame fun _ hu _ ↦ .pure (Stable.mono hu hstop)

theorem readPath (segments : List String) : ∀ {q : Pairing}, p ≤ q → ∀ {v v' : Value},
    Value.Alike q v v' →
    Action.Alike q Value.Alike (Action.readPath call v segments)
      (Action.readPath call' v' segments) := by
  induction segments with
  | nil => intro q _ v v' hv; exact .pure hv
  | cons key rest ih =>
    intro q hq v v' hv
    dsimp only [Action.readPath]
    rw [hv.isNullish_eq]
    split
    · exact .pure .undefined
    · exact (getProperty (hcall.mono hq) hv key).bind fun r hr _ _ hv ↦
        ih (Pairing.le_trans hq hr) hv

/-- Every capability runs alike on paired arguments. -/
theorem capability (c : Capability) {args args' : List Value}
    (hargs : ListAlike Value.Alike p args args') :
    Action.Alike p Value.Alike (Action.capability call c args)
      (Action.capability call' c args') := by
  have hfirst := hargs.headD .undefined
  cases c with
  | ref => exact ref hfirst
  | reactive => exact .pure hfirst
  | computed => exact computed hfirst
  | watch => exact watch hcall hfirst (hargs.getD 1 .undefined) (hargs.getD 2 .undefined)
  | watchEffect => exact watchEffect hcall hfirst
  | defineComponent => exact .pure hfirst
  | nextTick => exact nextTick hfirst
  | defineProps => exact readRun fun _ _ _ _ hr ↦ .pure hr.props
  | unref => exact unref hcall hfirst
  | isRef =>
    exact readSame fun q hq h h' hh ↦ by
      rw [hh.isCell_eq (Stable.mono hq hfirst)]
      exact .bool _
  | register hook => exact register hook hfirst

/-- Every native function runs alike on paired receivers and arguments. -/
theorem native {n n' : Native} (hn : Native.Alike p n n') {self self' : Value}
    (hself : Value.Alike p self self') {args args' : List Value}
    (hargs : ListAlike Value.Alike p args args') :
    Action.Alike p Value.Alike (Action.native call n self args)
      (Action.native call' n' self' args') := by
  cases hn with
  | stop hswitch =>
    cases hswitch with
    | none => exact .pure .undefined
    | some hs =>
      exact (modifyHeap fun q hq _ _ hh ↦ ⟨q, hh.switchOff (hq.switch hs)⟩).bindSame
        fun _ _ _ ↦ .pure .undefined
  | path segments hroot => exact readPath hcall segments (Pairing.le_refl p) hroot
  | plain hplain =>
    cases n with
    | text m => exact textMethod hcall m hself hargs
    | number m => exact numberMethod m hself hargs
    | array m => exact arrayMethod hcall m hself hargs
    | hasOwnProperty =>
      exact readSame fun q hq h h' hh ↦ by
        rw [hh.key_eq (Stable.mono hq (hargs.headD .undefined)),
          hh.hasOwn_eq (Stable.mono hq hself)]
        exact .bool _
    | function m => exact functionMethod hcall m hself hargs
    | capability c => exact capability hcall c hargs
    | nodeData store => exact nodeData store (hargs.headD .undefined)
    | emit => exact .pure .undefined
    | stop _ => exact hplain.elim
    | path _ _ => exact hplain.elim

end Calls

end Action.Alike

end Nodecraft.Sandbox
