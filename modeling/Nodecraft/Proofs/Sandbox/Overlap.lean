import Nodecraft.Proofs.Sandbox.Escape

/-!
# Calls that overlap themselves

`splice` holds its array while it converts its two counts, so a count that is the array itself
cannot be read and the run is broken off there. No other call does this, and nothing a script can
put around such a call goes on after it (`overlap_iff_reaches`).
-/

set_option autoImplicit false

namespace Nodecraft.Sandbox

open Script Evaluation

def Failure.IsOverlap (e : Failure) : Prop := e = .overlap

/-- No handler sees an overlap. -/
theorem Failure.uncatchable_isOverlap : Uncatchable Failure.IsOverlap := fun _ h ↦ nomatch h

/-- Calling the function with these arguments converts a count that reads the spliced array. -/
def Heap.spliceOverlaps (h : Heap) (f : FunctionId) (self : Value) (args : List Value) : Bool :=
  match h.function f, self with
  | .native (.array .splice), .array a => (args.take 2).any (h.numberReads a)
  | _, _ => false

/-- Stops at a call that overlaps itself. -/
def Stop.overlapping : Stop
  | .apply f self args, w => w.heap.spliceOverlaps f self args
  | _, _ => false

theorem Stop.not_overlapping {q : Query} (hq : q.IsPlain) (w : World) :
    ¬Stop.overlapping q w := by
  cases q with
  | apply f self args => exact hq.elim
  | _ => exact Bool.false_ne_true

/-- Counts that are read from the array itself overlap with its change. -/
theorem Action.splice_of_overlap {a : ArrayId} {args : List Value} {w : World}
    (h : (args.take 2).any (w.heap.numberReads a) = true) :
    Action.splice a args w = .error .overlap w :=
  congrFun (if_pos h) w

/-- With other counts, splicing returns. -/
theorem Action.splice_of_not {a : ArrayId} {args : List Value} {w : World}
    (h : ¬(args.take 2).any (w.heap.numberReads a) = true) :
    ∃ v w', Action.splice a args w = .ok v w' :=
  ⟨_, _, congrFun (if_neg h) w⟩

/-- A call of `splice` ends with an overlap exactly if it overlaps itself. -/
theorem Action.endsWith_overlap_spliceCall {w : World} {f : FunctionId} (self : Value)
    (args : List Value) (hf : w.heap.function f = .native (.array .splice)) :
    EndsWith Failure.IsOverlap (Action.spliceCall self args w) ↔
      w.heap.spliceOverlaps f self args = true := by
  unfold Heap.spliceOverlaps
  rw [hf]
  cases self with
  | array a =>
    change EndsWith _ (Action.splice a args w) ↔ (args.take 2).any (w.heap.numberReads a) = true
    by_cases h : (args.take 2).any (w.heap.numberReads a) = true
    · rw [Action.splice_of_overlap h]
      exact iff_of_true (endsWith_error.2 rfl) h
    · obtain ⟨v, w', hok⟩ := Action.splice_of_not h
      rw [hok]
      exact iff_of_false not_endsWith_ok h
  | _ =>
    refine iff_of_false (fun h ↦ ?_) Bool.false_ne_true
    exact nomatch endsWith_error.1 h

/-- No other function overlaps itself. -/
theorem Heap.not_spliceOverlaps {h : Heap} {f : FunctionId} (hf : (h.function f).IsRegular)
    (self : Value) (args : List Value) : ¬h.spliceOverlaps f self args := by
  intro hover
  unfold Heap.spliceOverlaps at hover
  split at hover
  · rename_i heq
    rw [heq] at hf
    exact hf rfl
  · exact nomatch hover

theorem Action.heap_bind_apply {α : Type} (f : Heap → Action α) (w : World) :
    (Action.heap >>= f) w = f w.heap w :=
  rfl

/-- A run that comes to no call that overlaps itself does not end with an overlap. -/
theorem Probing.avoids_overlap :
    Probing (fun _ x y ↦ x.Avoids Failure.IsOverlap y) Stop.overlapping Stop.never := by
  have hR := Congruence.avoids Failure.uncatchable_isOverlap
  exact {
    toCongruence := hR
    step := .stopping_of_not (.step fun _ h ↦ nomatch h) fun _ ↦ Bool.false_ne_true
    room := .stopping_of_not (.room fun h ↦ nomatch h) fun _ ↦ Bool.false_ne_true
    finalize := fun hxy hfg _ _ ↦ .finalizing hxy hfg (fun _ _ _ ↦ Bool.false_ne_true)
      fun _ _ _ h ↦ absurd h Bool.false_ne_true
    erase := fun target key ↦ .stopping_of_not
      (.of_neutral Failure.uncatchable_isOverlap (.deleteProperty target key))
      fun _ ↦ Bool.false_ne_true
    watches := fun _ _ hcall _ hc args ↦ hR.watches hcall
      (fun w ↦ .of_neutral Failure.uncatchable_isOverlap (.addWatcher w)) hc args
    stopping := fun q x y _ hxy ↦ hxy.stopping_of_not fun _ ↦ Bool.false_ne_true
    calling := fun id self args x y hxy ↦
      .stopping_of_not (hxy.calling fun _ h ↦ nomatch h) fun _ ↦ Bool.false_ne_true
    performing := fun id self args f g hfg hf hg ↦ by
      refine .stopping (fun _ ↦ Bool.false_ne_true) fun w hw hfin ↦ ?_
      rw [Action.heap_bind_apply] at hfin ⊢
      rw [Action.heap_bind_apply]
      rcases (w.heap.function id).isRegular_or with hregular | hsplice
      · exact hfg _ hregular w hfin
      · rw [hsplice, hf, hg]
        exact ⟨rfl, fun h ↦ hw ((Action.endsWith_overlap_spliceCall self args hsplice).1 h)⟩
    unfinished := fun _ h ↦ h.elim }

/-- Nothing goes on after a call that overlaps itself. -/
theorem Probing.keeps_overlap :
    Probing (fun _ x y ↦ x.Balanced ∧ x.Keeps Failure.IsOverlap 0 y)
      Stop.never Stop.overlapping := by
  have hR := Congruence.keeps Failure.uncatchable_isOverlap 0
  exact {
    toCongruence := hR
    step := ⟨.stopping .step _, .stopping_of_not (.refl _) fun _ ↦ Bool.false_ne_true⟩
    room := ⟨.stopping .room _, .stopping_of_not (.refl _) fun _ ↦ Bool.false_ne_true⟩
    finalize := fun hxy hfg _ _ ↦
      ⟨hxy.1.finalizingUnless hfg.1 _, .finalizing hxy.1 hxy.2 hfg.2
        (fun _ _ _ ↦ Bool.false_ne_true) fun w _ hs ⟨_, _, hx, hk⟩ _ _ ↦ by
          rw [hx, hk] at hs
          exact hs.elim⟩
    erase := fun target key ↦ ⟨.stopping (.of_neutral (.deleteProperty target key)) _,
      .stopping_of_not (.refl _) fun _ ↦ Bool.false_ne_true⟩
    watches := fun _ _ hcall _ hc args ↦
      hR.watches hcall (fun w ↦ ⟨.of_neutral (.addWatcher w), .refl _⟩) hc args
    stopping := fun q x y hq hxy ↦
      ⟨hxy.1.stopping _, hxy.2.stopping_of_not (Stop.not_overlapping hq)⟩
    calling := fun id self args x y hxy ↦
      ⟨hxy.1.calling.stopping _, .stopping_of_not (.calling hxy.2) fun _ ↦ Bool.false_ne_true⟩
    performing := fun id self args f g hfg hf hg ↦ by
      have h := hR.performing ⟨.failure _, .refl _⟩ id self args (fun fn _ ↦ hfg fn) hf hg
      refine ⟨h.1.stopping _, .stopping fun w _ _ hfin ↦ ?_⟩
      rw [Action.heap_bind_apply] at hfin ⊢
      rw [Action.heap_bind_apply]
      rcases (w.heap.function id).isRegular_or with hregular | hsplice
      · rcases (hfg _ hregular).2 w (Nat.zero_le _) hfin with hends | hy
        · exact .inl hends
        · exact .inr ⟨Heap.not_spliceOverlaps hregular self args, hy⟩
      · rw [hsplice, hf, hg]
        by_cases hover : w.heap.spliceOverlaps id self args = true
        · exact .inl ((Action.endsWith_overlap_spliceCall self args hsplice).2 hover)
        · exact .inr ⟨hover, rfl⟩
    unfinished := ⟨.failure _, .refl _⟩ }

/-- A run that ends by itself ends with an overlap exactly if it comes to a call that overlaps
itself. -/
theorem Entry.overlap_iff_reaches (entry : Entry) (n : Nat) {w : World}
    (h : Finished (entry.run (machineWithin n) w)) :
    EndsWith Failure.IsOverlap (entry.run (machineWithin n) w) ↔
      entry.Reaches Stop.overlapping n w := by
  constructor
  · intro hends
    refine ⟨h, fun hfin ↦ ?_⟩
    have havoids := Machine.Related.run (Probing.avoids_overlap.related n) entry w hfin
    rw [probe_never] at havoids
    exact havoids.2 (havoids.1 ▸ hends)
  · intro hreach
    have hkeeps := Machine.Related.run (Probing.keeps_overlap.related n) entry
    rw [probe_never] at hkeeps
    rcases hkeeps.2 w (Nat.zero_le _) h with hends | hprobe
    · exact hends
    · exact absurd (hprobe ▸ h) hreach.2

end Nodecraft.Sandbox
