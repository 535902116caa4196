import Nodecraft.Proofs.Component.Turns
import Nodecraft.Proofs.Sandbox.Equality

/-!
# Watchers of what does not change

When the source of a watcher reads as the same value as in its last turn, with the same content, then the
watcher rests, unless the value is NaN: that is not what it compares equal to, so the watcher calls back
in every turn (`Instance.unchanged_rests_iff`).

What a watcher compares with is what it reported last, which need not be what it read last. But in a turn
in which it rests the two are equal, and equality is transitive (`TakesTurn.lastReport`).
-/

set_option autoImplicit false

namespace Nodecraft.Instance

open Sandbox

/-- What the source of the watcher that has the turn reads as, and the content of that. Nothing is read if
the watcher has been stopped, or has no source but an effect, or if reading fails. -/
def reading? (t : TurnOf) : Option (Value × Json) :=
  match t.2.hooks.watchers[t.1]? with
  | none => none
  | some watcher =>
    if t.2.world.heap.switch watcher.switch then
      match watcher.source with
      | .effect _ => none
      | source =>
        match Action.readSource machine.call source t.2.world with
        | .ok current w => some (current, w.heap.document current)
        | .error _ _ => none
    else none

/-- Values that are told apart by NaN alone. -/
theorem strictEquals_of_sameValue {a b : Value} (h : sameValue a b = true) (ha : a.isNaN = false) :
    a.strictEquals b = true := by
  unfold sameValue at h
  split at h
  · rename_i x y
    rw [show x.isNaN = false from ha] at h
    exact h
  · exact h

section

variable {i : Instance} {k : Nat} {watcher : Watcher} {current : Value} {snapshot : Json}

/-- A watcher that is on, and is no effect, reads its source and compares. -/
theorem turn_of_source (hwatcher : i.hooks.watchers[k]? = some watcher)
    (hruns : i.world.heap.switch watcher.switch = true) (heffect : ∀ f, watcher.source ≠ .effect f) :
    i.turn k = i.sourceTurn watcher := by
  unfold turn
  rw [hwatcher]
  dsimp only
  rw [if_pos hruns]
  split
  · exact absurd ‹_› (heffect _)
  · rfl

/-- A watcher that reads its source calls back if that has changed, and rests otherwise. -/
theorem turn_of_reading? (hwatcher : i.hooks.watchers[k]? = some watcher)
    (h : reading? (k, i) = some (current, snapshot)) :
    ∃ w, i.turn k = if watcher.hasChanged current snapshot then
      .callsBack watcher current snapshot w else .rests w := by
  unfold reading? at h
  dsimp only at h
  rw [hwatcher] at h
  dsimp only at h
  split at h
  · rename_i hruns
    split at h
    · exact nomatch h
    · rename_i heffect
      split at h
      · rename_i v w hread
        obtain ⟨rfl, rfl⟩ := Prod.mk.inj (Option.some.inj h)
        refine ⟨w, ?_⟩
        rw [turn_of_source hwatcher hruns heffect]
        unfold sourceTurn
        rw [hread]
      · exact nomatch h
  · exact nomatch h

/-- A watcher that calls back has read its source. -/
theorem reading?_of_callsBack {w : World} (h : CallsBack i k watcher current snapshot w) :
    reading? (k, i) = some (current, snapshot) := by
  unfold reading?
  dsimp only
  rw [h.exists_watcher]
  dsimp only
  rw [if_pos h.runs]
  split
  · exact absurd ‹_› (h.observes _)
  · rw [h.reads, h.content]

end

section

variable {registered : Watcher} {earlier between : List TurnOf} {k : Nat} {i j : Instance}
  {current current' : Value} {snapshot snapshot' : Json}

/-- A watcher that reads its source rests if that is what it reported last, and calls back otherwise. -/
theorem TakesTurn.reads (h : TakesTurn registered earlier k i)
    (hreads : reading? (k, i) = some (current, snapshot)) :
    ((current.strictEquals (lastReport k registered earlier).1 = true ∧
        (snapshot == (lastReport k registered earlier).2) = true) ∧ ∃ w, i.turn k = .rests w) ∨
    ¬(current.strictEquals (lastReport k registered earlier).1 = true ∧
        (snapshot == (lastReport k registered earlier).2) = true) ∧
      ∃ watcher w, i.turn k = .callsBack watcher current snapshot w := by
  obtain ⟨w, hturn⟩ := turn_of_reading? h.watcher hreads
  split at hturn
  · exact .inr ⟨hasChanged_iff.1 ‹_›, _, w, hturn⟩
  · refine .inl ⟨?_, w, hturn⟩
    have hsame := mt hasChanged_iff.2 ‹_›
    rwa [not_not] at hsame

/-- What the watcher has reported last after a turn in which it has read its source is that, or equal. -/
theorem TakesTurn.lastReport (h : TakesTurn registered earlier k i)
    (hreads : reading? (k, i) = some (current, snapshot)) :
    lastReport k registered (earlier ++ [(k, i)]) = (current, snapshot) ∨
    current.strictEquals (Instance.lastReport k registered (earlier ++ [(k, i)])).1 = true ∧
      (snapshot == (Instance.lastReport k registered (earlier ++ [(k, i)])).2) = true := by
  rw [lastReport_append]
  obtain ⟨hsame, w, hturn⟩ | ⟨-, watcher, w, hturn⟩ := h.reads hreads
  · right
    unfold reportOf
    dsimp only
    rw [hturn]
    exact hsame
  · left
    unfold reportOf
    dsimp only
    rw [hturn]
    exact if_pos rfl

/-- Nothing is reported that is not read. -/
theorem reportOf_of_unread {t : TurnOf} (h : t.1 = k → reading? t = none) (last : Value × Json) :
    reportOf k last t = last := by
  unfold reportOf
  split
  · rename_i watcher v s w hturn
    refine if_neg fun hk ↦ ?_
    exact nomatch (h hk).symm.trans (reading?_of_callsBack (callsBack_iff.1 hturn))
  · rfl

/-- Turns that read nothing report nothing. -/
theorem lastReport_of_unread (h : ∀ t ∈ between, t.1 = k → reading? t = none) :
    lastReport k registered (earlier ++ between) = lastReport k registered earlier := by
  induction between generalizing earlier with
  | nil => rw [List.append_nil]
  | cons t rest ih =>
    rw [List.append_cons, ih fun u hu ↦ h u (List.mem_cons_of_mem t hu), lastReport_append,
      reportOf_of_unread (h t List.mem_cons_self)]

/-- Two turns in a row in which the source is read as the same. -/
theorem TakesTurn.rests_iff (h : TakesTurn registered earlier k i)
    (h' : TakesTurn registered (earlier ++ (k, i) :: between) k j)
    (hbetween : ∀ t ∈ between, t.1 = k → reading? t = none)
    (hreads : reading? (k, i) = some (current, snapshot))
    (hreads' : reading? (k, j) = some (current', snapshot'))
    (hvalue : sameValue current' current = true) (hcontent : (snapshot' == snapshot) = true) :
    (current'.isNaN = false → ∃ w, j.turn k = .rests w) ∧
    (current'.isNaN = true → ∃ watcher w, j.turn k = .callsBack watcher current' snapshot' w) := by
  have hlast : Instance.lastReport k registered (earlier ++ (k, i) :: between) =
      Instance.lastReport k registered (earlier ++ [(k, i)]) := by
    rw [List.append_cons, lastReport_of_unread hbetween]
  have hturn := h'.reads hreads'
  rw [hlast] at hturn
  constructor
  · intro hnan
    have hequal := strictEquals_of_sameValue hvalue hnan
    refine (hturn.resolve_right ?_).2
    rintro ⟨hchanged, -⟩
    obtain hreport | ⟨hreport, hreport'⟩ := h.lastReport hreads
    · rw [hreport] at hchanged
      exact hchanged ⟨hequal, hcontent⟩
    · exact hchanged ⟨Value.strictEquals_trans hequal hreport, Json.beq_trans hcontent hreport'⟩
  · intro hnan
    refine (hturn.resolve_left ?_).2
    rintro ⟨⟨hequal, -⟩, -⟩
    exact Bool.false_ne_true ((Value.isNaN_of_strictEquals hequal).symm.trans hnan)

end

/-! ### Main results -/

section

variable {c : Component} {h : Heap} {state : ObjectId} {w : World}
  {options : Component.Options} {i first : Instance}

/-- A launched instance has all its watchers registered. -/
theorem hasRegistered_of_launch (hprepare : prepare (born c w state .empty) = .ok options i)
    (hlaunch : launchOn machine options.watch i = .ok () first) : first.HasRegistered := by
  have hborn : (born c w state .empty).HasRegistered :=
    fun watcher hmem ↦ absurd hmem (Array.not_mem_empty watcher)
  have hprepared := mounts_hasRegistered.prepare (born c w state .empty) hborn
  rw [hprepare] at hprepared
  have hlaunched := mounts_hasRegistered.launchOn mounts_hasRegistered.watch i options.watch hprepared
  rwa [hlaunch] at hlaunched

/-- Every turn in a life is one of a watcher that was registered. -/
theorem takesTurn_of_history (hfirst : first.HasRegistered) {commands : List Command}
    {earlier later : List TurnOf} {k : Nat} {j : Instance}
    (hsplit : first.history (.settle :: commands) = earlier ++ (k, j) :: later) :
    ∃ registered, first.hooks.watchers[k]? = some registered ∧ TakesTurn registered earlier k j := by
  have heach := Life.history (.settle :: commands)
    (show Life first [] first from ⟨.inl (.nil first), .nil first⟩)
  rw [hsplit] at heach
  obtain ⟨hcourse, hk⟩ := heach.of_split
  exact ⟨_, Array.getElem?_eq_getElem hk, hcourse.takesTurn hfirst (Array.getElem?_eq_getElem hk)⟩

/-- Over the life of an instance: of two turns of a watcher in which its source is read, and between which
it is not, the second one calls no callback if the source reads as the same value with the same content,
unless the value is NaN. Then it calls back. NaN is the only value that does not equal itself, and the
content of every value does. -/
theorem unchanged_rests_iff (hcreate : create c (c.birth h) = .ok state w)
    (hprepare : prepare (born c w state .empty) = .ok options i)
    (hlaunch : launchOn machine options.watch i = .ok () first) :
    mount c h = mountResult (settle first) ∧
      (∀ commands earlier k i between j later,
        first.history (.settle :: commands) = earlier ++ (k, i) :: (between ++ (k, j) :: later) →
        (∀ t ∈ between, t.1 = k → reading? t = none) →
        ∀ current snapshot current' snapshot', reading? (k, i) = some (current, snapshot) →
          reading? (k, j) = some (current', snapshot') → sameValue current' current = true →
          (snapshot' == snapshot) = true →
          runWatcherOn machine k j = j.take k (j.turn k) ∧
          (current'.isNaN = false → ∃ w, j.turn k = .rests w) ∧
          (current'.isNaN = true → ∃ watcher w, j.turn k = .callsBack watcher current' snapshot' w)) ∧
      (∀ v : Value, v.strictEquals v = true ↔ v.isNaN = false) ∧
      ∀ (h : Heap) (v : Value), (h.document v == h.document v) = true := by
  have hfirst := hasRegistered_of_launch hprepare hlaunch
  refine ⟨?_, ?_, fun _ ↦ Value.strictEquals_self_iff, Heap.document_same⟩
  · rw [mount_of_prepared hcreate hprepare, bind_of_ok hlaunch]
  · intro commands earlier k i between j later hsplit hbetween current snapshot current' snapshot'
      hreads hreads' hvalue hcontent
    obtain ⟨registered, hregistered, hi⟩ := takesTurn_of_history hfirst hsplit
    have hsplit' : first.history (.settle :: commands) =
        (earlier ++ (k, i) :: between) ++ (k, j) :: later := by
      rw [hsplit, List.append_assoc]
      rfl
    obtain ⟨registered', hregistered', hj⟩ := takesTurn_of_history hfirst hsplit'
    obtain rfl := Option.some.inj (hregistered.symm.trans hregistered')
    exact ⟨runWatcher_eq j k, hi.rests_iff hj hbetween hreads hreads' hvalue hcontent⟩

end

/-- The source has been read in both turns, as the same value with the same content. -/
def readsSame (s t : TurnOf) : Bool :=
  (reading? s).any fun r ↦ (reading? t).any fun r' ↦ sameValue r'.1 r.1 && r'.2 == r.2

/-- Turns that read the same have both read something. -/
theorem exists_of_readsSame {s t : TurnOf} (h : readsSame s t = true) :
    ∃ r r', reading? s = some r ∧ reading? t = some r' ∧ sameValue r'.1 r.1 = true ∧
      (r'.2 == r.2) = true := by
  obtain ⟨r, hr, h⟩ := (Option.any_eq_true _ _).1 h
  obtain ⟨r', hr', h⟩ := (Option.any_eq_true _ _).1 h
  exact ⟨r, r', hr, hr', Bool.and_eq_true_iff.1 h⟩

/-- A list that is reversed stays the same list, and this one keeps its content too. -/
theorem unchanged_rests_iff_listing :
    listingFirst.history [.settle, .callMethod "swap" []] =
      [(0, listingFirst), (0, listingSwapped)] ∧
    readsSame (0, listingFirst) (0, listingSwapped) = true ∧
    ∃ w, listingSwapped.turn 0 = .rests w := by
  have hsame : readsSame (0, listingFirst) (0, listingSwapped) = true := by decide +kernel
  have hnan : (reading? (0, listingSwapped)).all (fun r ↦ !r.1.isNaN) = true := by decide +kernel
  obtain ⟨r, r', hr, hr', hvalue, hcontent⟩ := exists_of_readsSame hsame
  rw [hr', Option.all_some, Bool.not_eq_true'] at hnan
  obtain ⟨-, hturns, -⟩ := unchanged_rests_iff create_listing prepare_listing launch_listing
  exact ⟨history_listing, hsame,
    (hturns [.callMethod "swap" []] [] 0 listingFirst [] listingSwapped [] history_listing
      (fun t ht ↦ absurd ht List.not_mem_nil) r.1 r.2 r'.1 r'.2 hr hr' hvalue hcontent).2.1 hnan⟩

/-! ### A watcher of NaN -/

open Script in
/-- A heap with the functions of a component that watches a ratio of nothing to nothing, and has a method
that leaves everything as it is. -/
def ratioHeap : Heap where
  arrays := #[]
  objects := #[]
  functions := #[.native (.capability .watch),
    .closure (.make none [] none [.expr (.call (.name "watch")
      [.value (.name "ratio"), .value (.name "notify")] false)] false) ⟨0⟩,
    .closure (.make none [] none [] false) ⟨0⟩,
    .closure (.make none [] none [] false) ⟨0⟩]
  scopes := #[⟨[("watch", ⟨.function ⟨0⟩, false⟩), ("ratio", ⟨.number (0 / 0), false⟩),
    ("notify", ⟨.function ⟨2⟩, false⟩)], none, none, none, true⟩]
  switches := #[]

def ratio : Component :=
  { listing with options := { listing.options with methods := [("touch", .function ⟨3⟩)] } }

def ratioState : ObjectId × World :=
  match create ratio (ratio.birth ratioHeap) with
  | .ok state w => (state, w)
  | .error _ w => (⟨0⟩, w)

def ratioPrepared : Component.Options × Instance :=
  match prepare (born ratio ratioState.2 ratioState.1 .empty) with
  | .ok options i => (options, i)
  | .error _ i => (.empty, i)

/-- The instance when mounting settles. -/
def ratioFirst : Instance := left (launchOn machine ratioPrepared.1.watch ratioPrepared.2)

/-- The instance when it settles after the method has done nothing. -/
def ratioTouched : Instance :=
  left ((Command.callMethod "touch" []).work (left (settle ratioFirst)))

def Turn.isCallback : Turn → Bool
  | .callsBack _ _ _ _ => true
  | _ => false

theorem ratio_succeeds : succeeds (create ratio (ratio.birth ratioHeap)) = true ∧
    succeeds (prepare (born ratio ratioState.2 ratioState.1 .empty)) = true ∧
    succeeds (launchOn machine ratioPrepared.1.watch ratioPrepared.2) = true ∧
    succeeds ((Command.callMethod "touch" []).work (left (settle ratioFirst))) = true ∧
    readsSame (0, ratioFirst) (0, ratioTouched) = true ∧
    (ratioTouched.turn 0).isCallback = true := by
  decide +kernel

theorem create_ratio :
    create ratio (ratio.birth ratioHeap) = .ok ratioState.1 ratioState.2 := by
  obtain ⟨state, hstate⟩ := exists_eq_ok ratio_succeeds.1
  unfold ratioState
  rw [hstate]

theorem prepare_ratio : prepare (born ratio ratioState.2 ratioState.1 .empty) =
    .ok ratioPrepared.1 ratioPrepared.2 := by
  obtain ⟨options, hoptions⟩ := exists_eq_ok ratio_succeeds.2.1
  unfold ratioPrepared
  rw [hoptions]

theorem launch_ratio :
    launchOn machine ratioPrepared.1.watch ratioPrepared.2 = .ok () ratioFirst :=
  (exists_eq_ok ratio_succeeds.2.2.1).choose_spec

theorem history_ratio : ratioFirst.history [.settle, .callMethod "touch" []] =
    [(0, ratioFirst), (0, ratioTouched)] :=
  history_callMethod (by decide +kernel) (by decide +kernel)
    (exists_eq_ok ratio_succeeds.2.2.2.1).choose_spec

/-- The ratio is NaN from first to last, and yet the watcher calls back. -/
theorem ratio_calls_back :
    create ratio (ratio.birth ratioHeap) = .ok ratioState.1 ratioState.2 ∧
    prepare (born ratio ratioState.2 ratioState.1 .empty) =
      .ok ratioPrepared.1 ratioPrepared.2 ∧
    launchOn machine ratioPrepared.1.watch ratioPrepared.2 = .ok () ratioFirst ∧
    ratioFirst.history [.settle, .callMethod "touch" []] =
      [(0, ratioFirst), (0, ratioTouched)] ∧
    readsSame (0, ratioFirst) (0, ratioTouched) = true ∧
    (ratioTouched.turn 0).isCallback = true :=
  ⟨create_ratio, prepare_ratio, launch_ratio, history_ratio, ratio_succeeds.2.2.2.2⟩

end Nodecraft.Instance
