import Mathlib.Data.List.DropRight
import Nodecraft.Catalog.Registry
import Nodecraft.Proofs.Compiler.Untouched

/-!
# What is registered

Requests to a registry leave a history of events: components that were registered, compilations that
failed, and removals (`Registry.history`). The history alone tells what is registered: under a tag
it is the component that was registered last since the tag was last removed (`latest?`), and the
tags stand in the order of their first registrations since then (`place?`). Each event keeps a
registry in line with its history (`Registry.Follows.step`).
-/

set_option autoImplicit false

namespace Nodecraft

namespace Sandbox.Fields

variable {α : Type} (fields : Fields α) (key : String)

/-- A new key stands behind the others, and a known one stays in its place. -/
theorem keys_insert (value : α) :
    (fields.insert key value).keys = if key ∈ fields.keys then fields.keys
      else fields.keys ++ [key] := by
  induction fields with
  | nil => rfl
  | cons entry rest ih =>
    obtain ⟨k, v⟩ := entry
    have hkeys : keys ((k, v) :: rest) = k :: keys rest := rfl
    rw [hkeys, insert]
    by_cases hk : k = key
    · subst hk
      rw [if_pos (beq_self_eq_true k), if_pos List.mem_cons_self]
      rfl
    · have hmem : key ∈ k :: keys rest ↔ key ∈ keys rest := by simp [Ne.symm hk]
      rw [if_neg (by simpa using hk), if_congr hmem rfl rfl]
      change k :: keys (insert rest key value) = _
      rw [ih]
      split <;> rfl

/-- Of the keys one is gone. -/
theorem keys_erase : (fields.erase key).keys = fields.keys.erase key := by
  induction fields with
  | nil => rfl
  | cons entry rest ih =>
    obtain ⟨k, v⟩ := entry
    have hkeys : keys ((k, v) :: rest) = k :: keys rest := rfl
    rw [hkeys, erase, List.erase_cons]
    split
    · rfl
    · exact congrArg (k :: ·) ih

theorem get?_isSome_iff : (fields.get? key).isSome ↔ key ∈ fields.keys := by
  unfold get? keys
  rw [List.lookup_isSome_iff, List.mem_map]
  simp

end Sandbox.Fields

namespace Catalog

open Sandbox

/-! ### Histories -/

inductive Request
  | compile (tag : String) (record : Record) (data : NodeData) (store : NodeStore)
  | get (tag : String)
  | remove (tag : String)

/-- What has come of a request. -/
inductive Event
  | registered (tag : String) (component : Component)
  | failed (tag : String)
  | asked (tag : String)
  | removed (tag : String)

namespace Event

/-- The component that is registered under a tag. -/
def component? (tag : String) : Event → Option Component
  | .registered other component => if other = tag then some component else none
  | _ => none

def removes (tag : String) : Event → Bool
  | .removed other => other == tag
  | _ => false

end Event

namespace Registry

/-- The registry after a request, whatever it has answered. -/
def step (r : Registry) : Request → Registry
  | .compile tag record data store => left (compile tag record data store r)
  | .get _ => r
  | .remove tag => r.remove tag

def event (r : Registry) : Request → Event
  | .compile tag record data store =>
    match compile tag record data store r with
    | .ok component _ => .registered tag component
    | .error _ _ => .failed tag
  | .get tag => .asked tag
  | .remove tag => .removed tag

def after (r : Registry) (requests : List Request) : Registry := requests.foldl step r

def history (r : Registry) : List Request → List Event
  | [] => []
  | request :: rest => r.event request :: history (r.step request) rest

/-- Requests in a row. -/
theorem after_append (r : Registry) (requests later : List Request) :
    r.after (requests ++ later) = (r.after requests).after later :=
  List.foldl_append

/-- What requests in a row did. -/
theorem history_append (requests later : List Request) : ∀ r : Registry,
    r.history (requests ++ later) = r.history requests ++ (r.after requests).history later := by
  induction requests with
  | nil => exact fun _ ↦ rfl
  | cons request rest ih => exact fun r ↦ congrArg (r.event request :: ·) (ih (r.step request))

end Registry

section

variable (tag : String) (events : List Event)

/-- What has happened since a tag was last removed. -/
def since : List Event := events.rtakeWhile fun e ↦ !e.removes tag

/-- The component that was last registered under a tag. -/
def latest? : Option Component := ((since tag events).filterMap (Event.component? tag)).getLast?

/-- How many events there were before a tag was first registered. -/
def place? : Option Nat :=
  ((since tag events).findIdx? fun e ↦ (e.component? tag).isSome).map
    (events.length - (since tag events).length + ·)

theorem length_since_le : (since tag events).length ≤ events.length :=
  (List.rtakeWhile_suffix _ events).length_le

/-- What is registered has a place. -/
theorem isSome_latest? : (latest? tag events).isSome ↔ (place? tag events).isSome := by
  unfold latest? place?
  rw [Option.isSome_map, List.findIdx?_isSome, List.any_eq_true, List.getLast?_isSome, ne_eq,
    List.filterMap_eq_nil_iff]
  simp [Option.isSome_iff_ne_none]

/-- A tag has its place among what happened. -/
theorem place?_lt {n : Nat} (h : place? tag events = some n) : n < events.length := by
  have hle := length_since_le tag events
  unfold place? at h
  obtain ⟨i, hi, rfl⟩ := Option.map_eq_some_iff.1 h
  have hlt := (List.findIdx?_eq_some_iff_findIdx_eq.1 hi).1
  omega

variable {tag} {e : Event}

/-- One event more that does not remove the tag. -/
theorem since_concat (he : e.removes tag = false) :
    since tag (events ++ [e]) = since tag events ++ [e] := by
  unfold since
  rw [List.rtakeWhile_concat, if_pos (by rw [he]; rfl)]

/-- After its removal nothing is known of a tag. -/
theorem since_removed : since tag (events ++ [.removed tag]) = [] := by
  unfold since
  rw [List.rtakeWhile_concat, if_neg (by simp [Event.removes])]

/-- The latest registration counts. -/
theorem latest?_concat (he : e.removes tag = false) :
    latest? tag (events ++ [e]) = (e.component? tag).or (latest? tag events) := by
  unfold latest?
  rw [since_concat events he, List.filterMap_append, List.getLast?_append]
  cases hc : e.component? tag <;> simp [hc]

/-- The first registration since the last removal gives the place. -/
theorem place?_concat (he : e.removes tag = false) :
    place? tag (events ++ [e]) = (place? tag events).or
      ((e.component? tag).map fun _ ↦ events.length) := by
  have hle := length_since_le tag events
  unfold place?
  rw [since_concat events he, List.findIdx?_append, List.length_append, List.length_append,
    Nat.add_sub_add_right, Option.map_or]
  congr 1
  cases hc : e.component? tag with
  | none => simp [hc]
  | some component => simp [hc]; omega

end

/-! ### One request more -/

namespace Registry

variable {r r' : Registry} {tag : String} {record : Record} {data : NodeData} {store : NodeStore}

/-- A compilation that fails leaves all components as they are. -/
theorem components_of_error {e : CompileError} (h : compile tag record data store r = .error e r') :
    r'.components = r.components := by
  unfold compile at h
  split at h <;> cases h
  rfl

/-- What compiles is registered under its tag. -/
theorem components_of_ok {component : Component}
    (h : compile tag record data store r = .ok component r') :
    r'.components = r.components.insert tag component := by
  unfold compile at h
  split at h <;> cases h
  rfl

/-- The compiler is left as its own work leaves it. -/
theorem compiler_left : (left (compile tag record data store r)).compiler =
    left (Compiler.compile record.definition data store r.compiler) := by
  unfold compile
  cases Compiler.compile record.definition data store r.compiler <;> rfl

/-- A registry of just what its history tells. -/
structure Follows (events : List Event) (r : Registry) : Prop where
  get?_eq (tag : String) : r.get? tag = latest? tag events
  ordered : r.tags.Pairwise fun tag other ↦
    ∃ m n, place? tag events = some m ∧ place? other events = some n ∧ m < n

namespace Follows

variable {events : List Event} {e : Event}

/-- The tags are those that have a place. -/
theorem mem_tags (h : r.Follows events) : tag ∈ r.tags ↔ (place? tag events).isSome := by
  unfold tags
  rw [← Fields.get?_isSome_iff, ← isSome_latest?, ← h.get?_eq]
  rfl

/-- No tag stands twice. -/
theorem nodup_tags (h : r.Follows events) : r.tags.Nodup := by
  refine h.ordered.imp ?_
  rintro a b ⟨m, n, hm, hn, hlt⟩ rfl
  rw [hm] at hn
  exact Nat.ne_of_lt hlt (Option.some.inj hn)

/-- What was registered keeps its place unless it is removed. -/
theorem place?_concat_of_mem (h : r.Follows events) (hmem : tag ∈ r.tags)
    (he : e.removes tag = false) : place? tag (events ++ [e]) = place? tag events := by
  obtain ⟨n, hn⟩ := Option.isSome_iff_exists.1 (h.mem_tags.1 hmem)
  rw [place?_concat events he, hn]
  rfl

/-- Tags that stay registered stay in order. -/
theorem ordered_concat (h : r.Follows events) {ts : List String} (hts : ts.Sublist r.tags)
    (he : ∀ tag ∈ ts, e.removes tag = false) :
    ts.Pairwise fun tag other ↦ ∃ m n,
      place? tag (events ++ [e]) = some m ∧ place? other (events ++ [e]) = some n ∧ m < n := by
  refine (h.ordered.sublist hts).imp_of_mem fun {a b} ha hb hab ↦ ?_
  rwa [h.place?_concat_of_mem (hts.subset ha) (he a ha),
    h.place?_concat_of_mem (hts.subset hb) (he b hb)]

/-- Nothing changes with an event that is neither a registration nor a removal. -/
theorem skip (h : r.Follows events) (hcomponents : r'.components = r.components)
    (hnone : ∀ tag, e.component? tag = none) (he : ∀ tag, e.removes tag = false) :
    r'.Follows (events ++ [e]) where
  get?_eq tag := by
    rw [latest?_concat events (he tag), hnone, Option.none_or, ← h.get?_eq]
    unfold get?
    rw [hcomponents]
  ordered := by
    unfold tags
    rw [hcomponents]
    exact h.ordered_concat (List.Sublist.refl _) fun tag _ ↦ he tag

/-- A registration follows what happened. -/
theorem register (h : r.Follows events) {component : Component}
    (hcomponents : r'.components = r.components.insert tag component) :
    r'.Follows (events ++ [.registered tag component]) where
  get?_eq other := by
    rw [latest?_concat events rfl]
    unfold get? Event.component?
    dsimp only
    rw [hcomponents]
    by_cases hother : tag = other
    · subst hother
      rw [if_pos rfl, Fields.get?_insert_self]
      rfl
    · rw [if_neg hother, Option.none_or, Fields.get?_insert_of_ne _ _ (Ne.symm hother)]
      exact h.get?_eq other
  ordered := by
    have hsame := h.ordered_concat (e := .registered tag component) (List.Sublist.refl _)
      fun _ _ ↦ rfl
    unfold tags at hsame ⊢
    rw [hcomponents, Fields.keys_insert]
    split
    · exact hsame
    · rename_i hnew
      refine List.pairwise_append.2
        ⟨hsame, List.pairwise_singleton _ _, fun other hother last hlast ↦ ?_⟩
      obtain rfl := List.mem_singleton.1 hlast
      obtain ⟨m, hm⟩ := Option.isSome_iff_exists.1 (h.mem_tags.1 hother)
      have hnone : place? last events = none :=
        Option.not_isSome_iff_eq_none.1 fun hsome ↦ hnew (h.mem_tags.2 hsome)
      refine ⟨m, events.length, ?_, ?_, place?_lt _ _ hm⟩
      · rw [h.place?_concat_of_mem hother rfl, hm]
      · rw [place?_concat events rfl, hnone]
        simp [Event.component?]

/-- So does a removal. -/
theorem remove (h : r.Follows events) (tag : String) :
    (r.remove tag).Follows (events ++ [.removed tag]) := by
  have htags : (r.remove tag).tags = r.tags.erase tag := Fields.keys_erase _ _
  refine ⟨fun other ↦ ?_, ?_⟩
  · by_cases hother : other = tag
    · subst hother
      unfold latest?
      rw [since_removed]
      refine Option.not_isSome_iff_eq_none.1 fun hsome ↦ ?_
      have hmem : other ∈ (r.remove other).tags := (Fields.get?_isSome_iff _ _).1 hsome
      rw [htags] at hmem
      exact h.nodup_tags.not_mem_erase hmem
    · have hkept : (Event.removed tag).removes other = false := beq_false_of_ne (Ne.symm hother)
      rw [latest?_concat events hkept]
      exact (Fields.get?_erase_of_ne _ hother).trans (h.get?_eq other)
  · rw [htags]
    refine h.ordered_concat List.erase_sublist fun other hother ↦ beq_false_of_ne ?_
    rintro rfl
    exact h.nodup_tags.not_mem_erase hother

/-- A request leaves a registry in line with its history. -/
theorem step (h : r.Follows events) (request : Request) :
    (r.step request).Follows (events ++ [r.event request]) := by
  cases request with
  | compile tag record data store =>
    unfold Registry.step event
    dsimp only
    cases hr : compile tag record data store r with
    | ok component r₁ => exact h.register (components_of_ok hr)
    | error e r₁ => exact h.skip (components_of_error hr) (fun _ ↦ rfl) fun _ ↦ rfl
  | get tag => exact h.skip rfl (fun _ ↦ rfl) fun _ ↦ rfl
  | remove tag => exact h.remove tag

end Follows

/-- Every registry follows its history. -/
theorem follows_after (compiler : Compiler) (requests : List Request) :
    ((new compiler).after requests).Follows ((new compiler).history requests) := by
  induction requests using List.reverseRecOn with
  | nil => exact ⟨fun _ ↦ rfl, List.Pairwise.nil⟩
  | append_singleton earlier request ih =>
    rw [after_append, history_append]
    exact ih.step request

/-! ### What components are made of -/

/-- A request changes no cell that is there. -/
theorem untouched_step (hr : r.compiler.Harmless) (request : Request) :
    r.compiler.heap.Untouched (r.step request).compiler.heap ∧
      (r.step request).compiler.Harmless := by
  cases request with
  | compile tag record data store =>
    unfold step
    dsimp only
    rw [compiler_left]
    exact ⟨hr.untouched_compile record.definition data store,
      hr.compile record.definition data store⟩
  | get tag => exact ⟨.refl _, hr⟩
  | remove tag => exact ⟨.refl _, hr⟩

/-- Requests touch nothing that the heap held. -/
theorem untouched_after (requests : List Request) : ∀ {r : Registry}, r.compiler.Harmless →
    r.compiler.heap.Untouched (r.after requests).compiler.heap ∧
      (r.after requests).compiler.Harmless := by
  induction requests with
  | nil => exact fun hr ↦ ⟨.refl _, hr⟩
  | cons request rest ih =>
    intro r hr
    obtain ⟨huntouched, hstep⟩ := untouched_step hr request
    obtain ⟨hrest, hafter⟩ := ih hstep
    exact ⟨huntouched.trans hrest, hafter⟩

end Registry

/-- A compilation that fails leaves a registry's components as they are, and one that succeeds
changes only what is registered under its own tag, which keeps its place or goes to the end. So
after any requests a tag is registered with the component of its last registration since it was last
removed, and the tags stand in the order of their first registrations since then. With the standard
whitelist, the cells that components are made of stay as they are, too. -/
theorem registry_follows_history :
    (∀ (r : Registry) (tag : String) (record : Record) (data : NodeData) (store : NodeStore),
      (∀ e r', Registry.compile tag record data store r = .error e r' →
        r'.components = r.components) ∧
      ∀ component r', Registry.compile tag record data store r = .ok component r' →
        r'.get? tag = some component ∧ (∀ other ≠ tag, r'.get? other = r.get? other) ∧
          r'.tags = if tag ∈ r.tags then r.tags else r.tags ++ [tag]) ∧
    (∀ (compiler : Compiler) (requests : List Request) (r : Registry) (events : List Event),
      r = (Registry.new compiler).after requests →
      events = (Registry.new compiler).history requests →
      (∀ tag, r.get? tag = latest? tag events) ∧
        r.tags.Nodup ∧ (∀ tag, tag ∈ r.tags ↔ (place? tag events).isSome) ∧
        (r.tags.Pairwise fun tag other ↦
          ∃ m n, place? tag events = some m ∧ place? other events = some n ∧ m < n) ∧
        r.size = r.tags.length) ∧
    ∀ (settings : Compiler.Settings) (h : Heap) (requests later : List Request) (r : Registry),
      r = .new (.new settings (Whitelist.standard h).1 (Whitelist.standard h).2) →
      (r.after requests).compiler.heap.Untouched (r.after (requests ++ later)).compiler.heap := by
  refine ⟨fun r tag record data store ↦ ⟨fun e r' hr ↦ Registry.components_of_error hr,
    fun component r' hr ↦ ?_⟩, ?_, ?_⟩
  · have hcomponents := Registry.components_of_ok hr
    unfold Registry.get? Registry.tags
    rw [hcomponents]
    exact ⟨Fields.get?_insert_self _ _ _, fun other hother ↦ Fields.get?_insert_of_ne _ _ hother,
      Fields.keys_insert _ _ _⟩
  · rintro compiler requests _ _ rfl rfl
    have hfollows := Registry.follows_after compiler requests
    exact ⟨hfollows.get?_eq, hfollows.nodup_tags, fun _ ↦ hfollows.mem_tags, hfollows.ordered,
      (List.length_map _).symm⟩
  · rintro settings h requests later _ rfl
    have hstart := Registry.untouched_after requests
      (r := .new _) (Compiler.harmless_standard settings h)
    rw [Registry.after_append]
    exact (Registry.untouched_after later hstart.2).1

/-- A definition without markup. -/
def bare : Record := ⟨"1", "Card", "<script></script>", none⟩

def card : Record := ⟨"1", "Card", "<p></p>", none⟩

/-- Registers two tags, fails for the first, and registers that again after removing it. -/
def cards : List Request :=
  [.compile "custom-1" card [] [], .compile "custom-2" card [] [], .compile "custom-1" bare [] [],
    .remove "custom-1", .compile "custom-1" card [] []]

/-- A registry with the standard whitelist. -/
def standard : Registry :=
  .new (.new .standard (Whitelist.standard .empty).1 (Whitelist.standard .empty).2)

/-- The tag that was removed comes last, another failure changes nothing, and a third tag comes
behind these. -/
theorem registry_keeps_cards :
    (∃ e r', Registry.compile "custom-1" bare [] [] (standard.after cards) = .error e r' ∧
      r'.components = (standard.after cards).components) ∧
    (∃ component r', Registry.compile "custom-3" card [] [] (standard.after cards) =
        .ok component r' ∧ r'.get? "custom-3" = some component ∧
      r'.tags = ["custom-2", "custom-1", "custom-3"]) ∧
    (standard.after cards).get? "custom-1" = latest? "custom-1" (standard.history cards) ∧
    (place? "custom-1" (standard.history cards) = some 4 ∧
      place? "custom-2" (standard.history cards) = some 1) ∧
    standard.compiler.heap.Untouched (standard.after cards).compiler.heap := by
  obtain ⟨hcompile, hfollows, huntouched⟩ := registry_follows_history
  have htags : (standard.after cards).tags = ["custom-2", "custom-1"] := by decide +kernel
  have hfails : (((standard.after cards).event (.compile "custom-1" bare [] [])).component?
      "custom-1").isSome = false := by decide +kernel
  have hok : (((standard.after cards).event (.compile "custom-3" card [] [])).component?
      "custom-3").isSome = true := by decide +kernel
  unfold Registry.event at hfails hok
  dsimp only at hfails hok
  refine ⟨?_, ?_, (hfollows _ cards _ _ rfl rfl).1 "custom-1", by decide +kernel,
    huntouched .standard .empty [] cards standard rfl⟩
  · obtain ⟨hkept, -⟩ := hcompile (standard.after cards) "custom-1" bare [] []
    cases hr : Registry.compile "custom-1" bare [] [] (standard.after cards) with
    | error e r' => exact ⟨e, r', rfl, hkept e r' hr⟩
    | ok component r' =>
      rw [hr] at hfails
      cases hfails
  · obtain ⟨-, hadded⟩ := hcompile (standard.after cards) "custom-3" card [] []
    cases hr : Registry.compile "custom-3" card [] [] (standard.after cards) with
    | error e r' =>
      rw [hr] at hok
      cases hok
    | ok component r' =>
      obtain ⟨hself, -, hlast⟩ := hadded component r' hr
      rw [htags] at hlast
      exact ⟨component, r', rfl, hself, hlast⟩

end Catalog

end Nodecraft
