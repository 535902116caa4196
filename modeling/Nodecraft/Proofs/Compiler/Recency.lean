import Mathlib.Data.List.Dedup
import Mathlib.Data.List.DropRight
import Nodecraft.Proofs.Compiler.History

/-!
# What a cache holds

Of all the markup that was asked for since a cache was last cleared and that compiles, a cache holds
the templates of as many as it has room for, those asked for last (`Cache.recent`). Each request
takes them from one such list to the next (`Cache.Keeping.step`): asking for markup moves it to the
end, and what is then too much goes from the front (`List.rtake_filter_ne`).

Entries go by the digest of their markup, so all of this is about markup that digests tell apart
(`Cache.TellsApart`). Then a cache never shows in the templates that a compiler answers with
(`cache_holds_recent`).
-/

set_option autoImplicit false

/-! ### The last so many of a list -/

/-- A value stands in a list without repetitions for the last time. -/
theorem List.dedup_concat {α : Type} [DecidableEq α] (l : List α) (a : α) :
    (l ++ [a]).dedup = l.dedup.filter (· != a) ++ [a] := by
  induction l with
  | nil => simp
  | cons b l ih =>
    rw [List.cons_append, List.dedup_cons, List.dedup_cons, ih]
    by_cases hb : b = a
    · subst hb
      rw [if_pos (by simp)]
      split
      · rfl
      · rw [List.filter_cons_of_neg (by simp)]
    · by_cases hmem : b ∈ l
      · rw [if_pos (by simp [hmem]), if_pos hmem]
      · rw [if_neg (by simp [hmem, hb]), if_neg hmem, List.filter_cons_of_pos (by simpa using hb)]
        rfl

/-- To keep one value less, it does not matter whether a value is taken out before or after the
others are given up. -/
theorem List.rtake_filter_ne {α : Type} [DecidableEq α] (a : α) (l : List α) (hl : l.Nodup) :
    ∀ n : Nat, ((l.rtake n).filter (· != a)).rtake (n - 1) = (l.filter (· != a)).rtake (n - 1) := by
  induction l using List.reverseRecOn with
  | nil => simp
  | append_singleton l b ih =>
    obtain ⟨hnodup, -, hdisjoint⟩ := List.nodup_append.1 hl
    intro n
    cases n with
    | zero => simp
    | succ n =>
      rw [List.rtake_concat_succ, List.filter_append, List.filter_append, Nat.add_sub_cancel]
      by_cases hb : b = a
      · subst hb
        have hall : ∀ c ∈ l, (c != b) = true := by
          intro c hc
          simpa using hdisjoint c hc b List.mem_cons_self
        have hlast : ∀ c ∈ l.rtake n, (c != b) = true := fun c hc ↦ hall c (List.mem_of_mem_drop hc)
        rw [List.filter_cons_of_neg (by simp), List.filter_nil, List.append_nil, List.append_nil,
          List.filter_eq_self.2 hall, List.filter_eq_self.2 hlast]
        simp only [List.rtake, List.drop_drop, List.length_drop]
        congr 1
        omega
      · rw [List.filter_cons_of_pos (by simpa using hb), List.filter_nil]
        cases n with
        | zero => simp
        | succ n =>
          rw [List.rtake_concat_succ, List.rtake_concat_succ]
          exact congrArg (· ++ [b]) (ih hnodup (n + 1))

namespace Nodecraft.Compiler

open Sandbox

/-! ### Requests -/

inductive Cache.Request
  | compile (markup : String)
  /-- Looks a template up. -/
  | get (markup : String)
  | clear

namespace Cache

namespace Request

def markup? : Request → Option String
  | .compile markup => some markup
  | .get markup => some markup
  | .clear => none

/-- The markup that is to be compiled. -/
def compiled? : Request → Option String
  | .compile markup => some markup
  | _ => none

def clears : Request → Bool
  | .clear => true
  | _ => false

end Request

/-- No two of the texts have the same digest. -/
def TellsApart (markups : List String) : Prop :=
  ∀ markup ∈ markups, ∀ other ∈ markups, key other = key markup → other = markup

instance (markups : List String) : Decidable (TellsApart markups) :=
  inferInstanceAs (Decidable (∀ markup ∈ markups, ∀ other ∈ markups, key other = key markup →
    other = markup))

/-- Fewer markups are told apart all the more. -/
theorem TellsApart.mono {markups others : List String} (h : TellsApart markups)
    (hsub : others ⊆ markups) : TellsApart others :=
  fun markup hmarkup other hother ↦ h markup (hsub hmarkup) other (hsub hother)

/-- What is told apart in the end was told apart before. -/
theorem TellsApart.of_append {requests later : List Request}
    (h : TellsApart ((requests ++ later).filterMap Request.markup?)) :
    TellsApart (requests.filterMap Request.markup?) :=
  h.mono (List.filterMap_append.symm ▸ List.subset_append_left _ _)

theorem TellsApart.of_concat {requests : List Request} {markup : String}
    (h : TellsApart ((requests ++ [Request.compile markup]).filterMap Request.markup?)) :
    TellsApart (markup :: requests.filterMap Request.markup?) := by
  refine h.mono fun other hother ↦ ?_
  rw [List.filterMap_append]
  exact List.mem_append.2 ((List.mem_cons.1 hother).symm.imp id fun heq ↦ List.mem_singleton.2 heq)

section

variable (templateOf : String → Except Template.Fault Template)

/-- The cache after a request. -/
def step (c : Cache) : Request → Cache
  | .compile markup => (c.compileBy templateOf markup).2
  | .get _ => c
  | .clear => c.clear

def after (c : Cache) (requests : List Request) : Cache := requests.foldl (step templateOf) c

/-- What was asked for since the last clearing and compiles, with repetitions. -/
def requested (requests : List Request) : List String :=
  ((requests.rtakeWhile fun r ↦ !r.clears).filterMap Request.compiled?).filter
    fun markup ↦ (templateOf markup).isOk

/-- The markup that was asked for last: as much as there is room for, the latest last. -/
def recent (capacity : Nat) (requests : List Request) : List String :=
  (requested templateOf requests).dedup.rtake capacity

/-- The cache holds the templates of the markup, in this order, and nothing else. -/
def Holds (markups : List String) (c : Cache) : Prop :=
  List.Forall₂ (fun markup e ↦ key markup = e.1 ∧ templateOf markup = .ok e.2) markups c.entries

end

variable {templateOf : String → Except Template.Fault Template}

/-- Only markups that were asked for are recent. -/
theorem mem_recent {capacity : Nat} {requests : List Request} {markup : String}
    (h : markup ∈ recent templateOf capacity requests) :
    markup ∈ requests.filterMap Request.markup? := by
  have hrequested := List.mem_of_mem_filter (List.mem_dedup.1 (List.mem_of_mem_drop h))
  obtain ⟨r, hr, hmarkup⟩ := List.mem_filterMap.1 hrequested
  refine List.mem_filterMap.2 ⟨r, (List.rtakeWhile_suffix _ requests).subset hr, ?_⟩
  cases r with
  | compile other => exact hmarkup
  | get other => cases hmarkup
  | clear => cases hmarkup

/-! ### One request more -/

/-- One request more that does not clear. -/
theorem requested_concat {r : Request} (hr : r.clears = false) (requests : List Request) :
    requested templateOf (requests ++ [r]) = requested templateOf requests ++
      r.compiled?.toList.filter fun markup ↦ (templateOf markup).isOk := by
  unfold requested
  rw [List.rtakeWhile_concat, if_pos (by rw [hr]; rfl), List.filterMap_append, List.filter_append]
  cases r <;> rfl

/-- A markup that compiles is asked for. -/
theorem requested_compile {markup : String} {t : Template} (ht : templateOf markup = .ok t)
    (requests : List Request) :
    requested templateOf (requests ++ [.compile markup]) =
      requested templateOf requests ++ [markup] := by
  have hok : (templateOf markup).isOk = true := by rw [ht]; rfl
  rw [requested_concat rfl]
  exact congrArg _ (List.filter_cons_of_pos hok)

/-- A markup with a fault leaves no trace. -/
theorem requested_of_error {markup : String} {fault : Template.Fault}
    (ht : templateOf markup = .error fault) (requests : List Request) :
    requested templateOf (requests ++ [.compile markup]) = requested templateOf requests := by
  have hok : ¬(templateOf markup).isOk = true := by rw [ht]; exact Bool.false_ne_true
  have hnone : [markup].filter (fun markup ↦ (templateOf markup).isOk) = [] :=
    List.filter_cons_of_neg hok
  rw [requested_concat rfl]
  exact (congrArg _ hnone).trans (List.append_nil _)

/-- Looking a markup up does not count. -/
theorem requested_get (markup : String) (requests : List Request) :
    requested templateOf (requests ++ [.get markup]) = requested templateOf requests := by
  rw [requested_concat rfl]
  exact List.append_nil _

/-- Clearing forgets all requests. -/
theorem requested_clear (requests : List Request) :
    requested templateOf (requests ++ [.clear]) = [] := by
  unfold requested
  rw [List.rtakeWhile_concat, if_neg (by simp [Request.clears])]
  rfl

theorem recent_of_nil {requests : List Request} (h : requested templateOf requests = [])
    (capacity : Nat) : recent templateOf capacity requests = [] := by
  unfold recent
  rw [h, List.dedup_nil, List.rtake_nil]

/-- Markup that compiles goes to the end, with all but the first of the others before it. -/
theorem recent_compile {markup : String} {t : Template} (ht : templateOf markup = .ok t)
    (capacity : Nat) (requests : List Request) :
    recent templateOf (capacity + 1) (requests ++ [.compile markup]) =
      ((recent templateOf (capacity + 1) requests).filter (· != markup)).rtake capacity ++
        [markup] := by
  have hfilter := List.rtake_filter_ne markup _ (List.nodup_dedup (requested templateOf requests))
    (capacity + 1)
  unfold recent
  rw [requested_compile ht, List.dedup_concat, List.rtake_concat_succ]
  exact congrArg (· ++ [markup]) hfilter.symm

/-! ### What a cache holds -/

section

variable {c : Cache} {markup : String} {t : Template}

/-- A markup that is kept is moved to the end, and not compiled. -/
theorem compileBy_of_kept (ht : c.get? markup = some t) :
    c.compileBy templateOf markup = (.ok t, c.refresh (key markup) t) := by
  unfold compileBy
  rw [ht]

/-- A new markup is compiled and added. -/
theorem compileBy_of_ok (hnone : c.get? markup = none) (ht : templateOf markup = .ok t) :
    c.compileBy templateOf markup = (.ok t, c.add (key markup) t) := by
  unfold compileBy
  rw [hnone, ht]

/-- A fault is not kept. -/
theorem compileBy_of_error {fault : Template.Fault} (hnone : c.get? markup = none)
    (ht : templateOf markup = .error fault) :
    c.compileBy templateOf markup = (.error fault, c) := by
  unfold compileBy
  rw [hnone, ht]

end

namespace Holds

variable {markups : List String} {c : Cache} {markup : String}

/-- As many templates as markups. -/
theorem length_eq (h : Holds templateOf markups c) : c.size = markups.length :=
  (List.Forall₂.length_eq h).symm

/-- A template is found exactly for what the cache holds. -/
theorem get?_eq (h : Holds templateOf markups c) (htell : TellsApart (markup :: markups)) :
    c.get? markup = if markup ∈ markups then (templateOf markup).toOption else none := by
  obtain ⟨entries, capacity⟩ := c
  unfold get?
  unfold Holds at h
  dsimp only at h ⊢
  induction h with
  | nil => rfl
  | @cons other e rest entries he _ ih =>
    obtain ⟨k, t⟩ := e
    obtain ⟨rfl, ht⟩ : key other = k ∧ templateOf other = .ok t := he
    rw [List.lookup_cons]
    by_cases hother : other = markup
    · subst hother
      rw [beq_self_eq_true, if_pos List.mem_cons_self, ht]
      rfl
    · have hkey : key markup ≠ key other := fun hkey ↦
        hother (htell markup List.mem_cons_self other (by simp) hkey.symm)
      have hrest : TellsApart (markup :: rest) :=
        htell.mono (List.cons_subset_cons _ (List.subset_cons_self _ _))
      rw [beq_false_of_ne hkey, if_congr (List.mem_cons.trans
        (or_iff_right (Ne.symm hother))) rfl rfl]
      exact ih hrest

/-- Asking for a markup again makes it the most recent. -/
theorem refresh (h : Holds templateOf markups c) (htell : TellsApart (markup :: markups))
    {t : Template} (ht : templateOf markup = .ok t) :
    Holds templateOf (markups.filter (· != markup) ++ [markup]) (c.refresh (key markup) t) := by
  refine List.rel_append ?_ (.cons ⟨rfl, ht⟩ .nil)
  have hmem : List.Forall₂
      (fun other e ↦ other ∈ markups ∧ key other = e.1 ∧ templateOf other = .ok e.2)
      markups c.entries := by
    refine List.forall₂_iff_zip.2 ⟨List.Forall₂.length_eq h, fun {other e} hzip ↦ ?_⟩
    exact ⟨(List.of_mem_zip hzip).1, (List.forall₂_iff_zip.1 h).2 hzip⟩
  refine (List.rel_filter (fun other e he ↦ ?_) hmem).imp fun _ _ he ↦ he.2
  obtain ⟨hother, hkey, -⟩ := he
  dsimp only
  rw [← hkey, bne_iff_ne, bne_iff_ne]
  refine not_congr ⟨congrArg key, fun heq ↦ ?_⟩
  exact htell markup List.mem_cons_self other (List.mem_cons_of_mem _ hother) heq

/-- A new markup is the most recent, and the oldest one gives way if there is no room. -/
theorem add (h : Holds templateOf markups c) (hroom : markups.length ≤ c.capacity) {t : Template}
    (ht : templateOf markup = .ok t) (hcapacity : c.capacity ≠ 0) :
    Holds templateOf (markups.rtake (c.capacity - 1) ++ [markup]) (c.add (key markup) t) := by
  unfold Cache.add
  rw [if_neg hcapacity]
  refine List.rel_append ?_ (.cons ⟨rfl, ht⟩ .nil)
  have hlength := List.Forall₂.length_eq h
  have hdrop : markups.length - (c.capacity - 1) = c.entries.length + 1 - c.capacity := by omega
  unfold List.rtake
  rw [hdrop]
  exact List.forall₂_drop _ h

end Holds

/-- A cache with what it holds after requests. -/
structure Keeping (templateOf : String → Except Template.Fault Template) (capacity : Nat)
    (requests : List Request) (c : Cache) : Prop where
  capacity_eq : c.capacity = capacity
  holds : Holds templateOf (recent templateOf capacity requests) c

section

variable {capacity : Nat} {requests : List Request} {c : Cache}

/-- No more are recent than there is room for. -/
theorem length_recent_le (templateOf : String → Except Template.Fault Template) (capacity : Nat)
    (requests : List Request) : (recent templateOf capacity requests).length ≤ capacity := by
  unfold recent List.rtake
  rw [List.length_drop]
  omega

theorem TellsApart.recent {markup : String}
    (htell : TellsApart (markup :: requests.filterMap Request.markup?)) :
    TellsApart (markup :: recent templateOf capacity requests) :=
  htell.mono (List.cons_subset_cons _ fun _ ↦ mem_recent)

/-- What was asked for before is put back at the end. -/
theorem Keeping.refresh (h : Keeping templateOf capacity requests c) {markup : String}
    (htell : TellsApart (markup :: requests.filterMap Request.markup?))
    (hmem : markup ∈ recent templateOf capacity requests) {t : Template}
    (ht : templateOf markup = .ok t) :
    Keeping templateOf capacity (requests ++ [.compile markup]) (c.refresh (key markup) t) := by
  refine ⟨h.capacity_eq, ?_⟩
  have hle := length_recent_le templateOf capacity requests
  cases capacity with
  | zero => exact absurd (List.length_pos_of_mem hmem) (Nat.not_lt_of_le hle)
  | succ n =>
    have hless : ((recent templateOf (n + 1) requests).filter (· != markup)).length <
        (recent templateOf (n + 1) requests).length :=
      List.length_filter_lt_length_iff_exists.2 ⟨markup, hmem, by simp⟩
    have hall : ((recent templateOf (n + 1) requests).filter (· != markup)).rtake n =
        (recent templateOf (n + 1) requests).filter (· != markup) := by
      unfold List.rtake
      rw [Nat.sub_eq_zero_of_le (by omega), List.drop_zero]
    rw [recent_compile ht, hall]
    exact h.holds.refresh htell.recent ht

/-- What is new goes to the end, and the first makes room if there is none. -/
theorem Keeping.add (h : Keeping templateOf capacity requests c) {markup : String}
    (hmem : markup ∉ recent templateOf capacity requests) {t : Template}
    (ht : templateOf markup = .ok t) :
    Keeping templateOf capacity (requests ++ [.compile markup]) (c.add (key markup) t) := by
  have hcapacity := h.capacity_eq
  cases capacity with
  | zero =>
    have hsame : c.add (key markup) t = c := if_pos hcapacity
    have hholds := h.holds
    unfold recent at hholds
    rw [List.rtake_zero] at hholds
    rw [hsame]
    refine ⟨hcapacity, ?_⟩
    unfold recent
    rwa [List.rtake_zero]
  | succ n =>
    have hself : (recent templateOf (n + 1) requests).filter (· != markup) =
        recent templateOf (n + 1) requests := by
      refine List.filter_eq_self.2 fun other hother ↦ ?_
      rw [bne_iff_ne]
      rintro rfl
      exact hmem hother
    have hroom := length_recent_le templateOf (n + 1) requests
    have hadd := h.holds.add (hcapacity.symm ▸ hroom) ht (by omega)
    rw [hcapacity, Nat.add_sub_cancel] at hadd
    refine ⟨?_, ?_⟩
    · unfold Cache.add
      split <;> exact hcapacity
    · rw [recent_compile ht, hself]
      exact hadd

/-- Asking for markup gives what compiling it gives, kept or not, and the cache holds what was asked
for last from then on. -/
theorem Keeping.compile (h : Keeping templateOf capacity requests c) {markup : String}
    (htell : TellsApart (markup :: requests.filterMap Request.markup?)) :
    (c.compileBy templateOf markup).1 = templateOf markup ∧
      Keeping templateOf capacity (requests ++ [.compile markup])
        (c.compileBy templateOf markup).2 := by
  have hget := h.holds.get?_eq htell.recent
  cases ht : templateOf markup with
  | error fault =>
    have hnone : c.get? markup = none := by
      rw [hget, ht]
      exact ite_self none
    rw [compileBy_of_error hnone ht]
    refine ⟨rfl, h.capacity_eq, ?_⟩
    unfold Cache.recent
    rw [requested_of_error ht]
    exact h.holds
  | ok t =>
    rw [ht] at hget
    split at hget
    · rw [compileBy_of_kept hget]
      exact ⟨rfl, h.refresh htell ‹_› ht⟩
    · rw [compileBy_of_ok hget ht]
      exact ⟨rfl, h.add ‹_› ht⟩

/-- One request more is kept as the list of recent markups says. -/
theorem Keeping.step (h : Keeping templateOf capacity requests c) (r : Request)
    (htell : TellsApart ((requests ++ [r]).filterMap Request.markup?)) :
    Keeping templateOf capacity (requests ++ [r]) (c.step templateOf r) := by
  cases r with
  | compile markup => exact (h.compile htell.of_concat).2
  | get markup =>
    refine ⟨h.capacity_eq, ?_⟩
    unfold Cache.recent
    rw [requested_get]
    exact h.holds
  | clear =>
    refine ⟨h.capacity_eq, ?_⟩
    rw [recent_of_nil (requested_clear requests)]
    exact .nil

end

/-- After any requests, a cache holds what was asked for last. -/
theorem keeping_after (templateOf : String → Except Template.Fault Template) (capacity : Nat)
    (requests : List Request) (htell : TellsApart (requests.filterMap Request.markup?)) :
    Keeping templateOf capacity requests ((empty capacity).after templateOf requests) := by
  induction requests using List.reverseRecOn with
  | nil =>
    refine ⟨rfl, ?_⟩
    rw [recent_of_nil rfl]
    exact .nil
  | append_singleton earlier r ih =>
    unfold after
    rw [List.foldl_append]
    exact (ih htell.of_append).step r htell

end Cache

/-! ### Requests to a compiler -/

inductive Request
  | template (markup : String)
  | compile (definition : String) (data : NodeData) (store : NodeStore)
  | clear

/-- What a request asks of the cache: a definition without markup asks nothing. -/
def Request.ofCache? : Request → Option Cache.Request
  | .template markup => some (.compile markup)
  | .compile definition _ _ =>
    (Definition.Blocks.ofText definition).toOption.map fun blocks ↦ .compile blocks.markup
  | .clear => some .clear

/-- The compiler after a request, whatever it has answered. -/
def step (c : Compiler) : Request → Compiler
  | .template markup => left (template markup c)
  | .compile definition data store => left (compile definition data store c)
  | .clear => c.clear

def after (c : Compiler) (requests : List Request) : Compiler := requests.foldl step c

/-- Answers what compiling some markup gives. -/
def respond (result : Except Template.Fault Template) (c : Compiler) :
    EStateM.Result CompileError Compiler Template :=
  match result with
  | .ok t => .ok t c
  | .error fault => .error (.template fault) c

/-- A compiler answers with what its cache prepares. -/
theorem template_eq (markup : String) (c : Compiler) :
    template markup c = respond (c.prepare markup).1 (c.prepared markup) := by
  cases ht : (c.prepare markup).1 with
  | ok t => exact template_of_ok c ht
  | error fault => exact template_of_error c ht

theorem left_respond (result : Except Template.Fault Template) (c : Compiler) :
    left (respond result c) = c := by
  cases result <;> rfl

/-- A compiler with its settings whose cache, if these let it keep templates, holds what was asked
for last. -/
structure Serving (settings : Settings) (requests : List Cache.Request) (c : Compiler) : Prop where
  settings_eq : c.settings = settings
  keeping : settings.keepsTemplates = true →
    c.cache.Keeping Template.ofMarkup settings.cacheCapacity requests

namespace Serving

variable {settings : Settings} {requests : List Cache.Request} {c : Compiler}

theorem withHeap (h : Serving settings requests c) (heap : Heap) :
    Serving settings requests { c with heap := heap } := ⟨h.settings_eq, h.keeping⟩

/-- Whether kept or not, a template is what compiling the markup gives. -/
theorem prepare_eq (h : Serving settings requests c) {markup : String}
    (htell : settings.keepsTemplates = true →
      Cache.TellsApart (markup :: requests.filterMap Cache.Request.markup?)) :
    (c.prepare markup).1 = Template.ofMarkup markup :=
  Compiler.prepare_eq fun hkeeps ↦
    have hkeeps := h.settings_eq ▸ hkeeps
    ((h.keeping hkeeps).compile (htell hkeeps)).1

/-- The cache serves a request to compile. -/
theorem prepared (h : Serving settings requests c) {markup : String}
    (htell : settings.keepsTemplates = true →
      Cache.TellsApart (markup :: requests.filterMap Cache.Request.markup?)) :
    Serving settings (requests ++ [.compile markup]) (c.prepared markup) := by
  refine ⟨h.settings_eq, fun hkeeps ↦ ?_⟩
  unfold Compiler.prepared prepare
  rw [h.settings_eq, if_pos hkeeps]
  exact ((h.keeping hkeeps).compile (htell hkeeps)).2

/-- The cache serves a request to clear. -/
theorem clear (h : Serving settings requests c) :
    Serving settings (requests ++ [.clear]) c.clear := by
  refine ⟨h.settings_eq, fun hkeeps ↦ ⟨(h.keeping hkeeps).capacity_eq, ?_⟩⟩
  rw [Cache.recent_of_nil (Cache.requested_clear requests)]
  exact .nil

/-- The cache serves every request to its compiler. -/
theorem step (h : Serving settings requests c) (r : Request)
    (htell : settings.keepsTemplates = true →
      Cache.TellsApart ((requests ++ r.ofCache?.toList).filterMap Cache.Request.markup?)) :
    Serving settings (requests ++ r.ofCache?.toList) (c.step r) := by
  cases r with
  | template markup =>
    unfold Compiler.step
    dsimp only
    rw [template_eq, left_respond]
    exact h.prepared fun hkeeps ↦ Cache.TellsApart.of_concat (htell hkeeps)
  | compile definition data store =>
    unfold Compiler.step
    unfold Request.ofCache? at htell ⊢
    dsimp only at htell ⊢
    rcases left_compile_cases definition data store c with
      ⟨why, hblocks, hleft⟩ | ⟨blocks, heap, hblocks, hleft, -⟩ <;> rw [hblocks] at htell ⊢ <;>
      rw [hleft]
    · exact (List.append_nil requests).symm ▸ h
    · exact (h.prepared fun hkeeps ↦ Cache.TellsApart.of_concat (htell hkeeps)).withHeap heap
  | clear => exact h.clear

end Serving

/-- After any requests, a compiler keeps what was asked for last. -/
theorem serving_after (settings : Settings) (whitelist : Whitelist) (heap : Heap)
    (requests : List Request)
    (htell : settings.keepsTemplates = true → Cache.TellsApart
      ((requests.filterMap Request.ofCache?).filterMap Cache.Request.markup?)) :
    Serving settings (requests.filterMap Request.ofCache?)
      ((new settings whitelist heap).after requests) := by
  induction requests using List.reverseRecOn with
  | nil => exact ⟨rfl, fun _ ↦ Cache.keeping_after _ _ [] (by simp [Cache.TellsApart])⟩
  | append_singleton earlier r ih =>
    have hlast : (earlier ++ [r]).filterMap Request.ofCache? =
        earlier.filterMap Request.ofCache? ++ r.ofCache?.toList := by
      rw [List.filterMap_append]
      cases hr : r.ofCache? <;> simp [hr]
    unfold after
    rw [List.foldl_append, hlast]
    rw [hlast] at htell
    exact (ih fun hkeeps ↦ (htell hkeeps).of_append).step r htell

/-- After any requests, a cache holds the templates of what was asked for last and no more than it
has room for; it finds these and no others, and asking for a template gives what compiling the
markup gives. So a compiler answers with the same templates whether it keeps any, and however
many. -/
theorem cache_holds_recent :
    (∀ (templateOf : String → Except Template.Fault Template) (capacity : Nat)
      (requests : List Cache.Request), Cache.TellsApart (requests.filterMap Cache.Request.markup?) →
      ((Cache.empty capacity).after templateOf requests).Holds templateOf
          (Cache.recent templateOf capacity requests) ∧
        ((Cache.empty capacity).after templateOf requests).size ≤ capacity) ∧
    (∀ (templateOf : String → Except Template.Fault Template) (capacity : Nat)
      (requests : List Cache.Request) (markup : String),
      Cache.TellsApart (markup :: requests.filterMap Cache.Request.markup?) →
      ((Cache.empty capacity).after templateOf requests).get? markup =
          (if markup ∈ Cache.recent templateOf capacity requests then (templateOf markup).toOption
            else none) ∧
        (((Cache.empty capacity).after templateOf requests).compileBy templateOf markup).1 =
          templateOf markup) ∧
    (∀ (settings : Settings) (whitelist : Whitelist) (heap : Heap) (requests : List Request)
      (markup : String), (settings.keepsTemplates = true → Cache.TellsApart
        (markup :: (requests.filterMap Request.ofCache?).filterMap Cache.Request.markup?)) →
      ∃ c, template markup ((new settings whitelist heap).after requests) =
        respond (Template.ofMarkup markup) c) := by
  refine ⟨fun templateOf capacity requests htell ↦ ?_,
    fun templateOf capacity requests markup htell ↦ ?_,
    fun settings whitelist heap requests markup htell ↦ ?_⟩
  · have hkeeping := Cache.keeping_after templateOf capacity requests htell
    refine ⟨hkeeping.holds, ?_⟩
    rw [hkeeping.holds.length_eq]
    exact Cache.length_recent_le templateOf capacity requests
  · have hkeeping := Cache.keeping_after templateOf capacity requests
      (htell.mono (List.subset_cons_self _ _))
    exact ⟨hkeeping.holds.get?_eq htell.recent, (hkeeping.compile htell).1⟩
  · have hserving := serving_after settings whitelist heap requests
      fun hkeeps ↦ (htell hkeeps).mono (List.subset_cons_self _ _)
    exact ⟨_, (template_eq markup _).trans (by rw [hserving.prepare_eq htell])⟩

/-- Asks for three templates after clearing a cache; before the third, the first is asked for again,
some markup does not compile and the second is looked up. -/
def crowding : List Cache.Request :=
  [.compile "<i></i>", .clear, .compile "<a></a>", .compile "<b></b>", .compile "<a></a>",
    .compile "<p v-for>", .get "<b></b>", .compile "<u></u>"]

theorem keys_of_crowding :
    Cache.key "<b></b>" = "105f003a16d1f4e801c391bb27982233b3afcf99e5783553b3c7f140527c91a9" ∧
    Cache.key "<i></i>" = "663ddd7a0a8adf83c191605743fa3a973fc2677385fd902292b30113f258e37e" ∧
    Cache.key "<a></a>" = "a812a69ba6858a54cefdb2fc3882e7ceb7d66aa1ed792562082872dd6ed4f921" ∧
    Cache.key "<p v-for>" = "495ee6d3a1a6b135dece68026a6a621ee0f3dc5f7300d93545d0905e8775299c" ∧
    Cache.key "<u></u>" = "86620e226db49a09773ffc12d5748c804550fe0f66604f5fb43b5113fc10babb" := by
  -- A digest at a time: all of them in one evaluation take too much memory.
  refine ⟨?_, ?_, ?_, ?_, ?_⟩
  all_goals decide +kernel

/-- With room for two, it is the second that makes room for the third. -/
theorem cache_holds_last_two :
    Cache.TellsApart ("<b></b>" :: crowding.filterMap Cache.Request.markup?) ∧
      ((Cache.empty 2).after Template.ofMarkup crowding).Holds Template.ofMarkup
        ["<a></a>", "<u></u>"] ∧
      ((Cache.empty 2).after Template.ofMarkup crowding).get? "<b></b>" = none ∧
      ∃ c, template "<a></a>" ((new .standard .empty default).after [.template "<a></a>", .clear]) =
        respond (Template.ofMarkup "<a></a>") c := by
  have htell : Cache.TellsApart ("<b></b>" :: crowding.filterMap Cache.Request.markup?) := by
    change Cache.TellsApart ["<b></b>", "<i></i>", "<a></a>", "<b></b>", "<a></a>", "<p v-for>",
      "<b></b>", "<u></u>"]
    obtain ⟨hb, hi, ha, hp, hu⟩ := keys_of_crowding
    unfold Cache.TellsApart
    simp [hb, hi, ha, hp, hu]
  have hrecent : Cache.recent Template.ofMarkup 2 crowding = ["<a></a>", "<u></u>"] := by
    decide +kernel
  obtain ⟨hcache, hanswers, hcompiler⟩ := cache_holds_recent
  have hholds := (hcache Template.ofMarkup 2 crowding (htell.mono (List.subset_cons_self _ _))).1
  have hget := (hanswers Template.ofMarkup 2 crowding "<b></b>" htell).1
  rw [hrecent] at hholds hget
  exact ⟨htell, hholds, hget, hcompiler .standard .empty default _ _ fun _ ↦ by decide +kernel⟩

end Nodecraft.Compiler
