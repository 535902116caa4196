import Nodecraft.Proofs.Sandbox.Outcome
import Nodecraft.Proofs.Template.Elements
import Nodecraft.Proofs.View.Entries
import Nodecraft.Template.Render

/-!
# Views of templates

A view is read off its template tree by tree (`Shows`): branches are taken, loops run their bodies in
scopes of their own, and elements become nodes. A rendering gives such a view (`run_shows`). The ids
of the events in it are those of handlers that were bound for it, no two events have one id, and an
element's event is bound to the last handler that the element has for it, in the scope in which the
element was rendered (`Denotes`).
-/

set_option autoImplicit false

namespace Nodecraft.View.Node

mutual

/-- The ids of the events of a node and of everything in it. -/
def eventIds : Node → List Nat
  | text _ => []
  | element _ _ events children => events.map Prod.snd ++ eventIdsOf children
  | component _ _ events children => events.map Prod.snd ++ eventIdsOf children

def eventIdsOf : List Node → List Nat
  | [] => []
  | n :: rest => eventIds n ++ eventIdsOf rest

end

theorem eventIdsOf_append (nodes more : List Node) :
    eventIdsOf (nodes ++ more) = eventIdsOf nodes ++ eventIdsOf more := by
  induction nodes with
  | nil => rfl
  | cons n rest ih => simp only [List.cons_append, eventIdsOf, ih, List.append_assoc]

end Nodecraft.View.Node

namespace Nodecraft.Template

open Script Sandbox Sandbox.Action
open View.Node (eventIds eventIdsOf eventIdsOf_append)

/-! ### Views as a relation -/

/-- The node that an element becomes. -/
def elementNode (registered : Registered) (tag : String) (acc : Evaluated) (h : Heap)
    (events : List (String × Nat)) (children : List View.Node) : View.Node :=
  match componentOf? registered tag with
  | some name => .component name (acc.props h) events children
  | none => .element tag (acc.attributes h) events children

section

variable (m : Machine) (registered : Registered)
  (P : Element → ScopeId → List (String × Nat) → Prop)

mutual

/-- Nodes that show a tree in a scope, from one world to another. Of each element, its scope and the
events of its node holds `P`. -/
inductive Shows : ScopeId → Tree → World → List View.Node → World → Prop
  | text {s : ScopeId} {text : String} {w : World} : Shows s (.text text) w [.text text] w
  | interpolated {s : ScopeId} {parts : List TextPart} {text : String} {w w' : World} :
    interpolate m s parts w = .ok text w' → Shows s (.interpolated parts) w [.text text] w'
  | fragment {s : ScopeId} {children : List Tree} {nodes : List View.Node} {w w' : World} :
    ShowsAll s children w nodes w' → Shows s (.fragment children) w nodes w'
  | conditional {s : ScopeId} {branches : List Branch} {nodes : List View.Node} {w w' : World} :
    ShowsBranch s branches w nodes w' → Shows s (.conditional branches) w nodes w'
  | loop {s : ScopeId} {aliases : List Pattern} {source : Expr} {body : Tree} {v : Value}
      {rows : List (List Value)} {nodes : List View.Node} {w w₁ w₂ w' : World} :
    valueOf m s source w = .ok v w₁ → loopRows m v w₁ = .ok rows w₂ →
    ShowsRows s aliases body rows w₂ nodes w' → Shows s (.loop aliases source body) w nodes w'
  | element {s : ScopeId} {tag : String} {attributes : List Attribute}
      {events bound : List (String × Nat)} {visible : Option Expr} {children : List Tree}
      {acc acc' : Evaluated} {inner : List View.Node} {w w₁ w₂ w' : World} :
    evaluateAttributes m s ⟨[], [], []⟩ attributes w = .ok acc w₁ →
    addVisibility m s acc visible w₁ = .ok acc' w₂ → P ⟨tag, attributes, events, visible⟩ s bound →
    ShowsAll s children w₂ inner w' →
    Shows s (.element tag attributes events visible children) w
      [elementNode registered tag acc' w'.heap bound inner] w'

inductive ShowsAll : ScopeId → List Tree → World → List View.Node → World → Prop
  | nil {s : ScopeId} {w : World} : ShowsAll s [] w [] w
  | cons {s : ScopeId} {t : Tree} {rest : List Tree} {nodes more : List View.Node}
      {w w₁ w' : World} :
    Shows s t w nodes w₁ → ShowsAll s rest w₁ more w' → ShowsAll s (t :: rest) w (nodes ++ more) w'

/-- The first branch whose test holds is shown. -/
inductive ShowsBranch : ScopeId → List Branch → World → List View.Node → World → Prop
  | none {s : ScopeId} {w : World} : ShowsBranch s [] w [] w
  | otherwise {s : ScopeId} {t : Tree} {rest : List Branch} {nodes : List View.Node}
      {w w' : World} :
    Shows s t w nodes w' → ShowsBranch s (.branch none t :: rest) w nodes w'
  | taken {s : ScopeId} {test : Expr} {t : Tree} {rest : List Branch} {v : Value}
      {nodes : List View.Node} {w w₁ w' : World} :
    valueOf m s test w = .ok v w₁ → v.isTruthy = true → Shows s t w₁ nodes w' →
    ShowsBranch s (.branch (some test) t :: rest) w nodes w'
  | passed {s : ScopeId} {test : Expr} {t : Tree} {rest : List Branch} {v : Value}
      {nodes : List View.Node} {w w₁ w' : World} :
    valueOf m s test w = .ok v w₁ → v.isTruthy = false → ShowsBranch s rest w₁ nodes w' →
    ShowsBranch s (.branch (some test) t :: rest) w nodes w'

/-- Each row is shown in a scope of its own, in which the loop's names are bound. -/
inductive ShowsRows :
    ScopeId → List Pattern → Tree → List (List Value) → World → List View.Node → World → Prop
  | nil {s : ScopeId} {aliases : List Pattern} {body : Tree} {w : World} :
    ShowsRows s aliases body [] w [] w
  | cons {s inner : ScopeId} {aliases : List Pattern} {body : Tree} {values : List Value}
      {rest : List (List Value)} {nodes more : List View.Node} {w w₁ w₂ w₃ w' : World} :
    childScope s w = .ok inner w₁ → bindAliases m inner aliases values w₁ = .ok () w₂ →
    Shows inner body w₂ nodes w₃ → ShowsRows s aliases body rest w₃ more w' →
    ShowsRows s aliases body (values :: rest) w (nodes ++ more) w'

end

end

/-! ### Tables of bound handlers -/

/-- What a part of a rendering does to the table: handlers keep their ids, the events of what it shows
have ids of their own, handlers are bound only if there are such, and what it shows is so by any later
table. -/
structure Gives (hs hs' : Array BoundHandler) (ids : List Nat)
    (shown : Array BoundHandler → Prop) : Prop where
  keeps {id : Nat} {b : BoundHandler} : hs[id]? = some b → hs'[id]? = some b
  size_le : hs.size ≤ hs'.size
  nodup : ids.Nodup
  bounds : ∀ id ∈ ids, hs.size ≤ id ∧ id < hs'.size
  ne_nil : hs.size < hs'.size → ids ≠ []
  shows {later : Array BoundHandler} :
    (∀ (id : Nat) (b : BoundHandler), hs'[id]? = some b → later[id]? = some b) → shown later

namespace Gives

variable {hs hs₁ hs' : Array BoundHandler} {ids ids₁ : List Nat}
  {shown shown₁ : Array BoundHandler → Prop}

theorem nothing (h : ∀ later, shown later) : Gives hs hs [] shown where
  keeps hid := hid
  size_le := Nat.le_refl _
  nodup := .nil
  bounds _ hid := absurd hid List.not_mem_nil
  ne_nil hlt := absurd hlt (Nat.lt_irrefl _)
  shows _ := h _

/-- What two renderings in a row give. -/
theorem append (h : Gives hs hs₁ ids shown) (h₁ : Gives hs₁ hs' ids₁ shown₁) :
    Gives hs hs' (ids ++ ids₁) fun later ↦ shown later ∧ shown₁ later where
  keeps hid := h₁.keeps (h.keeps hid)
  size_le := Nat.le_trans h.size_le h₁.size_le
  nodup := by
    refine List.nodup_append.2 ⟨h.nodup, h₁.nodup, fun a ha b hb heq ↦ ?_⟩
    have hlt := Nat.lt_of_lt_of_le (h.bounds a ha).2 (h₁.bounds b hb).1
    exact Nat.lt_irrefl _ (heq ▸ hlt)
  bounds id hid := by
    rcases List.mem_append.1 hid with hid | hid
    · exact ⟨(h.bounds id hid).1, Nat.lt_of_lt_of_le (h.bounds id hid).2 h₁.size_le⟩
    · exact ⟨Nat.le_trans h.size_le (h₁.bounds id hid).1, (h₁.bounds id hid).2⟩
  ne_nil hlt hnil := by
    obtain ⟨hids, hids₁⟩ := List.append_eq_nil_iff.1 hnil
    have hle := Nat.not_lt.1 fun hlt ↦ h.ne_nil hlt hids
    have hle₁ := Nat.not_lt.1 fun hlt ↦ h₁.ne_nil hlt hids₁
    exact absurd hlt (Nat.not_lt.2 (Nat.le_trans hle₁ hle))
  shows hlater := ⟨h.shows fun id b hid ↦ hlater id b (h₁.keeps hid), h₁.shows hlater⟩

theorem imp (h : Gives hs hs' ids shown) (himp : ∀ later, shown later → shown₁ later) :
    Gives hs hs' ids shown₁ :=
  ⟨h.keeps, h.size_le, h.nodup, h.bounds, h.ne_nil, fun hlater ↦ himp _ (h.shows hlater)⟩

end Gives

/-! ### Events -/

/-- Under each name that an element has a handler for, and under no other, its node has the id of the
last such handler, bound to the element's scope. -/
structure Denotes (bound : Array BoundHandler) (e : Element) (s : ScopeId)
    (ids : List (String × Nat)) : Prop where
  sorted : ids.Pairwise fun a b ↦ a.1 < b.1
  lookup (name : String) :
    Option.Rel (fun handler id ↦ bound[id]? = some ⟨handler, s⟩) (e.events.reverse.lookup name)
      (ids.lookup name)

/-- Events with ids from a number on. -/
def numbered : Nat → List (String × Nat) → List (String × Nat)
  | _, [] => []
  | next, (name, _) :: rest => (name, next) :: numbered (next + 1) rest

/-- The table behind handlers in a scope. -/
def withBound (s : ScopeId) (events : List (String × Nat)) (hs : Array BoundHandler) :
    Array BoundHandler :=
  hs ++ (events.map fun e ↦ (⟨e.2, s⟩ : BoundHandler)).toArray

section

variable (s : ScopeId)

/-- Events are numbered from the next free number on. -/
theorem bounds_numbered (events : List (String × Nat)) : ∀ next : Nat,
    ∀ e ∈ numbered next events, next ≤ e.2 ∧ e.2 < next + events.length := by
  induction events with
  | nil => exact fun _ _ he ↦ absurd he List.not_mem_nil
  | cons event rest ih =>
    intro next e he
    rw [List.length_cons]
    rcases List.mem_cons.1 he with rfl | he
    · exact ⟨Nat.le_refl _, by dsimp only; omega⟩
    · have hbounds := ih (next + 1) e he
      omega

/-- An id stands under one name only. -/
theorem eq_of_mem_numbered (events : List (String × Nat)) : ∀ {next : Nat} {a b : String × Nat},
    a ∈ numbered next events → b ∈ numbered next events → a.2 = b.2 → a = b := by
  induction events with
  | nil => exact fun ha ↦ absurd ha List.not_mem_nil
  | cons event rest ih =>
    intro next a b ha hb heq
    rcases List.mem_cons.1 ha with rfl | ha
    · rcases List.mem_cons.1 hb with rfl | hb
      · rfl
      · have hge := (bounds_numbered rest (next + 1) b hb).1
        dsimp only at heq
        omega
    · rcases List.mem_cons.1 hb with rfl | hb
      · have hge := (bounds_numbered rest (next + 1) a ha).1
        dsimp only at heq
        omega
      · exact ih ha hb heq

theorem withBound_cons (event : String × Nat) (rest : List (String × Nat))
    (hs : Array BoundHandler) :
    withBound s rest (hs.push ⟨event.2, s⟩) = withBound s (event :: rest) hs := by
  apply Array.toList_inj.1
  simp [withBound]

/-- As many handlers are bound as there are events. -/
theorem size_withBound (events : List (String × Nat)) (hs : Array BoundHandler) :
    (withBound s events hs).size = hs.size + events.length := by
  simp [withBound]

/-- Each event is bound under its number. -/
theorem forall₂_numbered (events : List (String × Nat)) : ∀ hs : Array BoundHandler,
    List.Forall₂ (fun event e ↦ event.1 = e.1 ∧ (withBound s events hs)[e.2]? = some ⟨event.2, s⟩)
      events (numbered hs.size events) := by
  induction events with
  | nil => exact fun _ ↦ .nil
  | cons event rest ih =>
    intro hs
    have hrest := ih (hs.push ⟨event.2, s⟩)
    rw [Array.size_push, withBound_cons] at hrest
    refine .cons ⟨rfl, ?_⟩ hrest
    dsimp only
    unfold withBound
    rw [Array.getElem?_append_right (Nat.le_refl _), Nat.sub_self]
    rfl

end

/-- Entries related one by one are looked up alike. -/
theorem rel_lookup {α β : Type} {R : α → β → Prop} {l : List (String × α)} {l' : List (String × β)}
    (h : List.Forall₂ (fun a b ↦ a.1 = b.1 ∧ R a.2 b.2) l l') (name : String) :
    Option.Rel R (l.lookup name) (l'.lookup name) := by
  induction h with
  | nil => exact .none
  | @cons a b rest rest' hab _ ih =>
    obtain ⟨k, x⟩ := a
    obtain ⟨k', y⟩ := b
    obtain ⟨rfl, hxy⟩ := hab
    rw [List.lookup_cons, List.lookup_cons]
    cases name == k with
    | true => exact .some hxy
    | false => exact ih

/-- Entries set one after another, each over what was under its name. -/
theorem lookup_foldl_setSorted {α : Type} (added : List (String × α)) (name : String) :
    ∀ {entries : List (String × α)}, entries.Pairwise (fun a b ↦ a.1 < b.1) →
      (added.foldl (fun acc e ↦ setSorted acc e.1 e.2) entries).lookup name =
        (added.reverse.lookup name).or (entries.lookup name) := by
  induction added with
  | nil => exact fun _ ↦ rfl
  | cons e rest ih =>
    intro entries hsorted
    have hset : (setSorted entries e.1 e.2).Pairwise fun a b ↦ a.1 < b.1 :=
      Json.pairwise_sortFields _
    rw [List.foldl_cons, ih hset, Json.lookup_reverse_cons]
    unfold setSorted
    rw [Json.lookup_sortFields, List.reverse_append, List.reverse_singleton, List.singleton_append,
      ← Json.lookup_reverse_of_pairwise hsorted, Option.or_assoc]
    obtain ⟨k, a⟩ := e
    rw [List.lookup_cons]
    by_cases hname : name = k
    · rw [hname, BEq.rfl, if_pos rfl]
      rfl
    · rw [beq_false_of_ne hname, if_neg hname]
      rfl

/-- Entries stay sorted by name. -/
theorem pairwise_foldl_setSorted {α : Type} (added : List (String × α)) :
    ∀ {entries : List (String × α)}, entries.Pairwise (fun a b ↦ a.1 < b.1) →
      (added.foldl (fun acc e ↦ setSorted acc e.1 e.2) entries).Pairwise fun a b ↦ a.1 < b.1 := by
  induction added with
  | nil => exact fun hsorted ↦ hsorted
  | cons e rest ih => exact fun _ ↦ ih (Json.pairwise_sortFields _)

/-- No entry is made up. -/
theorem mem_foldl_setSorted {α : Type} (added : List (String × α)) :
    ∀ {entries : List (String × α)}, ∀ e ∈ added.foldl (fun acc e ↦ setSorted acc e.1 e.2) entries,
      e ∈ added ∨ e ∈ entries := by
  induction added with
  | nil => exact fun _ he ↦ .inr he
  | cons head rest ih =>
    intro entries e he
    rcases ih e he with he | he
    · exact .inl (List.mem_cons_of_mem _ he)
    · rcases List.mem_append.1 (Json.mem_of_mem_sortFields (entries ++ [_]) e he) with he | he
      · exact .inr he
      · exact .inl (List.mem_cons.2 (.inl (List.mem_singleton.1 he)))

/-- Binding events numbers them, and of several of one name the last is kept. -/
theorem bindEvents_eq (s : ScopeId) (events : List (String × Nat)) :
    ∀ (acc : List (String × Nat)) (hs : Array BoundHandler),
      bindEvents s acc events hs =
        pure ((numbered hs.size events).foldl (fun acc e ↦ setSorted acc e.1 e.2) acc,
          withBound s events hs) := by
  induction events with
  | nil =>
    intro acc hs
    have hnil : withBound s [] hs = hs := by simp [withBound]
    rw [hnil]
    rfl
  | cons event rest ih =>
    intro acc hs
    obtain ⟨name, handler⟩ := event
    change bindEvents s (setSorted acc name hs.size) rest (hs.push ⟨handler, s⟩) = _
    rw [ih, Array.size_push, withBound_cons s (name, handler)]
    rfl

/-- Binding an element's events gives each name the id of its last handler. -/
theorem bindEvents_gives (s : ScopeId) {e : Element} {ids : List (String × Nat)}
    {hs hs' : Array BoundHandler} {w w' : World}
    (h : bindEvents s [] e.events hs w = .ok (ids, hs') w') :
    w' = w ∧ Gives hs hs' (ids.map Prod.snd) fun later ↦ Denotes later e s ids := by
  rw [bindEvents_eq] at h
  cases h
  have hmem : ∀ a ∈ (numbered hs.size e.events).foldl (fun acc e ↦ setSorted acc e.1 e.2) [],
      a ∈ numbered hs.size e.events := by
    intro a ha
    rcases mem_foldl_setSorted _ a ha with ha | ha
    · exact ha
    · exact absurd ha List.not_mem_nil
  have hsorted := pairwise_foldl_setSorted (numbered hs.size e.events) .nil
  refine ⟨rfl, ?_, ?_, ?_, ?_, ?_, ?_⟩
  · intro id b hid
    obtain ⟨hlt, -⟩ := Array.getElem?_eq_some_iff.1 hid
    unfold withBound
    rw [Array.getElem?_append_left hlt]
    exact hid
  · rw [size_withBound]
    exact Nat.le_add_right _ _
  · refine List.pairwise_map.2 (hsorted.imp_of_mem fun ha hb hlt heq ↦ ?_)
    have hsame := eq_of_mem_numbered e.events (hmem _ ha) (hmem _ hb) heq
    rw [hsame] at hlt
    exact String.lt_irrefl _ hlt
  · intro id hid
    obtain ⟨a, ha, rfl⟩ := List.mem_map.1 hid
    rw [size_withBound]
    exact bounds_numbered e.events hs.size a (hmem a ha)
  · intro hlt hnil
    rw [size_withBound] at hlt
    cases hevents : e.events with
    | nil =>
      rw [hevents] at hlt
      exact Nat.lt_irrefl _ hlt
    | cons event rest =>
      have hlookup := lookup_foldl_setSorted (numbered hs.size e.events) event.1 .nil
      rw [List.map_eq_nil_iff.1 hnil, hevents, numbered, Json.lookup_reverse_cons, if_pos rfl,
        List.lookup_nil, Option.or_none] at hlookup
      cases hrest : (numbered (hs.size + 1) rest).reverse.lookup event.1 with
      | none =>
        rw [hrest] at hlookup
        cases hlookup
      | some id =>
        rw [hrest] at hlookup
        cases hlookup
  · intro later hlater
    refine ⟨hsorted, fun name ↦ ?_⟩
    rw [lookup_foldl_setSorted _ name .nil, List.lookup_nil, Option.or_none]
    refine rel_lookup ?_ name
    exact (List.rel_reverse (forall₂_numbered s e.events hs)).imp fun a b hab ↦
      ⟨hab.1, hlater _ _ hab.2⟩

/-! ### Renderings -/

section

variable {α β : Type} {hs hs' : Array BoundHandler} {w w' : World}

/-- What is rendered in two parts. -/
theorem rendering_bind_eq_ok {x : Rendering α} {f : α → Rendering β} {b : β}
    (h : (x >>= f) hs w = .ok (b, hs') w') :
    ∃ a hs₁ w₁, x hs w = .ok (a, hs₁) w₁ ∧ f a hs₁ w₁ = .ok (b, hs') w' := by
  obtain ⟨p, w₁, hx, hrest⟩ := bind_eq_ok (x := x hs) (f := fun p ↦ f p.1 p.2) h
  exact ⟨p.1, p.2, w₁, hx, hrest⟩

theorem rendering_lift_eq_ok {x : Action α} {a : α}
    (h : (liftM x : Rendering α) hs w = .ok (a, hs') w') : x w = .ok a w' ∧ hs' = hs := by
  obtain ⟨b, w₁, hx, hrest⟩ := bind_eq_ok (x := x) (f := fun a ↦ pure (a, hs)) h
  cases hrest
  exact ⟨hx, rfl⟩

theorem rendering_pure_eq_ok {a b : α}
    (h : (pure a : Rendering α) hs w = .ok (b, hs') w') : b = a ∧ hs' = hs ∧ w' = w := by
  cases h
  exact ⟨rfl, rfl, rfl⟩

end

theorem eventIdsOf_elementNode (registered : Registered) (tag : String) (acc : Evaluated) (h : Heap)
    (ids : List (String × Nat)) (children : List View.Node) :
    eventIdsOf [elementNode registered tag acc h ids children] =
      ids.map Prod.snd ++ eventIdsOf children := by
  unfold elementNode
  cases componentOf? registered tag with
  | some name => simp only [eventIdsOf, eventIds, List.append_nil]
  | none => simp only [eventIdsOf, eventIds, List.append_nil]

section

variable {m : Machine} {registered : Registered}

theorem renderRows_gives {aliases : List Pattern} {body : Tree}
    (hbody : ∀ {s : ScopeId} {nodes : List View.Node} {hs hs' : Array BoundHandler} {w w' : World},
      render m registered s body hs w = .ok (nodes, hs') w' →
      Gives hs hs' (eventIdsOf nodes) fun later ↦
        Shows m registered (Denotes later) s body w nodes w')
    {s : ScopeId} (rows : List (List Value)) :
    ∀ {nodes : List View.Node} {hs hs' : Array BoundHandler} {w w' : World},
      renderRows m aliases (fun inner ↦ render m registered inner body) s rows hs w =
        .ok (nodes, hs') w' →
      Gives hs hs' (eventIdsOf nodes) fun later ↦
        ShowsRows m registered (Denotes later) s aliases body rows w nodes w' := by
  induction rows with
  | nil =>
    intro nodes hs hs' w w' h
    obtain ⟨rfl, rfl, rfl⟩ := rendering_pure_eq_ok h
    exact .nothing fun _ ↦ .nil
  | cons values rest ih =>
    intro nodes hs hs' w w' h
    obtain ⟨inner, hs₁, w₁, hlift, h₁⟩ := rendering_bind_eq_ok h
    obtain ⟨hscope, rfl⟩ := rendering_lift_eq_ok hlift
    obtain ⟨⟨⟩, hs₂, w₂, hlift, h₂⟩ := rendering_bind_eq_ok h₁
    obtain ⟨hbind, rfl⟩ := rendering_lift_eq_ok hlift
    obtain ⟨first, hs₃, w₃, hfirst, h₃⟩ := rendering_bind_eq_ok h₂
    obtain ⟨more, hs₄, w₄, hmore, h₄⟩ := rendering_bind_eq_ok h₃
    obtain ⟨rfl, rfl, rfl⟩ := rendering_pure_eq_ok h₄
    rw [eventIdsOf_append]
    exact ((hbody hfirst).append (ih hmore)).imp fun later hshown ↦
      .cons hscope hbind hshown.1 hshown.2

variable (registered)

mutual

/-- Rendering a tree gives nodes that show it. -/
theorem render_gives {s : ScopeId} {nodes : List View.Node} {hs hs' : Array BoundHandler}
    {w w' : World} : ∀ {t : Tree}, render m registered s t hs w = .ok (nodes, hs') w' →
      Gives hs hs' (eventIdsOf nodes) fun later ↦ Shows m registered (Denotes later) s t w nodes w'
  | .text text, h => by
    unfold render at h
    obtain ⟨rfl, rfl, rfl⟩ := rendering_pure_eq_ok h
    exact .nothing fun _ ↦ .text
  | .interpolated parts, h => by
    unfold render at h
    obtain ⟨shown, hs₁, w₁, hlift, hrest⟩ := rendering_bind_eq_ok h
    obtain ⟨hshown, rfl⟩ := rendering_lift_eq_ok hlift
    obtain ⟨rfl, rfl, rfl⟩ := rendering_pure_eq_ok hrest
    exact .nothing fun _ ↦ .interpolated hshown
  | .fragment children, h => by
    unfold render at h
    exact (renderAll_gives h).imp fun _ hshown ↦ .fragment hshown
  | .conditional branches, h => by
    unfold render at h
    exact (renderBranches_gives h).imp fun _ hshown ↦ .conditional hshown
  | .loop aliases source body, h => by
    unfold render at h
    obtain ⟨v, hs₁, w₁, hlift, h₁⟩ := rendering_bind_eq_ok h
    obtain ⟨hvalue, rfl⟩ := rendering_lift_eq_ok hlift
    obtain ⟨rows, hs₂, w₂, hlift, h₂⟩ := rendering_bind_eq_ok h₁
    obtain ⟨hrows, rfl⟩ := rendering_lift_eq_ok hlift
    exact (renderRows_gives (fun hbody ↦ render_gives hbody) rows h₂).imp
      fun _ hshown ↦ .loop hvalue hrows hshown
  | .element tag attributes events visible children, h => by
    unfold render at h
    obtain ⟨acc, hs₁, w₁, hlift, h₁⟩ := rendering_bind_eq_ok h
    obtain ⟨hattributes, rfl⟩ := rendering_lift_eq_ok hlift
    obtain ⟨acc', hs₂, w₂, hlift, h₂⟩ := rendering_bind_eq_ok h₁
    obtain ⟨hvisible, rfl⟩ := rendering_lift_eq_ok hlift
    obtain ⟨ids, hs₃, w₃, hevents, h₃⟩ := rendering_bind_eq_ok h₂
    obtain ⟨rfl, hbound⟩ := bindEvents_gives s (e := ⟨tag, attributes, events, visible⟩) hevents
    obtain ⟨inner, hs₄, w₄, hinner, h₄⟩ := rendering_bind_eq_ok h₃
    obtain ⟨heap, hs₅, w₅, hlift, h₅⟩ := rendering_bind_eq_ok h₄
    obtain ⟨hheap, rfl⟩ := rendering_lift_eq_ok hlift
    cases hheap
    have hnode : (pure [elementNode registered tag acc' w₄.heap ids inner] :
        Rendering (List View.Node)) hs₅ w₄ = .ok (nodes, hs') w' := by
      unfold elementNode
      cases hname : componentOf? registered tag with
      | some name =>
        rw [hname] at h₅
        exact h₅
      | none =>
        rw [hname] at h₅
        exact h₅
    obtain ⟨rfl, rfl, rfl⟩ := rendering_pure_eq_ok hnode
    rw [eventIdsOf_elementNode]
    exact (hbound.append (renderAll_gives hinner)).imp fun later hshown ↦
      .element hattributes hvisible hshown.1 hshown.2

/-- What is rendered shows the trees, and its numbers denote the handlers bound meanwhile. -/
theorem renderAll_gives {s : ScopeId} {nodes : List View.Node} {hs hs' : Array BoundHandler}
    {w w' : World} : ∀ {trees : List Tree},
      renderAll m registered s trees hs w = .ok (nodes, hs') w' →
      Gives hs hs' (eventIdsOf nodes) fun later ↦
        ShowsAll m registered (Denotes later) s trees w nodes w'
  | [], h => by
    unfold renderAll at h
    obtain ⟨rfl, rfl, rfl⟩ := rendering_pure_eq_ok h
    exact .nothing fun _ ↦ .nil
  | t :: rest, h => by
    unfold renderAll at h
    obtain ⟨first, hs₁, w₁, hfirst, h₁⟩ := rendering_bind_eq_ok h
    obtain ⟨more, hs₂, w₂, hmore, h₂⟩ := rendering_bind_eq_ok h₁
    obtain ⟨rfl, rfl, rfl⟩ := rendering_pure_eq_ok h₂
    rw [eventIdsOf_append]
    exact ((render_gives hfirst).append (renderAll_gives hmore)).imp fun _ hshown ↦
      .cons hshown.1 hshown.2

theorem renderBranches_gives {s : ScopeId} {nodes : List View.Node}
    {hs hs' : Array BoundHandler} {w w' : World} : ∀ {branches : List Branch},
      renderBranches m registered s branches hs w = .ok (nodes, hs') w' →
      Gives hs hs' (eventIdsOf nodes) fun later ↦
        ShowsBranch m registered (Denotes later) s branches w nodes w'
  | [], h => by
    unfold renderBranches at h
    obtain ⟨rfl, rfl, rfl⟩ := rendering_pure_eq_ok h
    exact .nothing fun _ ↦ .none
  | .branch none t :: rest, h => by
    unfold renderBranches at h
    exact (render_gives h).imp fun _ hshown ↦ .otherwise hshown
  | .branch (some test) t :: rest, h => by
    unfold renderBranches at h
    obtain ⟨v, hs₁, w₁, hlift, hrest⟩ := rendering_bind_eq_ok h
    obtain ⟨hvalue, rfl⟩ := rendering_lift_eq_ok hlift
    cases hv : v.isTruthy with
    | true =>
      rw [hv, if_pos rfl] at hrest
      exact (render_gives hrest).imp fun _ hshown ↦ .taken hvalue hv hshown
    | false =>
      rw [hv, if_neg Bool.false_ne_true] at hrest
      exact (renderBranches_gives hrest).imp fun _ hshown ↦ .passed hvalue hv hshown

end

end

/-- A view of a state, with the handlers of its events. -/
structure IsView (m : Machine) (registered : Registered) (t : Template) (state : Value) (w : World)
    (output : Output) (w' : World) : Prop where
  nodup : (eventIdsOf output.nodes).Nodup
  lt_size : ∀ id ∈ eventIdsOf output.nodes, id < output.handlers.size
  ne_nil : 0 < output.handlers.size → eventIdsOf output.nodes ≠ []
  shows : ∃ s w₁, stateScope state w = .ok s w₁ ∧
    ShowsAll m registered (Denotes output.handlers) s t.roots w₁ output.nodes w'

/-- Rendering a template gives a view of the state. -/
theorem isView_of_runOn {m : Machine} {registered : Registered} {t : Template} {state : Value}
    {w w' : World} {output : Output} (h : t.runOn m registered state w = .ok output w') :
    IsView m registered t state w output w' := by
  obtain ⟨s, w₁, hscope, hrest⟩ := bind_eq_ok h
  obtain ⟨p, w₂, hrender, hdone⟩ := bind_eq_ok hrest
  obtain ⟨nodes, handlers⟩ := p
  cases hdone
  have hrender : renderAll m registered s t.roots #[] w₁ = .ok (nodes, handlers) w' := hrender
  have hgives := renderAll_gives registered hrender
  exact ⟨hgives.nodup, fun id hid ↦ (hgives.bounds id hid).2, hgives.ne_nil, s, w₁, hscope,
    hgives.shows fun _ _ hid ↦ hid⟩

/-! ### What holds of all elements of a view -/

section

variable {m : Machine} {registered : Registered}
  {P Q : Element → ScopeId → List (String × Nat) → Prop}

mutual

/-- What follows from `P` for the elements of a tree holds of their nodes. -/
theorem Shows.imp {s : ScopeId} {t : Tree} {w w' : World} {nodes : List View.Node} :
    Shows m registered P s t w nodes w' →
      (∀ e ∈ t.elements, ∀ s ids, P e s ids → Q e s ids) → Shows m registered Q s t w nodes w'
  | .text, _ => .text
  | .interpolated htext, _ => .interpolated htext
  | .fragment hall, himp => .fragment (hall.imp (by simpa only [Tree.elements] using himp))
  | .conditional hbranch, himp =>
    .conditional (hbranch.imp (by simpa only [Tree.elements] using himp))
  | .loop hvalue hrows hall, himp =>
    .loop hvalue hrows (hall.imp (by simpa only [Tree.elements] using himp))
  | .element hattributes hvisible hP hall, himp => by
    simp only [Tree.elements, List.forall_mem_cons] at himp
    exact .element hattributes hvisible (himp.1 _ _ hP) (hall.imp himp.2)

/-- What holds of all elements shown may be weakened. -/
theorem ShowsAll.imp {s : ScopeId} {trees : List Tree} {w w' : World} {nodes : List View.Node} :
    ShowsAll m registered P s trees w nodes w' →
      (∀ e ∈ elementsOf trees, ∀ s ids, P e s ids → Q e s ids) →
      ShowsAll m registered Q s trees w nodes w'
  | .nil, _ => .nil
  | .cons hfirst hrest, himp => by
    simp only [elementsOf, List.forall_mem_append] at himp
    exact .cons (hfirst.imp himp.1) (hrest.imp himp.2)

theorem ShowsBranch.imp {s : ScopeId} {branches : List Branch} {w w' : World}
    {nodes : List View.Node} :
    ShowsBranch m registered P s branches w nodes w' →
      (∀ e ∈ elementsOfBranches branches, ∀ s ids, P e s ids → Q e s ids) →
      ShowsBranch m registered Q s branches w nodes w'
  | .none, _ => .none
  | .otherwise hall, himp => by
    simp only [elementsOfBranches, List.forall_mem_append] at himp
    exact .otherwise (hall.imp himp.1)
  | .taken hvalue htruthy hall, himp => by
    simp only [elementsOfBranches, List.forall_mem_append] at himp
    exact .taken hvalue htruthy (hall.imp himp.1)
  | .passed hvalue htruthy hrest, himp => by
    simp only [elementsOfBranches, List.forall_mem_append] at himp
    exact .passed hvalue htruthy (hrest.imp himp.2)

theorem ShowsRows.imp {s : ScopeId} {aliases : List Pattern} {body : Tree}
    {rows : List (List Value)} {w w' : World} {nodes : List View.Node} :
    ShowsRows m registered P s aliases body rows w nodes w' →
      (∀ e ∈ body.elements, ∀ s ids, P e s ids → Q e s ids) →
      ShowsRows m registered Q s aliases body rows w nodes w'
  | .nil, _ => .nil
  | .cons hscope hbind hfirst hrest, himp =>
    .cons hscope hbind (hfirst.imp himp) (hrest.imp himp)

end

mutual

/-- The ids in what shows a tree are those of its elements' events. -/
theorem Shows.exists_element {s : ScopeId} {t : Tree} {w w' : World} {nodes : List View.Node} {id : Nat} :
    Shows m registered P s t w nodes w' → id ∈ eventIdsOf nodes →
      ∃ e ∈ t.elements, ∃ s ids name, P e s ids ∧ (name, id) ∈ ids
  | .text, hid => absurd hid (by simp only [eventIdsOf, eventIds]; exact List.not_mem_nil)
  | .interpolated _, hid => absurd hid (by simp only [eventIdsOf, eventIds]; exact List.not_mem_nil)
  | .fragment hall, hid => by
    simp only [Tree.elements]
    exact hall.exists_element hid
  | .conditional hbranch, hid => by
    simp only [Tree.elements]
    exact hbranch.exists_element hid
  | .loop _ _ hall, hid => by
    simp only [Tree.elements]
    exact hall.exists_element hid
  | .element _ _ hP hall, hid => by
    rw [eventIdsOf_elementNode] at hid
    simp only [Tree.elements, List.exists_mem_cons_iff]
    rcases List.mem_append.1 hid with hid | hid
    · obtain ⟨⟨name, id⟩, hmem, rfl⟩ := List.mem_map.1 hid
      exact .inl ⟨_, _, name, hP, hmem⟩
    · exact .inr (hall.exists_element hid)

/-- Every number in a view belongs to an event of some element. -/
theorem ShowsAll.exists_element {s : ScopeId} {trees : List Tree} {w w' : World}
    {nodes : List View.Node} {id : Nat} :
    ShowsAll m registered P s trees w nodes w' → id ∈ eventIdsOf nodes →
      ∃ e ∈ elementsOf trees, ∃ s ids name, P e s ids ∧ (name, id) ∈ ids
  | .nil, hid => absurd hid List.not_mem_nil
  | .cons hfirst hrest, hid => by
    rw [eventIdsOf_append] at hid
    simp only [elementsOf, List.mem_append, or_and_right, exists_or]
    exact (List.mem_append.1 hid).imp hfirst.exists_element hrest.exists_element

theorem ShowsBranch.exists_element {s : ScopeId} {branches : List Branch} {w w' : World}
    {nodes : List View.Node} {id : Nat} :
    ShowsBranch m registered P s branches w nodes w' → id ∈ eventIdsOf nodes →
      ∃ e ∈ elementsOfBranches branches, ∃ s ids name, P e s ids ∧ (name, id) ∈ ids
  | .none, hid => absurd hid List.not_mem_nil
  | .otherwise hall, hid => by
    simp only [elementsOfBranches, List.mem_append, or_and_right, exists_or]
    exact .inl (hall.exists_element hid)
  | .taken _ _ hall, hid => by
    simp only [elementsOfBranches, List.mem_append, or_and_right, exists_or]
    exact .inl (hall.exists_element hid)
  | .passed _ _ hrest, hid => by
    simp only [elementsOfBranches, List.mem_append, or_and_right, exists_or]
    exact .inr (hrest.exists_element hid)

theorem ShowsRows.exists_element {s : ScopeId} {aliases : List Pattern} {body : Tree}
    {rows : List (List Value)} {w w' : World} {nodes : List View.Node} {id : Nat} :
    ShowsRows m registered P s aliases body rows w nodes w' → id ∈ eventIdsOf nodes →
      ∃ e ∈ body.elements, ∃ s ids name, P e s ids ∧ (name, id) ∈ ids
  | .nil, hid => absurd hid List.not_mem_nil
  | .cons _ _ hfirst hrest, hid => by
    rw [eventIdsOf_append] at hid
    rcases List.mem_append.1 hid with hid | hid
    · exact hfirst.exists_element hid
    · exact hrest.exists_element hid

end

end

end Nodecraft.Template
