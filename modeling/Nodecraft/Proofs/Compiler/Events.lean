import Nodecraft.Proofs.Compiler.History
import Nodecraft.Proofs.Component.Watchers
import Nodecraft.Proofs.Template.Views

/-!
# Events of views

An event of the latest view of an instance goes to a handler that was compiled from a directive of
the very element that the event stands on, in the scope in which the element was rendered, until the
instance is unmounted (`Host.events_reach_handlers`). Several directives of an element may be for one
event; of those the view carries the last one (`Template.events_carry_last_directive`).
-/

set_option autoImplicit false

namespace Nodecraft

open Sandbox

namespace Template

open Sandbox.Action

/-! ### Events and directives of an element -/

/-- The start tag that an element of a template stems from. -/
def IsTagOf (markup : String) (t : Template) (tag : StartTag) (e : Element) : Prop :=
  (tag, e) ∈ ((startTagsIn markup).filter StartTag.isElement).zip (elementsOf t.roots)

/-- An entry whose name stands once is what is looked up under it. -/
theorem lookup_of_mem {ids : List (String × Nat)} (h : ids.Pairwise fun a b ↦ a.1 < b.1)
    {event : String} {id : Nat} (hmem : (event, id) ∈ ids) : ids.lookup event = some id := by
  obtain ⟨before, after, rfl⟩ := List.append_of_mem hmem
  refine List.lookup_eq_some_iff.2 ⟨before, after, rfl, fun other hother ↦ bne_iff_ne.2 fun heq ↦ ?_⟩
  have hlt := (List.pairwise_append.1 h).2.2 other hother _ List.mem_cons_self
  exact String.lt_irrefl _ (heq ▸ hlt)

/-- The directives of a tag are compiled one by one. -/
theorem compiled_of_isTagOf {markup : String} {t : Template} (ht : ofMarkup markup = .ok t)
    {tag : StartTag} {e : Element} (h : IsTagOf markup t tag e) :
    List.Forall₂ (Compiled t.handlers) tag.directives e.events :=
  ((List.forall₂_iff_zip.1 (ofMarkup_stems ht).forall₂).2 h).2

/-- Every element of a template has a start tag. -/
theorem exists_isTagOf {markup : String} {t : Template} (ht : ofMarkup markup = .ok t)
    {e : Element} (he : e ∈ elementsOf t.roots) : ∃ tag, IsTagOf markup t tag e := by
  have hlength := (ofMarkup_stems ht).forall₂.length_eq
  obtain ⟨k, hk, rfl⟩ := List.getElem_of_mem he
  refine ⟨((startTagsIn markup).filter StartTag.isElement)[k], ?_⟩
  refine List.mem_of_getElem (i := k) (h := ?_) ?_
  · rw [List.length_zip, hlength, Nat.min_self]
    exact hk
  · exact List.getElem_zip

/-- The first directive of an event and the first entry of it belong together. -/
theorem rel_find? {R : EventDirective → Nat → Prop} {directives : List EventDirective}
    {events : List (String × Nat)} (event : String)
    (h : List.Forall₂ (fun d e ↦ e.1 = d.event ∧ R d e.2) directives events) :
    Option.Rel R (directives.find? fun d ↦ d.event == event) (events.lookup event) := by
  induction h with
  | nil => exact .none
  | @cons d e _ _ hde _ ih =>
    obtain ⟨k, number⟩ := e
    obtain ⟨rfl, hR⟩ := hde
    rw [List.find?_cons, List.lookup_cons, Bool.beq_comm]
    cases event == d.event with
    | true => exact .some hR
    | false => exact ih

/-- Each directive of a tag has a number in the template, and its event an id in the node; the id is
that of the directive exactly if no later directive is for the event. -/
def CarriesLast (t : Template) (bound : Array BoundHandler) (tag : StartTag) (e : Element)
    (s : ScopeId) (ids : List (String × Nat)) : Prop :=
  ∀ before d after, tag.directives = before ++ d :: after →
    ∃ number h id, e.events[before.length]? = some (d.event, number) ∧
      handler d.source d.directive = .ok h ∧ t.handlers[number]? = some h ∧ (d.event, id) ∈ ids ∧
      (bound[id]? = some ⟨number, s⟩ ↔ ∀ other ∈ after, other.event ≠ d.event)

/-- What is related one by one can be split alike. -/
theorem forall₂_split {α β : Type} {R : α → β → Prop} {before after : List α} {a : α} :
    ∀ {l : List β}, List.Forall₂ R (before ++ a :: after) l →
      ∃ before' b after', l = before' ++ b :: after' ∧ before'.length = before.length ∧ R a b ∧
        List.Forall₂ R after after' := by
  induction before with
  | nil =>
    intro l h
    obtain ⟨b, after', hab, hafter, rfl⟩ := List.forall₂_cons_left_iff.1 h
    exact ⟨[], b, after', rfl, rfl, hab, hafter⟩
  | cons x before ih =>
    intro l h
    obtain ⟨y, rest, -, hrest, rfl⟩ := List.forall₂_cons_left_iff.1 h
    obtain ⟨before', b, after', rfl, hlength, hab, hafter⟩ := ih hrest
    exact ⟨y :: before', b, after', rfl, by rw [List.length_cons, hlength, List.length_cons], hab,
      hafter⟩

theorem mem_of_lookup {ids : List (String × Nat)} {event : String} {id : Nat}
    (h : ids.lookup event = some id) : (event, id) ∈ ids := by
  obtain ⟨before, after, rfl, -⟩ := List.lookup_eq_some_iff.1 h
  exact List.mem_append_right _ List.mem_cons_self

/-- Under its name an entry is seen from the end unless another one stands behind it. -/
theorem lookup_reverse_split (before after : List (String × Nat)) (event : String) (number : Nat) :
    (before ++ (event, number) :: after).reverse.lookup event =
      (after.reverse.lookup event).or (some number) := by
  rw [List.reverse_append, List.reverse_cons, List.lookup_append, List.lookup_append,
    List.lookup_cons, BEq.rfl]
  cases after.reverse.lookup event with
  | none => rfl
  | some other => rfl

/-- The node of an element carries the last directive for each event. -/
theorem Denotes.carriesLast {markup : String} {t : Template} (ht : ofMarkup markup = .ok t)
    {bound : Array BoundHandler} {tag : StartTag} {e : Element} (he : e ∈ elementsOf t.roots)
    {s : ScopeId} {ids : List (String × Nat)} (h : Denotes bound e s ids)
    (htag : IsTagOf markup t tag e) : CarriesLast t bound tag e s ids := by
  intro before d after hdirectives
  have hcompiled := compiled_of_isTagOf ht htag
  rw [hdirectives] at hcompiled
  obtain ⟨before', event, after', hevents, hlength, ⟨hname, handler, hhandler, hnumber⟩, hafter⟩ :=
    forall₂_split hcompiled
  obtain ⟨name, number⟩ := event
  obtain rfl : name = d.event := hname
  have hlast := h.lookup d.event
  rw [hevents, lookup_reverse_split] at hlast
  have hat : e.events[before.length]? = some (d.event, number) := by
    rw [hevents, ← hlength, List.getElem?_append_right (Nat.le_refl _), Nat.sub_self]
    rfl
  have hlater := rel_find? (R := fun _ _ ↦ True) d.event
    (List.rel_reverse (hafter.imp fun _ _ hcompiled ↦ ⟨hcompiled.1, trivial⟩))
  have hids : ∀ {id}, ids.lookup d.event = some id → (d.event, id) ∈ ids := mem_of_lookup
  generalize hfound : after.reverse.find? (fun other ↦ other.event == d.event) = d? at hlater
  generalize hnumbered : after'.reverse.lookup d.event = number? at hlater hlast
  generalize ids.lookup d.event = id? at hlast hids
  cases hlater with
  | none =>
    cases hlast with
    | some hbound =>
      refine ⟨number, handler, _, hat, hhandler, hnumber, hids rfl, fun _ other hother heq ↦ ?_,
        fun _ ↦ hbound⟩
      exact List.find?_eq_none.1 hfound other (List.mem_reverse.2 hother) (beq_iff_eq.2 heq)
  | @some other last _ =>
    cases hlast with
    | some hbound =>
      refine ⟨number, handler, _, hat, hhandler, hnumber, hids rfl, fun hsame ↦ ?_,
        fun hnone ↦ ?_⟩
      · have hlt := (List.pairwise_flatMap.1 (ofMarkup_stems ht).pairwise_lt).1 e he
        rw [hevents, List.pairwise_append] at hlt
        have hlast := List.mem_reverse.1 (mem_of_lookup hnumbered)
        have hnumber := (List.pairwise_cons.1 hlt.2.1).1 _ hlast
        rw [hbound] at hsame
        cases hsame
        exact absurd hnumber (Nat.lt_irrefl _)
      · have hevent := List.find?_some hfound
        exact absurd (eq_of_beq hevent)
          (hnone other (List.mem_reverse.1 (List.mem_of_find?_eq_some hfound)))

end Template

/-! ### Handling events -/

namespace Template

open Sandbox.Action

/-- What a handler does with an event in the scope that it is bound to. -/
def Handler.perform (h : Handler) (s : ScopeId) (event : Value) : Action Unit := do
  let s ← childScope s
  declare s "$event" event false
  match h with
  | .callable (.member object key _) =>
    let target ← machine.eval s object
    let key ← Evaluation.memberKey machine s key
    discard (machine.call (← getProperty machine.call target key) target [event])
  | .callable e => discard (machine.call (← machine.eval s e) .undefined [event])
  | .inline body => discard (Evaluation.program machine s body)

/-- A bound handler is performed in the scope it was bound in. -/
theorem invoke_eq {t : Template} {number : Nat} {h : Handler} (hh : t.handlers[number]? = some h)
    (s : ScopeId) (event : Value) : t.invoke ⟨number, s⟩ event = h.perform s event := by
  unfold Template.invoke invokeOn
  dsimp only
  rw [hh]
  rfl

end Template

namespace Instance

/-- Handles an event with a handler in a scope, and settles. -/
def handle (h : Template.Handler) (s : ScopeId) (event : Json) : Op Unit := do
  let event ← lift (Action.ofDocument event)
  lift (h.perform s event)
  settle

/-- An event with a known handler is handled by it. -/
theorem trigger_eq {i : Instance} {id number : Nat} {s : ScopeId} {h : Template.Handler}
    (hid : i.handlers[id]? = some ⟨number, s⟩)
    (hh : i.component.template.handlers[number]? = some h) (event : Json) :
    trigger id event i = handle h s event i := by
  have hhandle : handleOn machine id event i = (do
      let event ← lift (Action.ofDocument event)
      lift (h.perform s event) : Op Unit) i := by
    unfold handleOn
    refine (bind_of_ok (get_eq i)).trans ?_
    rw [hid]
    simp only [← Template.invoke_eq hh]
    rfl
  have hassoc : handle h s event = (do
      let event ← lift (Action.ofDocument event)
      lift (h.perform s event) : Op Unit) >>= fun _ ↦ settle :=
    (bind_assoc _ _ _).symm
  rw [hassoc]
  exact bind_congr_left hhandle

/-- A render replaces the bound handlers. -/
theorem render_eq (i : Instance) : render i =
    (do
      let output ← lift (i.component.template.run Component.registered i.stateValue)
      modify fun i ↦ { i with handlers := output.handlers }
      return output.nodes : Op (List View.Node)) i :=
  bind_of_ok (get_eq i)

/-- What a render that returns has left. -/
theorem render_eq_ok {i j : Instance} {nodes : List View.Node} (h : render i = .ok nodes j) :
    ∃ output w, i.component.template.run Component.registered i.stateValue i.world = .ok output w ∧
      nodes = output.nodes ∧ j = { i with world := w, handlers := output.handlers } := by
  rw [render_eq] at h
  obtain ⟨output, j₁, hlift, hrest⟩ := bind_eq_ok h
  cases hrest
  obtain ⟨w, hrun, rfl⟩ := lift_eq_ok hlift
  exact ⟨output, w, hrun, rfl, rfl⟩

/-- Instances of one component that show the same view. -/
structure SameView (i j : Instance) : Prop where
  component : j.component = i.component
  handlers : j.handlers = i.handlers

/-- Only a render or an unmount changes the view. -/
theorem frame_sameView : Frame SameView where
  refl _ := ⟨rfl, rfl⟩
  trans h h' := ⟨h'.component.trans h.component, h'.handlers.trans h.handlers⟩
  world _ _ := ⟨rfl, rfl⟩
  report _ _ _ := ⟨rfl, rfl⟩

/-- A rendering that fails leaves the view before. -/
theorem sameView_of_render {i j : Instance} {failure : Failure} (h : render i = .error failure j) :
    i.SameView j := by
  rw [render_eq] at h
  cases hrun : i.component.template.run Component.registered i.stateValue i.world with
  | ok output w =>
    rw [bind_of_ok (lift_of_ok hrun)] at h
    cases h
  | error e w =>
    rw [bind_of_error (lift_of_error hrun)] at h
    cases h
    exact ⟨rfl, rfl⟩

end Instance

/-! ### Histories that keep a view -/

namespace Host

/-- The operation ends an instance or gives it another view. -/
def Renews (s : Host) (number : Nat) (operation : Operation) : Prop :=
  operation = .unmount number ∨ operation = .render number ∧
    ∃ i nodes j, s.instances[number]? = some i ∧ Instance.render (i.withHeap s.heap) = .ok nodes j

/-- The view of an instance stays its latest one. -/
def KeepsView (number : Nat) : Host → List Operation → Prop
  | _, [] => True
  | s, operation :: rest => ¬s.Renews number operation ∧ KeepsView number (s.step operation) rest

/-- An instance of the host shows the view that another one shows. -/
def Shows (s : Host) (number : Nat) (i : Instance) : Prop :=
  ∃ j, s.instances[number]? = some j ∧ i.SameView j

section

variable {s : Host} {number : Nat} {i : Instance}

/-- What is asked of an instance may keep its view. -/
theorem Shows.ask (h : s.Shows number i) {α : Type} {asked : Nat} {x : Instance.Op α}
    (hx : asked = number → ∀ j, s.instances[number]? = some j →
      (j.withHeap s.heap).SameView (left (x (j.withHeap s.heap)))) :
    (s.ask asked x).Shows number i := by
  obtain ⟨j, hj, hsame⟩ := h
  unfold Host.ask
  cases hasked : s.instances[asked]? with
  | none => exact ⟨j, hj, hsame⟩
  | some k =>
    unfold Host.Shows
    dsimp only
    rw [Array.getElem?_setIfInBounds]
    by_cases heq : asked = number
    · rw [if_pos heq, if_pos (heq ▸ (Array.getElem?_eq_some_iff.1 hj).1)]
      rw [heq, hj] at hasked
      obtain rfl := Option.some.inj hasked
      have hleft := hx heq j hj
      exact ⟨_, rfl, hleft.component.trans hsame.component, hleft.handlers.trans hsame.handlers⟩
    · rw [if_neg heq]
      exact ⟨j, hj, hsame⟩

/-- An instance goes on to show its view. -/
theorem Shows.step (h : s.Shows number i) {operation : Operation}
    (hkeeps : ¬s.Renews number operation) : (s.step operation).Shows number i := by
  have hwithin {α : Type} (asked : Nat) {x : Instance.Op α}
      (hx : Instance.Op.Within Instance.SameView x) : (s.ask asked x).Shows number i :=
    h.ask fun _ j _ ↦ hx _
  cases operation with
  | compile definition data store => exact h
  | clearCache => exact h
  | evaluate whitelist limits body data store => exact h
  | interpret run task => exact h
  | mount c =>
    obtain ⟨j, hj, hsame⟩ := h
    unfold Host.step
    dsimp only
    split
    · have hlt := (Array.getElem?_eq_some_iff.1 hj).1
      refine ⟨j, ?_, hsame⟩
      rwa [Array.getElem?_push_lt hlt, ← Array.getElem?_eq_getElem hlt]
    · exact ⟨j, hj, hsame⟩
  | get asked key => exact hwithin asked (Instance.frame_sameView.get key)
  | render asked =>
    refine h.ask fun heq j hj ↦ ?_
    cases hrender : Instance.render (j.withHeap s.heap) with
    | ok nodes k => exact absurd (.inr ⟨congrArg _ heq, j, nodes, k, hj, hrender⟩) hkeeps
    | error failure k => exact Instance.sameView_of_render hrender
  | stateJson asked => exact hwithin asked Instance.frame_sameView.stateJson
  | trigger asked id event => exact hwithin asked (Instance.frame_sameView.trigger id event)
  | callMethod asked name args =>
    exact hwithin asked (Instance.frame_sameView.callMethod name args)
  | unmount asked => exact h.ask fun heq ↦ absurd (.inl (congrArg _ heq)) hkeeps

/-- Operations that keep the view leave the handlers bound. -/
theorem Shows.after {later : List Operation} : ∀ {s : Host}, s.Shows number i →
    KeepsView number s later → (s.after later).Shows number i := by
  induction later with
  | nil => exact fun h _ ↦ h
  | cons operation rest ih => exact fun h hkeeps ↦ ih (h.step hkeeps.1) hkeeps.2

end

/-! ### Main results -/

/-- A button in a loop that has two directives for one event. -/
def clickedMarkup : String := "<b v-for=\"x in 'ab'\" @click=\"f\" @click.stop=\"g = x\"></b>"

def clickedTemplate : Template := (Template.ofMarkup clickedMarkup).toOption.getD default

theorem ofMarkup_clickedMarkup : Template.ofMarkup clickedMarkup = .ok clickedTemplate := by
  have hok : (Template.ofMarkup clickedMarkup).isOk = true := by decide +kernel
  unfold clickedTemplate
  cases ht : Template.ofMarkup clickedMarkup with
  | error fault =>
    rw [ht] at hok
    cases hok
  | ok t => rfl

/-- A mounted button. Its component has no options, and its state no keys. -/
def clickedInstance : Instance :=
  let (state, h) := Heap.empty.newObject ⟨.state, [], false⟩
  ⟨⟨clickedTemplate, .empty, [], [], .standard⟩, ⟨h, Run.start .standard .undefined⟩, state, .empty,
    #[], true⟩

/-- A host of the button. -/
def clickedHost : Host :=
  ⟨.new .standard .empty clickedInstance.world.heap, #[clickedInstance]⟩

/-- The button when it has been rendered. -/
def shownInstance : Instance :=
  left (Instance.render (clickedInstance.withHeap clickedHost.heap))

/-- The view of the button has events. -/
theorem clickedInstance_renders : ∃ nodes,
    Instance.render (clickedInstance.withHeap clickedHost.heap) = .ok nodes shownInstance ∧
      View.Node.eventIdsOf nodes ≠ [] := by
  have hok : succeeds (Instance.render (clickedInstance.withHeap clickedHost.heap)) = true := by
    decide +kernel
  have hsize : shownInstance.handlers.size = 4 := by decide +kernel
  obtain ⟨nodes, hrender⟩ := exists_eq_ok hok
  obtain ⟨output, w, hrun, hnodes, hshown⟩ := Instance.render_eq_ok hrender
  have hpos : 0 < output.handlers.size := by
    have hhandlers : shownInstance.handlers = output.handlers := congrArg Instance.handlers hshown
    rw [← hhandlers, hsize]
    decide
  exact ⟨nodes, hrender, hnodes ▸ (Template.isView_of_runOn hrun).ne_nil hpos⟩

/-- A node has an id for every event that its element has a directive for, and of the directives for
one event the last one is carried. An id that is carried triggers its handler. -/
theorem events_carry_last_directive {markup : String} {t : Template}
    (ht : Template.ofMarkup markup = .ok t) {i j : Instance} {nodes : List View.Node}
    (hi : i.component.template = t) (h : Instance.render i = .ok nodes j) :
    (∃ s w, Template.stateScope i.stateValue i.world = .ok s w ∧
      Template.ShowsAll machine Component.registered
        (fun e s ids ↦ ∃ tag, Template.IsTagOf markup t tag e ∧
          Template.CarriesLast t j.handlers tag e s ids)
        s t.roots w nodes j.world) ∧
    ∀ id number s h, j.handlers[id]? = some ⟨number, s⟩ → t.handlers[number]? = some h →
      ∀ event, Instance.trigger id event j = Instance.handle h s event j := by
  subst hi
  obtain ⟨output, w, hrun, rfl, rfl⟩ := Instance.render_eq_ok h
  obtain ⟨s, w₁, hscope, hshows⟩ := (Template.isView_of_runOn hrun).shows
  refine ⟨⟨s, w₁, hscope, hshows.imp fun e he s ids hdenotes ↦ ?_⟩, ?_⟩
  · obtain ⟨tag, htag⟩ := Template.exists_isTagOf ht he
    exact ⟨tag, htag, hdenotes.carriesLast ht he htag⟩
  · exact fun id number s h hid hh event ↦ Instance.trigger_eq hid hh event

theorem events_carry_last_directive_clicked : ∃ nodes,
    Template.ofMarkup clickedMarkup = .ok clickedTemplate ∧
    Instance.render (clickedInstance.withHeap clickedHost.heap) = .ok nodes shownInstance ∧
    ∃ s w, Template.ShowsAll machine Component.registered
      (fun e s ids ↦ ∃ tag, Template.IsTagOf clickedMarkup clickedTemplate tag e ∧
        Template.CarriesLast clickedTemplate shownInstance.handlers tag e s ids)
      s clickedTemplate.roots w nodes shownInstance.world := by
  obtain ⟨nodes, hrender, -⟩ := clickedInstance_renders
  obtain ⟨⟨s, w, -, hshows⟩, -⟩ := events_carry_last_directive ofMarkup_clickedMarkup rfl hrender
  exact ⟨nodes, ofMarkup_clickedMarkup, hrender, s, w, hshows⟩

/-- No event of the button's view triggers the handler of its first directive. -/
theorem first_click_lost : ∃ nodes,
    Instance.render (clickedInstance.withHeap clickedHost.heap) = .ok nodes shownInstance ∧
    (Template.startTagsIn clickedMarkup).map (fun tag ↦ tag.directives.map fun d ↦ d.event) =
      [["click", "click"]] ∧
    (Template.elementsOf clickedTemplate.roots).map Template.Element.events =
      [[("click", 0), ("click", 1)]] ∧
    View.Node.eventIdsOf nodes ≠ [] ∧
    ∀ id ∈ View.Node.eventIdsOf nodes, ∀ s, shownInstance.handlers[id]? ≠ some ⟨0, s⟩ := by
  obtain ⟨nodes, hrender, hids⟩ := clickedInstance_renders
  have hevents : (Template.elementsOf clickedTemplate.roots).map Template.Element.events =
    [[("click", 0), ("click", 1)]] := by decide +kernel
  refine ⟨nodes, hrender, by decide +kernel, hevents, hids, fun id hid s hbound ↦ ?_⟩
  obtain ⟨output, w, hrun, rfl, hshown⟩ := Instance.render_eq_ok hrender
  have hhandlers : shownInstance.handlers = output.handlers := congrArg Instance.handlers hshown
  obtain ⟨s₁, w₁, -, hshows⟩ := (Template.isView_of_runOn hrun).shows
  obtain ⟨e, he, s₂, ids, name, hdenotes, hmem⟩ := hshows.exists_element hid
  have he : e.events ∈ [[("click", 0), ("click", 1)]] := hevents ▸ List.mem_map_of_mem he
  have hlookup := hdenotes.lookup name
  rw [Template.lookup_of_mem hdenotes.sorted hmem, List.mem_singleton.1 he] at hlookup
  rw [hhandlers] at hbound
  generalize hlast : [("click", 0), ("click", 1)].reverse.lookup name = last? at hlookup
  cases hlookup with
  | some hid =>
    rw [hbound] at hid
    cases hid
    change [("click", 1), ("click", 0)].lookup name = some 0 at hlast
    rw [List.lookup_cons, List.lookup_cons] at hlast
    cases hname : name == "click" with
    | true =>
      rw [hname] at hlast
      cases hlast
    | false =>
      rw [hname] at hlast
      cases hlast

end Host

end Nodecraft
