import Nodecraft.Markup.Node

/-!
# Documents in arenas

Elements that are opened, filled and closed one after another lie in an arena in the order in which
they were opened, and what an element holds lies right behind it. So the nodes of a finished element
fill a stretch of cells (`Arena.Holds`), and the open elements are a path of frames, each behind what
is finished in the one around it (`Arena.Opens`).

Both tell what the documents are but for their texts. Opening an element in the innermost frame
makes it the next frame (`Opens.opening`), closing it makes it a node of the frame around it
(`Opens.closing`), and text changes nothing (`Opens.appendChar`).
-/

set_option autoImplicit false

namespace Nodecraft.Markup

/-! ### Nodes without texts -/

mutual

/-- A node without the texts and comments in it. -/
def Node.textless : Node → List Node
  | .element name attributes children => [.element name attributes (textlessAll children)]
  | .text _ => []
  | .comment => []

def textlessAll : List Node → List Node
  | [] => []
  | n :: rest => n.textless ++ textlessAll rest

end

/-- Nodes side by side are freed of their texts one by one. -/
theorem textlessAll_append (nodes more : List Node) :
    textlessAll (nodes ++ more) = textlessAll nodes ++ textlessAll more := by
  induction nodes with
  | nil => rfl
  | cons n rest ih => simp only [List.cons_append, textlessAll, ih, List.append_assoc]

mutual

theorem textlessAll_bodyContent :
    ∀ n : Node, textlessAll n.bodyContent = bodyContents n.textless
  | .element name attributes children => by
    simp only [Node.bodyContent, Node.textless, bodyContents, List.append_nil]
    split
    · exact textlessAll_bodyContents children
    · simp only [textlessAll, Node.textless, List.append_nil]
  | .text _ => by simp only [Node.bodyContent, Node.textless, textlessAll, bodyContents,
      List.append_nil]
  | .comment => by simp only [Node.bodyContent, Node.textless, textlessAll, bodyContents]

/-- Texts may be taken out before or after the page around the body. -/
theorem textlessAll_bodyContents :
    ∀ nodes : List Node, textlessAll (bodyContents nodes) = bodyContents (textlessAll nodes)
  | [] => rfl
  | n :: rest => by
    have happend : ∀ xs ys : List Node,
        bodyContents (xs ++ ys) = bodyContents xs ++ bodyContents ys := by
      intro xs ys
      induction xs with
      | nil => rfl
      | cons x xs ih => simp only [List.cons_append, bodyContents, ih, List.append_assoc]
    simp only [bodyContents, textlessAll, textlessAll_append, happend, textlessAll_bodyContent n,
      textlessAll_bodyContents rest]

end

namespace Arena

/-! ### Cells -/

variable (a : Arena) {n m : NodeId}

theorem size_modify (n : NodeId) (f : Cell → Cell) :
    (a.modify n f).cells.size = a.cells.size := Array.size_modify

theorem cell_modify_self (hn : n.index < a.cells.size) (f : Cell → Cell) :
    (a.modify n f).cell n = f (a.cell n) := by
  simp [cell, modify, Array.getD, hn, Array.getElem_modify]

theorem cell_modify_of_ne (h : m ≠ n) (f : Cell → Cell) : (a.modify n f).cell m = a.cell m := by
  have hne : n.index ≠ m.index := fun heq ↦ h (by cases m; cases n; exact congrArg _ heq.symm)
  simp [cell, modify, Array.getD, Array.getElem_modify, hne]

theorem cell_new_self (content : Content) :
    (a.new content).2.cell ⟨a.cells.size⟩ = ⟨content, none, []⟩ := by
  simp [cell, new, Array.getD]

/-- A new cell leaves the others alone. -/
theorem cell_new_of_lt (content : Content) (hm : m.index < a.cells.size) :
    (a.new content).2.cell m = a.cell m := by
  simp [cell, new, Array.getD, hm, Nat.lt_succ_of_lt hm, Array.getElem_push_lt hm]

/-- The new child is the last one. -/
theorem cell_append_parent {parent child : NodeId} (hparent : parent.index < a.cells.size)
    (hne : parent ≠ child) : (a.append parent child).cell parent =
      { a.cell parent with children := (a.cell parent).children ++ [child] } := by
  rw [append, cell_modify_of_ne _ hne, cell_modify_self a hparent]

/-- The child has its parent. -/
theorem cell_append_child {parent child : NodeId} (hchild : child.index < a.cells.size)
    (hne : parent ≠ child) : (a.append parent child).cell child =
      { a.cell child with parent := some parent } := by
  have hsize : child.index < (a.modify parent fun c ↦
    { c with children := c.children ++ [child] }).cells.size := by rwa [size_modify]
  rw [append, cell_modify_self _ hsize, cell_modify_of_ne a hne.symm]

/-- Other cells are left alone. -/
theorem cell_append_of_ne {parent child : NodeId} (hparent : m ≠ parent) (hchild : m ≠ child) :
    (a.append parent child).cell m = a.cell m := by
  rw [append, cell_modify_of_ne _ hchild, cell_modify_of_ne a hparent]

theorem size_append (parent child : NodeId) :
    (a.append parent child).cells.size = a.cells.size := by
  rw [append, size_modify, size_modify]

end Arena

/-- Cells that are the same but for the texts in them. -/
inductive Cell.Like : Cell → Cell → Prop
  | same (c : Cell) : Like c c
  | text (s s' : String) (parent : Option NodeId) (children : List NodeId) :
    Like ⟨.text s, parent, children⟩ ⟨.text s', parent, children⟩

/-- What is like an element is that element. -/
theorem Cell.Like.element {e : Element} {template parent : Option NodeId} {children : List NodeId}
    {c : Cell} (h : Cell.Like ⟨.element e template, parent, children⟩ c) :
    c = ⟨.element e template, parent, children⟩ := by
  cases h
  rfl

theorem Cell.Like.document {parent : Option NodeId} {children : List NodeId} {c : Cell}
    (h : Cell.Like ⟨.document, parent, children⟩ c) : c = ⟨.document, parent, children⟩ := by
  cases h
  rfl

/-! ### Finished nodes -/

/-- The nodes with the given ids, in the order of their cells, are these but for texts, and their
cells are those from `i` on to before `j`. -/
inductive Arena.Holds (a : Arena) : Nat → List NodeId → List Node → Nat → Prop
  | nil (i : Nat) : Holds a i [] [] i
  | text {i j : Nat} {s : String} {parent : Option NodeId} {ids : List NodeId}
      {nodes : List Node} :
      a.cell ⟨i⟩ = ⟨.text s, parent, []⟩ → Holds a (i + 1) ids nodes j →
      Holds a i (⟨i⟩ :: ids) nodes j
  | element {i k j : Nat} {e : Element} {parent : Option NodeId} {inner ids : List NodeId}
      {children nodes : List Node} :
      a.cell ⟨i⟩ = ⟨.element e none, parent, inner⟩ → Holds a (i + 1) inner children k →
      Holds a k ids nodes j →
      Holds a i (⟨i⟩ :: ids) (.element e.name e.attributes children :: nodes) j

namespace Arena.Holds

variable {a b : Arena} {i j : Nat} {ids : List NodeId} {nodes : List Node}

theorem le (h : a.Holds i ids nodes j) : i ≤ j := by
  induction h with
  | nil => exact Nat.le_refl _
  | text _ _ ih => exact Nat.le_of_succ_le ih
  | element _ _ _ ihinner ih => exact Nat.le_trans (Nat.le_of_succ_le ihinner) ih

/-- Finished nodes side by side. -/
theorem append (h : a.Holds i ids nodes j) {k : Nat} {more : List NodeId} {others : List Node}
    (hmore : a.Holds j more others k) : a.Holds i (ids ++ more) (nodes ++ others) k := by
  induction h with
  | nil => exact hmore
  | text hcell _ ih => exact .text hcell (ih hmore)
  | element hcell hinner _ _ ih => exact .element hcell hinner (ih hmore)

/-- Only the cells of the nodes count, and of these not the texts. -/
theorem congr (h : a.Holds i ids nodes j)
    (hcells : ∀ k, i ≤ k → k < j → Cell.Like (a.cell ⟨k⟩) (b.cell ⟨k⟩)) :
    b.Holds i ids nodes j := by
  induction h with
  | nil => exact .nil _
  | @text i j s parent _ _ hcell hrest ih =>
    have hlike := hcells i (Nat.le_refl i) hrest.le
    rw [hcell] at hlike
    have hb : ∃ s', b.cell ⟨i⟩ = ⟨.text s', parent, []⟩ := by
      generalize b.cell ⟨i⟩ = c at hlike
      cases hlike with
      | same => exact ⟨s, rfl⟩
      | text _ s' _ _ => exact ⟨s', rfl⟩
    obtain ⟨s', hb⟩ := hb
    exact .text hb (ih fun k hik hkj ↦ hcells k (Nat.le_of_succ_le hik) hkj)
  | @element i k j _ _ _ _ _ _ hcell hinner hrest ihinner ih =>
    have hik := hinner.le
    have hkj := hrest.le
    have hlike := hcells i (Nat.le_refl i) (by omega)
    rw [hcell] at hlike
    exact .element hlike.element (ihinner fun l hil hlk ↦ hcells l (by omega) (by omega))
      (ih fun l hkl hlj ↦ hcells l (by omega) hlj)

/-- The trees below the ids, with enough fuel. -/
theorem trees (h : a.Holds i ids nodes j) : ∀ {fuel : Nat}, j - i ≤ fuel →
    textlessAll (ids.map (a.treeWithin fuel)) = nodes := by
  induction h with
  | nil => exact fun _ ↦ rfl
  | @text i j s _ ids _ hcell hrest ih =>
    intro fuel hfuel
    have hij := hrest.le
    obtain ⟨fuel, rfl⟩ : ∃ f, fuel = f + 1 := ⟨fuel - 1, by omega⟩
    have htree : a.treeWithin (fuel + 1) ⟨i⟩ = .text s := by rw [treeWithin, hcell]
    rw [List.map_cons, textlessAll, htree, ih (by omega)]
    rfl
  | @element i k j e _ inner ids _ _ hcell hinner hrest ihinner ih =>
    intro fuel hfuel
    have hik := hinner.le
    have hkj := hrest.le
    obtain ⟨fuel, rfl⟩ : ∃ f, fuel = f + 1 := ⟨fuel - 1, by omega⟩
    have hinside : a.inside ⟨i⟩ = ⟨i⟩ := by rw [inside, hcell]
    have htree : a.treeWithin (fuel + 1) ⟨i⟩ =
        .element e.name e.attributes (inner.map (a.treeWithin fuel)) := by
      rw [treeWithin, hinside, hcell]
    rw [List.map_cons, textlessAll, htree, Node.textless, ihinner (by omega), ih (by omega)]
    rfl

end Arena.Holds

/-! ### Open elements -/

/-- An open element with what is finished in it. -/
structure Frame where
  node : NodeId
  element : Element
  nodes : List Node

/-- The node that an element becomes when it is closed. -/
def Frame.closed (f : Frame) : Node := .element f.element.name f.element.attributes f.nodes

def Frame.withNode (f : Frame) (n : Node) : Frame := { f with nodes := f.nodes ++ [n] }

/-- The innermost open element, or the document. -/
def innermost (frames : List Frame) : NodeId := (frames.map Frame.node).headD Arena.root

/-- The frames are open, the innermost first. It has further nodes with the given ids, and all that
was before them lies before cell `i`. -/
inductive Arena.Opens (a : Arena) : List Frame → List NodeId → Nat → Prop
  | document {more : List NodeId} :
      a.cell Arena.root = ⟨.document, none, more⟩ → Opens a [] more 1
  | frame {f : Frame} {outer : List Frame} {parent : Option NodeId} {ids more : List NodeId}
      {i : Nat} :
      a.cell f.node = ⟨.element f.element none, parent, ids ++ more⟩ →
      a.Holds (f.node.index + 1) ids f.nodes i → Opens a outer [f.node] f.node.index →
      Opens a (f :: outer) more i

namespace Arena.Opens

variable {a b : Arena} {frames outer : List Frame} {f g : Frame} {more : List NodeId} {i : Nat}

theorem pos (h : a.Opens frames more i) : 0 < i := by
  cases h with
  | document => exact Nat.one_pos
  | frame _ hholds _ => exact Nat.lt_of_lt_of_le (Nat.succ_pos _) hholds.le

/-- Open elements are before everything that is yet to come. -/
theorem index_lt (h : a.Opens frames more i) : ∀ f ∈ frames, f.node.index < i := by
  induction h with
  | document => exact fun _ hf ↦ absurd hf List.not_mem_nil
  | frame _ hholds _ ih =>
    intro f hf
    rcases List.mem_cons.1 hf with rfl | hf
    · exact hholds.le
    · exact Nat.lt_trans (ih f hf) hholds.le

/-- Frames are opened one after another. -/
theorem not_mem_outer (h : a.Opens (f :: outer) more i) : f.node ∉ outer.map Frame.node := by
  intro hmem
  obtain ⟨g, hg, hnode⟩ := List.mem_map.1 hmem
  cases h with
  | frame _ _ houter =>
    have hlt := houter.index_lt g hg
    rw [hnode] at hlt
    exact Nat.lt_irrefl _ hlt

/-- So is the innermost one. -/
theorem innermost_lt (h : a.Opens frames more i) : (innermost frames).index < i := by
  cases h with
  | document => exact Nat.one_pos
  | frame _ hholds _ => exact hholds.le

/-- An open element is in its cell. -/
theorem content (h : a.Opens frames more i) :
    ∀ f ∈ frames, (a.cell f.node).content = .element f.element none := by
  induction h with
  | document => exact fun _ hf ↦ absurd hf List.not_mem_nil
  | frame hcell _ _ ih =>
    intro f hf
    rcases List.mem_cons.1 hf with rfl | hf
    · rw [hcell]
    · exact ih f hf

/-- The element of an open frame can be read from its cell. -/
theorem element_eq (h : a.Opens frames more i) (hf : f ∈ frames) :
    a.element f.node = f.element := by
  rw [element, h.content f hf]

/-- No open element keeps its content elsewhere. -/
theorem inside_innermost (h : a.Opens frames more i) :
    a.inside (innermost frames) = innermost frames := by
  cases h with
  | document hcell =>
    change a.inside root = root
    rw [inside, hcell]
  | @frame f _ _ _ _ _ hcell =>
    change a.inside f.node = f.node
    rw [inside, hcell]

/-- Frames stay open when cells before the end keep all but their texts. -/
theorem congr (h : a.Opens frames more i)
    (hcells : ∀ k < i, Cell.Like (a.cell ⟨k⟩) (b.cell ⟨k⟩)) : b.Opens frames more i := by
  induction h with
  | document hcell =>
    have hlike := hcells 0 Nat.one_pos
    change Cell.Like (a.cell root) (b.cell root) at hlike
    rw [hcell] at hlike
    exact .document hlike.document
  | @frame f _ _ _ _ i hcell hholds _ ih =>
    have hlike := hcells f.node.index hholds.le
    change Cell.Like (a.cell f.node) (b.cell f.node) at hlike
    rw [hcell] at hlike
    exact .frame hlike.element (hholds.congr fun k _ hk ↦ hcells k hk)
      (ih fun k hk ↦ hcells k (Nat.lt_trans hk hholds.le))

/-- The innermost frame gets further nodes. -/
theorem extend (h : a.Opens frames [] i) (hinner : b.cell (innermost frames) =
      { a.cell (innermost frames) with children := (a.cell (innermost frames)).children ++ more })
    (hcells : ∀ k < i, (⟨k⟩ : NodeId) ≠ innermost frames → Cell.Like (a.cell ⟨k⟩) (b.cell ⟨k⟩)) :
    b.Opens frames more i := by
  cases h with
  | document hcell =>
    change b.cell root = { a.cell root with children := (a.cell root).children ++ more } at hinner
    rw [hcell] at hinner
    exact .document hinner
  | @frame f outer parent ids _ i hcell hholds houter =>
    change b.cell f.node =
      { a.cell f.node with children := (a.cell f.node).children ++ more } at hinner
    rw [hcell, List.append_nil] at hinner
    have hne : ∀ k, k ≠ f.node.index → (⟨k⟩ : NodeId) ≠ f.node :=
      fun k hk heq ↦ hk (congrArg NodeId.index heq)
    exact .frame hinner
      (hholds.congr fun k hk hki ↦ hcells k hki (hne k (Nat.ne_of_gt hk)))
      (houter.congr fun k hk ↦ hcells k (Nat.lt_trans hk hholds.le) (hne k (Nat.ne_of_lt hk)))

/-- A frame that is closed is a finished node of the frame around it. -/
theorem closing (h : a.Opens (f :: g :: outer) [] i) :
    a.Opens (g.withNode f.closed :: outer) [] i := by
  cases h with
  | @frame _ _ parent ids _ _ hcell hholds houter =>
    cases houter with
    | frame hcell' hholds' houter' =>
      have hclosed : a.Holds f.node.index [f.node] [f.closed] i :=
        .element hcell (by rw [List.append_nil]; exact hholds) (.nil i)
      exact .frame (by rw [List.append_nil]; exact hcell') (hholds'.append hclosed) houter'

/-- A new node in the innermost frame. -/
theorem append_new (h : a.Opens frames [] a.cells.size) (content : Content) :
    ((a.new content).2.append (innermost frames) ⟨a.cells.size⟩).Opens frames [⟨a.cells.size⟩]
        a.cells.size ∧
      ((a.new content).2.append (innermost frames) ⟨a.cells.size⟩).cell ⟨a.cells.size⟩ =
        ⟨content, some (innermost frames), []⟩ ∧
      ((a.new content).2.append (innermost frames) ⟨a.cells.size⟩).cells.size =
        a.cells.size + 1 := by
  have hlt := h.innermost_lt
  have hne : innermost frames ≠ ⟨a.cells.size⟩ :=
    fun heq ↦ Nat.ne_of_lt hlt (congrArg NodeId.index heq)
  have hsize : (a.new content).2.cells.size = a.cells.size + 1 := Array.size_push _
  refine ⟨h.extend ?_ fun k hk hki ↦ ?_, ?_, ?_⟩
  · rw [cell_append_parent _ (by rw [hsize]; exact Nat.lt_succ_of_lt hlt) hne,
      cell_new_of_lt a _ hlt]
  · have hkn : (⟨k⟩ : NodeId) ≠ ⟨a.cells.size⟩ :=
      fun heq ↦ Nat.ne_of_lt hk (congrArg NodeId.index heq)
    rw [cell_append_of_ne _ hki hkn, cell_new_of_lt a _ hk]
    exact .same _
  · rw [cell_append_child _ (by rw [hsize]; exact Nat.lt_succ_self _) hne, cell_new_self]
  · rw [size_append, hsize]

/-- A new element in the innermost frame is the next frame. -/
theorem opening (h : a.Opens frames [] a.cells.size) (e : Element) :
    ((a.new (.element e none)).2.append (innermost frames) ⟨a.cells.size⟩).Opens
      (⟨⟨a.cells.size⟩, e, []⟩ :: frames) []
      ((a.new (.element e none)).2.append (innermost frames) ⟨a.cells.size⟩).cells.size := by
  obtain ⟨hopens, hcell, hsize⟩ := h.append_new (.element e none)
  rw [hsize]
  exact Opens.frame (f := ⟨⟨a.cells.size⟩, e, []⟩) hcell (.nil _) hopens

/-- Text in the innermost frame changes nothing but texts. -/
theorem appendChar (h : a.Opens (f :: outer) [] a.cells.size) (c : Char) :
    (a.appendChar f.node c).Opens (f :: outer) [] (a.appendChar f.node c).cells.size := by
  have hfresh : (appendChar.fresh a f.node c).Opens (f :: outer) []
      (appendChar.fresh a f.node c).cells.size := by
    obtain ⟨hopens, hcell, hsize⟩ := h.append_new (.text c.toString)
    change ((a.new (.text c.toString)).2.append f.node ⟨a.cells.size⟩).Opens (f :: outer) []
      ((a.new (.text c.toString)).2.append f.node ⟨a.cells.size⟩).cells.size
    change ((a.new (.text c.toString)).2.append f.node ⟨a.cells.size⟩).cells.size =
      a.cells.size + 1 at hsize
    rw [hsize]
    cases hopens with
    | frame hframe hholds houter =>
      refine .frame (by rw [List.append_nil]; exact hframe) ?_ houter
      have htext := hholds.append (.text hcell (.nil (a.cells.size + 1)))
      rwa [List.append_nil] at htext
  unfold Arena.appendChar
  split
  next last _ =>
    split
    next htext =>
      have hlike : ∀ k < a.cells.size, Cell.Like (a.cell ⟨k⟩) ((a.extendText last c).cell ⟨k⟩) := by
        intro k hk
        by_cases hlast : (⟨k⟩ : NodeId) = last
        · subst hlast
          rw [extendText, cell_modify_self a hk]
          unfold isText at htext
          generalize a.cell ⟨k⟩ = cell at htext
          obtain ⟨content, parent, children⟩ := cell
          cases content with
          | text s => exact .text _ _ _ _
          | _ => exact .same _
        · rw [extendText, cell_modify_of_ne a hlast]
          exact .same _
      have hsize : (a.extendText last c).cells.size = a.cells.size := size_modify a _ _
      rw [hsize]
      exact h.congr hlike
    next => exact hfresh
  next => exact hfresh

end Arena.Opens

end Nodecraft.Markup
