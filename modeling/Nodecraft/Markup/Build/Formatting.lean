import Nodecraft.Markup.Build.State

/-!
Formatting elements: they are opened again in later content, and they are split where they do not
nest with other elements.
-/

set_option autoImplicit false

namespace Nodecraft.Markup.Build

def Entry.isMarker : Entry → Bool
  | .marker => true
  | .element _ _ => false

def Entry.node? : Entry → Option NodeId
  | .marker => none
  | .element n _ => some n

def Entry.isOf (n : NodeId) (e : Entry) : Bool := e.node? == some n

def modifyFormatting (f : List Entry → List Entry) : Building Unit :=
  modify fun s => { s with formatting := f s.formatting }

def addMarker : Building Unit := modifyFormatting (.marker :: ·)

/-- Forgets formatting elements up to and including the latest marker. -/
def clearToMarker : Building Unit :=
  modifyFormatting fun es => (es.dropWhile fun e => !e.isMarker).tail

/-- The entries since the latest marker. -/
def sinceMarker (es : List Entry) : List Entry := es.takeWhile fun e => !e.isMarker

def forget (n : NodeId) : Building Unit := modifyFormatting fun es => es.eraseP (Entry.isOf n)

/-- Opens the elements of entries again, the earliest first, and gives their new entries. -/
def reopen : List Entry → Building (List Entry)
  | [] => return []
  | .marker :: rest => reopen rest
  | .element _ tag :: rest => do
    let n ← openElement ⟨.html, tag.name, tag.attributes⟩
    return .element n tag :: (← reopen rest)

/-- Opens formatting elements again that have been closed by other elements. -/
def reconstruct : Building Unit := do
  let s ← get
  let waits (e : Entry) : Bool := match e with
    | .marker => false
    | .element n _ => !s.opened.contains n
  let waiting := s.formatting.takeWhile waits
  let entries ← reopen waiting.reverse
  modifyFormatting fun es => entries.reverse ++ es.drop waiting.length

/-- Whether two tags open the same element, the order of attributes aside. -/
def sameTag (a b : Tag) : Bool :=
  a.name == b.name && a.attributes.length == b.attributes.length &&
    a.attributes.all fun x => b.attributes.contains x

/-- Without the earliest entry for a tag, if there are three of them. -/
def withRoom (tag : Tag) (es : List Entry) : List Entry :=
  let same (e : Entry) : Bool := match e with
    | .marker => false
    | .element _ t => sameTag tag t
  let recent := sinceMarker es
  if (recent.filter same).length < 3 then es
  else (recent.reverse.eraseP same).reverse ++ es.drop recent.length

def openFormatting (tag : Tag) : Building Unit := do
  modifyFormatting (withRoom tag)
  let n ← openElement ⟨.html, tag.name, tag.attributes⟩
  modifyFormatting (.element n tag :: ·)

/-! ### Elements that do not nest -/

/-- Closes the innermost open element of a name, unless a special element is in between. -/
def closeAny (name : String) : Building Unit := do
  let s ← get
  match s.opened.find? fun n => let e := s.arena.element n; e.named name || e.isSpecial with
  | none => return
  | some n =>
    if (s.arena.element n).named name then
      modify fun s => { s with opened := (s.opened.dropWhile (· != n)).tail }

/-- How far a split has come: the element the next one takes in, the new elements so far with the
innermost first, and the latest one that stands for a formatting element. -/
structure Split where
  moved : NodeId
  renewed : List NodeId
  mark : Option NodeId

/-- Renews the formatting elements between a block and the element that is split, from the inside
out. Other elements are left out, and so are all but the first three. -/
def renewBetween (block : NodeId) : Nat → Split → List NodeId → Building Split
  | _, split, [] => return split
  | count, split, n :: rest => do
    match (← get).formatting.find? (Entry.isOf n) with
    | some (.element _ tag) =>
      if 3 ≤ count then
        forget n
        renewBetween block (count + 1) split rest
      else
        let new ← newHtml tag
        modifyFormatting fun es => es.map fun e => if e.isOf n then .element new tag else e
        let mark := if split.moved == block then some new else split.mark
        modifyArena fun a => (a.detach split.moved).append new split.moved
        renewBetween block (count + 1) ⟨new, split.renewed ++ [new], mark⟩ rest
    | _ => renewBetween block (count + 1) split rest

/-- Puts a new entry in the place of an old one, or right behind a marked one. -/
def replaceEntry (old : NodeId) (mark : Option NodeId) (new : Entry) (es : List Entry) :
    List Entry :=
  match mark with
  | none => es.map fun e => if e.isOf old then new else e
  | some m =>
    (es.flatMap fun e => if e.isOf m then [new, e] else [e]).eraseP (Entry.isOf old)

/-- Splits a formatting element around a block in it. The open elements are those within the
block, the block, those between, the formatting element, and those around it. -/
def splitAround (within : List NodeId) (block : NodeId) (between : List NodeId) (old : NodeId)
    (tag : Tag) (around : List NodeId) : Building Unit := do
  let split ← renewBetween block 0 ⟨block, [], none⟩ between
  modifyArena fun a => a.detach split.moved
  let s ← get
  putAt (s.placeIn (around.headD Arena.root)) split.moved
  let new ← newHtml tag
  modifyArena fun a => (a.moveChildren block new).append block new
  modifyFormatting (replaceEntry old split.mark (.element new tag))
  modify fun s => { s with opened := within ++ [new, block] ++ split.renewed ++ around }

/-- One round of closing a formatting element; whether another round may follow. -/
def closeFormattingOnce (name : String) : Building Bool := do
  let s ← get
  let wanted (e : Entry) : Bool := match e with
    | .marker => false
    | .element _ tag => tag.name == name
  match (sinceMarker s.formatting).find? wanted with
  | some (.element n tag) =>
    if !s.opened.contains n then
      forget n
      return false
    else if !inScopeOf s.arena Element.endsScope (· == n) s.opened then return false
    else
      let inner := s.opened.takeWhile (· != n)
      let around := (s.opened.dropWhile (· != n)).tail
      let isSpecial (m : NodeId) : Bool := (s.arena.element m).isSpecial
      match inner.reverse.find? isSpecial with
      | none =>
        modify fun s => { s with opened := around }
        forget n
        return false
      | some block =>
        let within := inner.takeWhile (· != block)
        let between := (inner.dropWhile (· != block)).tail
        splitAround within block between n tag around
        return true
  | _ =>
    closeAny name
    return false

def closeFormattingRounds (name : String) : Nat → Building Unit
  | 0 => return
  | rounds + 1 => do
    if ← closeFormattingOnce name then closeFormattingRounds name rounds

/-- Closes a formatting element, splitting it around blocks in it at most eight times. -/
def closeFormatting (name : String) : Building Unit := do
  let s ← get
  if s.currentElement.named name && !(s.formatting.any (Entry.isOf s.current)) then pop
  else closeFormattingRounds name 8

/-- A link ends a link that is still open. -/
def closeLink : Building Unit := do
  let s ← get
  let isLink (e : Entry) : Bool := match e with
    | .marker => false
    | .element n _ => (s.arena.element n).named "a"
  match ((sinceMarker s.formatting).find? isLink).bind Entry.node? with
  | none => return
  | some n =>
    closeFormatting "a"
    forget n
    close n

end Nodecraft.Markup.Build
