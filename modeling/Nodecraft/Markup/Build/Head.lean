import Nodecraft.Markup.Build.Formatting

/-!
Content before the body of a document.
-/

set_option autoImplicit false

namespace Nodecraft.Markup.Build

def isSpace (c : Char) : Bool := c == ' ' || c == '\n' || c == '\t' || c == '\x0C' || c == '\r'

/-- Adds the attributes of a repeated root tag to the root element. -/
def repeatHtml (tag : Tag) : Building Outcome := do
  if !(← isOpen "template") then
    let outermost := (← get).opened.getLast?.getD Arena.root
    modifyArena fun a => a.addAttributes outermost tag.attributes
  done

def openRoot (attributes : List (String × String)) : Building Unit := do
  let n ← newElement ⟨.html, "html", attributes⟩
  modifyArena fun a => a.append Arena.root n
  push n

/-- Closing tags that stand for content where there is none yet. -/
def opensContent (name : String) : Bool := ["head", "body", "html", "br"].contains name

/-- Whether a document type is too old or too broken for the strict rules. -/
def isLenient (d : Doctype) : Bool :=
  d.broken || d.name != "html" ||
    d.publicId.any fun p => isOldPublic (p.map Char.toLower) d.systemId
where
  isOldPublic (p : String) (systemId : Option String) : Bool :=
    ["-//w3o//dtd w3 html strict 3.0//en//", "-/w3c/dtd html 4.0 transitional/en", "html"].contains
      p ||
    oldPublicIds.any (fun old => old.toList.isPrefixOf p.toList) ||
    (systemId.isNone && ["-//w3c//dtd html 4.01 frameset//",
      "-//w3c//dtd html 4.01 transitional//"].any fun old => old.toList.isPrefixOf p.toList)
  oldPublicIds : List String :=
    ["-//ietf//dtd html 2.0 level 1//", "-//ietf//dtd html 2.0 level 2//",
      "-//ietf//dtd html 2.0 strict level 1//", "-//ietf//dtd html 2.0 strict level 2//",
      "-//ietf//dtd html 2.0 strict//", "-//ietf//dtd html 2.0//", "-//ietf//dtd html 2.1e//",
      "-//ietf//dtd html 3.0//", "-//ietf//dtd html 3.2 final//", "-//ietf//dtd html 3.2//",
      "-//ietf//dtd html 3//", "-//ietf//dtd html level 0//", "-//ietf//dtd html level 1//",
      "-//ietf//dtd html level 2//", "-//ietf//dtd html level 3//",
      "-//ietf//dtd html strict level 0//", "-//ietf//dtd html strict level 1//",
      "-//ietf//dtd html strict level 2//", "-//ietf//dtd html strict level 3//",
      "-//ietf//dtd html strict//", "-//ietf//dtd html//", "-//w3c//dtd html 3 1995-03-24//",
      "-//w3c//dtd html 3.2 draft//", "-//w3c//dtd html 3.2 final//", "-//w3c//dtd html 3.2//",
      "-//w3c//dtd html 3.2s draft//", "-//w3c//dtd html 4.0 frameset//",
      "-//w3c//dtd html 4.0 transitional//", "-//w3c//dtd html experimental 19960712//",
      "-//w3c//dtd html experimental 970421//", "-//w3c//dtd w3 html//",
      "-//w3o//dtd w3 html 3.0//"]

def initial : Token → Building Outcome
  | .char c => if isSpace c then done else undeclared
  | .comment => do
    putOuterComment
    done
  | .doctype d => do
    modify fun s => { s with lenient := isLenient d, mode := .beforeHtml }
    done
  | _ => undeclared
where
  undeclared : Building Outcome := do
    modify fun s => { s with lenient := true }
    return .again .beforeHtml

def beforeHtml : Token → Building Outcome
  | .char c => if isSpace c then done else begin_
  | .comment => do
    putOuterComment
    done
  | .opening tag =>
    if tag.name == "html" then do
      openRoot tag.attributes
      setMode .beforeHead
      done
    else begin_
  | .closing name => if opensContent name then begin_ else done
  | _ => begin_
where
  begin_ : Building Outcome := do
    openRoot []
    return .again .beforeHead

def openHead (attributes : List (String × String)) : Building Unit := do
  let n ← openElement ⟨.html, "head", attributes⟩
  modify fun s => { s with head := some n }

def beforeHead : Token → Building Outcome
  | .char c => if isSpace c then done else begin_
  | .comment => do
    putComment
    done
  | .opening tag =>
    if tag.name == "html" then repeatHtml tag
    else if tag.name == "head" then do
      openHead tag.attributes
      setMode .inHead
      done
    else begin_
  | .closing name => if opensContent name then begin_ else done
  | _ => begin_
where
  begin_ : Building Outcome := do
    openHead []
    return .again .inHead

/-- The mode that the open elements call for. -/
def modeFor (s : State) : List NodeId → Mode
  | [] => .inBody
  | n :: rest =>
    let e := s.arena.element n
    if !e.isHtml then modeFor s rest
    else match e.name with
      | "select" =>
        match rest.find? fun m => (s.arena.element m).oneOf ["template", "table"] with
        | some m => if (s.arena.element m).named "table" then .inSelectInTable else .inSelect
        | none => .inSelect
      | "td" => if rest.isEmpty then modeFor s rest else .inCell
      | "th" => if rest.isEmpty then modeFor s rest else .inCell
      | "tr" => .inRow
      | "tbody" => .inTableBody
      | "thead" => .inTableBody
      | "tfoot" => .inTableBody
      | "caption" => .inCaption
      | "colgroup" => .inColumnGroup
      | "table" => .inTable
      | "template" => s.templateModes.headD .inTemplate
      | "head" => if rest.isEmpty then modeFor s rest else .inHead
      | "body" => .inBody
      | "frameset" => .inFrameset
      | "html" => if s.head.isNone then .beforeHead else .afterHead
      | _ => modeFor s rest

def State.fittingMode (s : State) : Mode := modeFor s s.opened

def resetMode : Building Unit := modify fun s => { s with mode := s.fittingMode }

def openTemplate (tag : Tag) : Building Outcome := do
  openTag tag
  addMarker
  modify fun s => { s with
    framesetAllowed := false, mode := .inTemplate, templateModes := .inTemplate :: s.templateModes }
  done

def leaveTemplate : Building Unit := do
  popNamed "template"
  clearToMarker
  modify fun s => { s with templateModes := s.templateModes.tail }
  resetMode

def closeTemplate : Building Outcome := do
  if ← isOpen "template" then
    popImplied Element.endsWithTemplate
    leaveTemplate
  done

/-- Elements that describe the document wherever they stand. -/
def headNames : List String :=
  ["base", "basefont", "bgsound", "link", "meta", "noframes", "script", "style", "template",
    "title"]

/-- An opening tag as content of the head; none if it has no place there. -/
def headTag? (tag : Tag) : Option (Building Outcome) :=
  if ["base", "basefont", "bgsound", "link", "meta"].contains tag.name then
    some do
      discard (putTag tag)
      done
  else if tag.name == "title" then some (openText tag (.references "title"))
  else if ["noframes", "style", "noscript"].contains tag.name then
    some (openText tag (.raw tag.name))
  else if tag.name == "script" then some (openText tag (.script .none))
  else if tag.name == "template" then some (openTemplate tag)
  else none

def inHead : Token → Building Outcome
  | .char c =>
    if isSpace c then do
      putChar c
      done
    else leave
  | .comment => do
    putComment
    done
  | .opening tag =>
    if tag.name == "html" then repeatHtml tag
    else if tag.name == "head" then done
    else (headTag? tag).getD leave
  | .closing name =>
    if name == "head" then do
      pop
      setMode .afterHead
      done
    else if name == "template" then closeTemplate
    else if opensContent name then leave
    else done
  | _ => leave
where
  leave : Building Outcome := do
    pop
    return .again .afterHead

/-- Head content behind the head goes into it all the same. -/
def reopenHead (content : Building Outcome) : Building Outcome := do
  match (← get).head with
  | none => content
  | some n =>
    push n
    let outcome ← content
    close n
    return outcome

def afterHead : Token → Building Outcome
  | .char c =>
    if isSpace c then do
      putChar c
      done
    else begin_
  | .comment => do
    putComment
    done
  | .opening tag =>
    if tag.name == "html" then repeatHtml tag
    else if tag.name == "body" then do
      openTag tag
      forbidFrameset
      setMode .inBody
      done
    else if tag.name == "frameset" then do
      openTag tag
      setMode .inFrameset
      done
    else if headNames.contains tag.name then reopenHead ((headTag? tag).getD done)
    else if tag.name == "head" then done
    else begin_
  | .closing name =>
    if name == "template" then closeTemplate
    else if opensContent name && name != "head" then begin_
    else done
  | _ => begin_
where
  begin_ : Building Outcome := do
    openNamed "body"
    return .again .inBody

end Nodecraft.Markup.Build
