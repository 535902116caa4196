import Nodecraft.Markup.Build.Table

/-!
Content of selections, templates and frames, and what stands behind the body.
-/

set_option autoImplicit false

namespace Nodecraft.Markup.Build

/-! ### Selections -/

def openingInSelect (tag : Tag) : Building Outcome := do
  match tag.name with
  | "html" => repeatHtml tag
  | "option" =>
    if ← currentNamed "option" then pop
    openTag tag
    done
  | "optgroup" =>
    if ← currentNamed "option" then pop
    if ← currentNamed "optgroup" then pop
    openTag tag
    done
  | "select" =>
    if ← namedInScope Element.endsSelectScope "select" then
      popNamed "select"
      resetMode
    done
  | "input" | "keygen" | "textarea" =>
    if ← namedInScope Element.endsSelectScope "select" then
      popNamed "select"
      return .again (← get).fittingMode
    else done
  | "script" | "template" => (headTag? tag).getD done
  | _ => done

/-- Closing a group closes an option right in it. -/
def closeGroup : Building Outcome := do
  let s ← get
  match s.opened with
  | n :: m :: _ =>
    if (s.arena.element n).named "option" && (s.arena.element m).named "optgroup" then pop
  | _ => pure ()
  if ← currentNamed "optgroup" then pop
  done

def closingInSelect (name : String) : Building Outcome := do
  match name with
  | "optgroup" => closeGroup
  | "option" =>
    if ← currentNamed "option" then pop
    done
  | "select" =>
    if ← namedInScope Element.endsSelectScope "select" then
      popNamed "select"
      resetMode
    done
  | "template" => closeTemplate
  | _ => done

def inSelect : Token → Building Outcome
  | .char c => do
    if c != '\x00' then putChar c
    done
  | .comment => do
    putComment
    done
  | .opening tag => openingInSelect tag
  | .closing name => closingInSelect name
  | .eof => endOfText
  | .doctype _ => done

def isOuterPart (name : String) : Bool :=
  ["caption", "table", "tbody", "tfoot", "thead", "tr", "td", "th"].contains name

/-- Parts of the surrounding table end a selection. -/
def inSelectInTable (t : Token) : Building Outcome := do
  match t with
  | .opening tag => if isOuterPart tag.name then leave else inSelect t
  | .closing name =>
    if isOuterPart name then
      if ← namedInScope Element.endsTableScope name then leave else done
    else inSelect t
  | t => inSelect t
where
  leave : Building Outcome := do
    popNamed "select"
    return .again (← get).fittingMode

/-! ### Templates -/

/-- The mode that a template's content calls for. -/
def templateMode (name : String) : Mode :=
  match name with
  | "caption" | "colgroup" | "tbody" | "tfoot" | "thead" => .inTable
  | "col" => .inColumnGroup
  | "tr" => .inTableBody
  | "td" | "th" => .inRow
  | _ => .inBody

def inTemplate (t : Token) : Building Outcome := do
  match t with
  | .char _ => inBody t
  | .comment => inBody t
  | .opening tag =>
    if headNames.contains tag.name then (headTag? tag).getD done
    else
      let mode := templateMode tag.name
      modify fun s => { s with templateModes := mode :: s.templateModes.tail }
      return .again mode
  | .closing name => if name == "template" then closeTemplate else done
  | .eof => endOfText
  | .doctype _ => done

/-! ### Behind the body -/

def afterBody (t : Token) : Building Outcome := do
  match t with
  | .char c => if isSpace c then inBody t else return .again .inBody
  | .comment =>
    putLastComment
    done
  | .opening tag => if tag.name == "html" then repeatHtml tag else return .again .inBody
  | .closing name =>
    if name == "html" then
      setMode .afterAfterBody
      done
    else return .again .inBody
  | _ => done

def afterAfterBody (t : Token) : Building Outcome := do
  match t with
  | .char c => if isSpace c then inBody t else return .again .inBody
  | .comment =>
    putOuterComment
    done
  | .opening tag => if tag.name == "html" then repeatHtml tag else return .again .inBody
  | .closing _ => return .again .inBody
  | _ => done

/-! ### Frames -/

/-- Frames hold no text but white space. -/
def putSpace (c : Char) : Building Outcome := do
  if isSpace c then putChar c
  done

def inFrameset (t : Token) : Building Outcome := do
  match t with
  | .char c => putSpace c
  | .comment =>
    putComment
    done
  | .opening tag =>
    match tag.name with
    | "html" => repeatHtml tag
    | "frameset" =>
      openTag tag
      done
    | "frame" =>
      discard (putTag tag)
      done
    | "noframes" => openText tag (.raw "noframes")
    | _ => done
  | .closing name =>
    if name == "frameset" && 1 < (← get).opened.length then
      pop
      if !(← currentNamed "frameset") then setMode .afterFrameset
    done
  | _ => done

def afterFrameset (t : Token) : Building Outcome := do
  match t with
  | .char c => putSpace c
  | .comment =>
    putComment
    done
  | .opening tag =>
    if tag.name == "html" then repeatHtml tag
    else if tag.name == "noframes" then openText tag (.raw "noframes")
    else done
  | .closing name =>
    if name == "html" then setMode .afterAfterFrameset
    done
  | _ => done

def afterAfterFrameset (t : Token) : Building Outcome := do
  match t with
  | .char c => if isSpace c then inBody t else done
  | .comment =>
    putOuterComment
    done
  | .opening tag =>
    if tag.name == "html" then repeatHtml tag
    else if tag.name == "noframes" then openText tag (.raw "noframes")
    else done
  | _ => done

end Nodecraft.Markup.Build
