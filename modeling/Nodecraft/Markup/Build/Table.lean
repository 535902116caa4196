import Nodecraft.Markup.Build.Body

/-!
Content of tables. What has no place in a table goes before it.
-/

set_option autoImplicit false

namespace Nodecraft.Markup.Build

/-- Processes a token as in a body, with new content before the table. -/
def foster (t : Token) : Building Outcome := do
  modify fun s => { s with fostering := true }
  let outcome ← inBody t
  modify fun s => { s with fostering := false }
  return outcome

def isTableRoot (e : Element) : Bool := e.endsTableScope

def isSectionRoot (e : Element) : Bool := e.isTableSection || e.oneOf ["template", "html"]

def isRowRoot (e : Element) : Bool := e.oneOf ["tr", "template", "html"]

/-- Text right in a table is collected before it is placed. -/
def charInTable (c : Char) : Building Outcome := do
  if ← currentIs Element.isTablePart then
    modify fun s => { s with returnMode := s.mode }
    return .again .inTableText
  else foster (.char c)

def openTablePart (tag : Tag) (mode : Mode) : Building Outcome := do
  popTo isTableRoot
  openTag tag
  setMode mode
  done

def closeTable : Building Outcome := do
  if ← namedInScope Element.endsTableScope "table" then
    popNamed "table"
    resetMode
  done

def openingInTable (tag : Tag) : Building Outcome := do
  match tag.name with
  | "caption" =>
    popTo isTableRoot
    addMarker
    openTag tag
    setMode .inCaption
    done
  | "colgroup" => openTablePart tag .inColumnGroup
  | "col" =>
    popTo isTableRoot
    openNamed "colgroup"
    return .again .inColumnGroup
  | "tbody" | "tfoot" | "thead" => openTablePart tag .inTableBody
  | "td" | "th" | "tr" =>
    popTo isTableRoot
    openNamed "tbody"
    return .again .inTableBody
  | "table" =>
    if ← namedInScope Element.endsTableScope "table" then
      popNamed "table"
      return .again (← get).fittingMode
    else done
  | "style" | "script" | "template" => (headTag? tag).getD done
  | "input" =>
    if isHiddenInput tag then
      discard (putTag tag)
      done
    else foster (.opening tag)
  | "form" =>
    if !(← isOpen "template") && (← get).form.isNone then
      let n ← putTag tag
      modify fun s => { s with form := some n }
    done
  | _ => foster (.opening tag)

def closingInTable (name : String) : Building Outcome := do
  match name with
  | "table" => closeTable
  | "body" | "caption" | "col" | "colgroup" | "html" | "tbody" | "td" | "tfoot" | "th" | "thead"
  | "tr" => done
  | "template" => closeTemplate
  | _ => foster (.closing name)

def inTable : Token → Building Outcome
  | .char c => charInTable c
  | .comment => do
    putComment
    done
  | .opening tag => openingInTable tag
  | .closing name => closingInTable name
  | .eof => endOfText
  | .doctype _ => done

def putChars : List Char → Building Unit
  | [] => return
  | c :: cs => do
    putChar c
    putChars cs

def fosterChars : List Char → Building Unit
  | [] => return
  | c :: cs => do
    discard (foster (.char c))
    fosterChars cs

/-- White space stays in a table; other text goes before it. -/
def inTableText : Token → Building Outcome
  | .char c => do
    if c != '\x00' then modify fun s => { s with tableText := s.tableText ++ [c] }
    done
  | _ => do
    let text := (← get).tableText
    modify fun s => { s with tableText := [] }
    if text.all isSpace then putChars text else fosterChars text
    return .again (← get).returnMode

/-- Closes the caption; whether there was one. -/
def closeCaption : Building Bool := do
  if ← namedInScope Element.endsTableScope "caption" then
    popImplied Element.endsByItself
    popNamed "caption"
    clearToMarker
    return true
  else return false

def tablePartNames : List String :=
  ["caption", "col", "colgroup", "tbody", "td", "tfoot", "th", "thead", "tr"]

def inCaption (t : Token) : Building Outcome := do
  let ends := match t with
    | .opening tag => tablePartNames.contains tag.name
    | .closing name => name == "table" || name == "caption"
    | _ => false
  if ends then
    if !(← closeCaption) then done
    else if t == .closing "caption" then
      setMode .inTable
      done
    else return .again .inTable
  else match t with
    | .closing name =>
      if ["body", "col", "colgroup", "html", "tbody", "td", "tfoot", "th", "thead",
        "tr"].contains name then done
      else inBody t
    | t => inBody t

def inColumnGroup : Token → Building Outcome
  | .char c =>
    if isSpace c then do
      putChar c
      done
    else leave
  | .comment => do
    putComment
    done
  | .opening tag =>
    if tag.name == "html" then repeatHtml tag
    else if tag.name == "col" then do
      discard (putTag tag)
      done
    else if tag.name == "template" then openTemplate tag
    else leave
  | .closing name =>
    if name == "colgroup" then do
      if ← currentNamed "colgroup" then
        pop
        setMode .inTable
      done
    else if name == "col" then done
    else if name == "template" then closeTemplate
    else leave
  | .eof => endOfText
  | .doctype _ => done
where
  leave : Building Outcome := do
    if ← currentNamed "colgroup" then
      pop
      return .again .inTable
    else done

/-- Closes the section of a table that is open. -/
def closeSection : Building Unit := do
  popTo isSectionRoot
  pop

def inTableBody (t : Token) : Building Outcome := do
  let leaves := match t with
    | .opening tag => ["caption", "col", "colgroup", "tbody", "tfoot", "thead"].contains tag.name
    | .closing name => name == "table"
    | _ => false
  if leaves then
    if ← inScope Element.endsTableScope (Element.oneOf ["table", "tbody", "tfoot"]) then
      closeSection
      return .again .inTable
    else done
  else match t with
    | .opening tag =>
      if tag.name == "tr" then
        popTo isSectionRoot
        openTag tag
        setMode .inRow
        done
      else if tag.name == "th" || tag.name == "td" then
        popTo isSectionRoot
        openNamed "tr"
        return .again .inRow
      else inTable t
    | .closing name =>
      if ["tbody", "tfoot", "thead"].contains name then
        if ← namedInScope Element.endsTableScope name then
          closeSection
          setMode .inTable
        done
      else if ["body", "caption", "col", "colgroup", "html", "td", "th", "tr"].contains name then
        done
      else inTable t
    | t => inTable t

/-- Closes the row that is open; whether there was one. -/
def closeRow : Building Bool := do
  if ← namedInScope Element.endsTableScope "tr" then
    popTo isRowRoot
    pop
    return true
  else return false

def leaveRow : Building Outcome := do
  if ← closeRow then return .again .inTableBody else done

def inRow (t : Token) : Building Outcome := do
  match t with
  | .opening tag =>
    if tag.name == "th" || tag.name == "td" then
      popTo isRowRoot
      openTag tag
      setMode .inCell
      addMarker
      done
    else if ["caption", "col", "colgroup", "tbody", "tfoot", "thead", "tr"].contains tag.name then
      leaveRow
    else inTable t
  | .closing name =>
    if name == "tr" then
      if ← closeRow then setMode .inTableBody
      done
    else if name == "table" then leaveRow
    else if ["tbody", "tfoot", "thead"].contains name then
      if ← namedInScope Element.endsTableScope name then leaveRow else done
    else if ["body", "caption", "col", "colgroup", "html", "td", "th"].contains name then done
    else inTable t
  | t => inTable t

def closeCell : Building Unit := do
  popImplied Element.endsByItself
  popThrough Element.isCell
  clearToMarker

def inCell (t : Token) : Building Outcome := do
  match t with
  | .opening tag =>
    if tablePartNames.contains tag.name then
      if ← inScope Element.endsTableScope Element.isCell then
        closeCell
        return .again .inRow
      else done
    else inBody t
  | .closing name =>
    if name == "td" || name == "th" then
      if ← namedInScope Element.endsTableScope name then
        popImplied Element.endsByItself
        popNamed name
        clearToMarker
        setMode .inRow
      done
    else if ["body", "caption", "col", "colgroup", "html"].contains name then done
    else if ["table", "tbody", "tfoot", "thead", "tr"].contains name then
      if ← namedInScope Element.endsTableScope name then
        closeCell
        return .again .inRow
      else done
    else inBody t
  | t => inBody t

end Nodecraft.Markup.Build
