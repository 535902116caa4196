import Nodecraft.Markup.Build.Foreign
import Nodecraft.Markup.Build.Head

/-!
Content of the body of a document.
-/

set_option autoImplicit false

namespace Nodecraft.Markup.Build

/-- Closes a paragraph, with what ends by itself in it. -/
def closeParagraph : Building Unit := do
  popImpliedExcept "p"
  popNamed "p"

/-- A block ends an open paragraph. -/
def endParagraph : Building Unit := do
  if ← namedInScope Element.endsButtonScope "p" then closeParagraph

/-- Closes an element with what ends by itself in it, if it is open. -/
def closeBlock (name : String) : Building Outcome := do
  if ← namedInScope Element.endsScope name then
    popImplied Element.endsByItself
    popNamed name
  done

def openBlock (tag : Tag) : Building Outcome := do
  endParagraph
  openTag tag
  done

def openInline (tag : Tag) : Building Outcome := do
  reconstruct
  openTag tag
  done

def putVoid (tag : Tag) : Building Outcome := do
  reconstruct
  discard (putTag tag)
  forbidFrameset
  done

def isHiddenInput (tag : Tag) : Bool :=
  (tag.attributes.lookup "type").any fun v => v.map Char.toLower == "hidden"

/-! ### Opening tags -/

def blockNames : List String :=
  ["address", "article", "aside", "blockquote", "center", "details", "dialog", "dir", "div", "dl",
    "fieldset", "figcaption", "figure", "footer", "header", "hgroup", "main", "menu", "nav", "ol",
    "p", "section", "summary", "ul"]

def formattingNames : List String :=
  ["b", "big", "code", "em", "font", "i", "s", "small", "strike", "strong", "tt", "u"]

/-- A second body adds its attributes to the first one. -/
def repeatBody (tag : Tag) : Building Outcome := do
  let s ← get
  match s.opened.reverse with
  | _ :: body :: _ =>
    if (s.arena.element body).named "body" && !(← isOpen "template") then
      forbidFrameset
      modifyArena fun a => a.addAttributes body tag.attributes
    done
  | _ => done

/-- Frames take the place of a body that is still empty. -/
def replaceBody (tag : Tag) : Building Outcome := do
  let s ← get
  if !s.framesetAllowed then done
  else match s.opened.reverse with
    | root :: body :: _ =>
      if (s.arena.element body).named "body" then
        modifyArena fun a => a.detach body
        modify fun s => { s with opened := [root] }
        openTag tag
        setMode .inFrameset
      done
    | _ => done

def openHeading (tag : Tag) : Building Outcome := do
  endParagraph
  if ← currentIs Element.isHeading then pop
  openTag tag
  done

def skipLineFeed : Building Unit := modify fun s => { s with skipsLineFeed := true }

def openPreformatted (tag : Tag) : Building Outcome := do
  endParagraph
  openTag tag
  skipLineFeed
  forbidFrameset
  done

/-- Forms do not nest. -/
def openForm (tag : Tag) : Building Outcome := do
  let inTemplate ← isOpen "template"
  if (← get).form.isSome && !inTemplate then done
  else
    endParagraph
    let n ← openElement ⟨.html, tag.name, tag.attributes⟩
    if !inTemplate then modify fun s => { s with form := some n }
    done

/-- An item ends the item before it. -/
def openItem (tag : Tag) (siblings : List String) : Building Outcome := do
  forbidFrameset
  let s ← get
  match s.opened.find? fun n =>
      let e := s.arena.element n; e.oneOf siblings || e.isListBarrier with
  | some n =>
    let e := s.arena.element n
    if e.oneOf siblings then
      popImpliedExcept e.name
      popNamed e.name
  | none => pure ()
  openBlock tag

def openPlain (tag : Tag) : Building Outcome := do
  endParagraph
  openTag tag
  return .reads .plain

def openButton (tag : Tag) : Building Outcome := do
  if ← namedInScope Element.endsScope "button" then
    popImplied Element.endsByItself
    popNamed "button"
  reconstruct
  openTag tag
  forbidFrameset
  done

def openUnbroken (tag : Tag) : Building Outcome := do
  reconstruct
  if ← namedInScope Element.endsScope "nobr" then
    closeFormatting "nobr"
    reconstruct
  openFormatting tag
  done

def openObject (tag : Tag) : Building Outcome := do
  reconstruct
  openTag tag
  addMarker
  forbidFrameset
  done

/-- Where no document type asks for it, a table does not end a paragraph. -/
def openTable (tag : Tag) : Building Outcome := do
  if !(← get).lenient then endParagraph
  openTag tag
  forbidFrameset
  setMode .inTable
  done

def openSelect (tag : Tag) : Building Outcome := do
  reconstruct
  openTag tag
  forbidFrameset
  modify fun s => { s with
    mode := if [.inTable, .inCaption, .inTableBody, .inRow, .inCell].contains s.mode
      then .inSelectInTable else .inSelect }
  done

def openOption (tag : Tag) : Building Outcome := do
  if ← currentNamed "option" then pop
  openInline tag

/-- Annotations of a text end those before them. -/
def openRuby (tag : Tag) (implied : Element → Bool) : Building Outcome := do
  if ← namedInScope Element.endsScope "ruby" then popImplied implied
  openTag tag
  done

def openForeign (space : Space) (tag : Tag) : Building Outcome := do
  putForeign space tag
  done

def openingInBody (tag : Tag) : Building Outcome := do
  let name := tag.name
  if name == "html" then repeatHtml tag
  else if headNames.contains name then (headTag? tag).getD done
  else if blockNames.contains name then openBlock tag
  else if formattingNames.contains name then
    reconstruct
    openFormatting tag
    done
  else match name with
    | "body" => repeatBody tag
    | "frameset" => replaceBody tag
    | "h1" | "h2" | "h3" | "h4" | "h5" | "h6" => openHeading tag
    | "pre" | "listing" => openPreformatted tag
    | "form" => openForm tag
    | "li" => openItem tag ["li"]
    | "dd" | "dt" => openItem tag ["dd", "dt"]
    | "plaintext" => openPlain tag
    | "button" => openButton tag
    | "a" =>
      closeLink
      reconstruct
      openFormatting tag
      done
    | "nobr" => openUnbroken tag
    | "applet" | "marquee" | "object" => openObject tag
    | "table" => openTable tag
    | "area" | "br" | "embed" | "img" | "keygen" | "wbr" => putVoid tag
    | "image" => putVoid { tag with name := "img" }
    | "input" =>
      reconstruct
      discard (putTag tag)
      if !isHiddenInput tag then forbidFrameset
      done
    | "param" | "source" | "track" =>
      discard (putTag tag)
      done
    | "hr" =>
      endParagraph
      discard (putTag tag)
      forbidFrameset
      done
    | "textarea" =>
      skipLineFeed
      forbidFrameset
      openText tag (.references "textarea")
    | "xmp" =>
      endParagraph
      reconstruct
      forbidFrameset
      openText tag (.raw "xmp")
    | "iframe" =>
      forbidFrameset
      openText tag (.raw "iframe")
    | "noembed" | "noscript" => openText tag (.raw name)
    | "select" => openSelect tag
    | "optgroup" | "option" => openOption tag
    | "rb" | "rtc" => openRuby tag Element.endsByItself
    | "rp" | "rt" => openRuby tag fun e => e.endsByItself && !e.named "rtc"
    | "math" => openForeign .mathml tag
    | "svg" => openForeign .svg tag
    | "caption" | "col" | "colgroup" | "frame" | "head" | "tbody" | "td" | "tfoot" | "th"
    | "thead" | "tr" => done
    | _ => openInline tag

/-! ### Closing tags -/

def closedBlockNames : List String :=
  ["address", "article", "aside", "blockquote", "button", "center", "details", "dialog", "dir",
    "div", "dl", "fieldset", "figcaption", "figure", "footer", "header", "hgroup", "listing",
    "main", "menu", "nav", "ol", "pre", "section", "summary", "ul"]

def closeForm : Building Outcome := do
  if ← isOpen "template" then closeBlock "form"
  else
    let s ← get
    modify fun s => { s with form := none }
    match s.form with
    | none => done
    | some n =>
      if inScopeOf s.arena Element.endsScope (· == n) s.opened then
        popImplied Element.endsByItself
        close n
      done

def closeItem (name : String) (ends : Element → Bool) : Building Outcome := do
  if ← namedInScope ends name then
    popImpliedExcept name
    popNamed name
  done

def closeHeading : Building Outcome := do
  if ← inScope Element.endsScope Element.isHeading then
    popImplied Element.endsByItself
    popThrough Element.isHeading
  done

def closeObject (name : String) : Building Outcome := do
  if ← namedInScope Element.endsScope name then
    popImplied Element.endsByItself
    popNamed name
    clearToMarker
  done

def closingInBody (name : String) : Building Outcome := do
  if closedBlockNames.contains name then closeBlock name
  else if formattingNames.contains name then
    closeFormatting name
    done
  else match name with
    | "template" => closeTemplate
    | "body" =>
      if ← namedInScope Element.endsScope "body" then setMode .afterBody
      done
    | "html" =>
      if ← namedInScope Element.endsScope "body" then return .again .afterBody
      done
    | "form" => closeForm
    | "p" =>
      if !(← namedInScope Element.endsButtonScope "p") then openNamed "p"
      closeParagraph
      done
    | "li" => closeItem "li" Element.endsListScope
    | "dd" | "dt" => closeItem name Element.endsScope
    | "h1" | "h2" | "h3" | "h4" | "h5" | "h6" => closeHeading
    | "a" | "nobr" =>
      closeFormatting name
      done
    | "applet" | "marquee" | "object" => closeObject name
    | "br" => putVoid ⟨"br", [], false⟩
    | _ =>
      closeAny name
      done

/-- Null characters are left out. -/
def charInBody (c : Char) : Building Outcome := do
  if c == '\x00' then done
  else
    reconstruct
    if !isSpace c then forbidFrameset
    putChar c
    done

/-- The end of the text ends open templates. -/
def endOfText : Building Outcome := do
  if (← get).templateModes.isEmpty || !(← isOpen "template") then done
  else
    leaveTemplate
    return .again (← get).mode

def inBody : Token → Building Outcome
  | .char c => charInBody c
  | .comment => do
    putComment
    done
  | .opening tag => openingInBody tag
  | .closing name => closingInBody name
  | .eof => endOfText
  | .doctype _ => done

/-- Text of an element that holds nothing else. -/
def inText : Token → Building Outcome
  | .char c => do
    putChar c
    done
  | .closing _ => do
    pop
    setMode (← get).returnMode
    done
  | _ => do
    pop
    return .again (← get).returnMode

end Nodecraft.Markup.Build
