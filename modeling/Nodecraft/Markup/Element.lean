/-!
Elements of a document and the classes they fall into. The classes are of HTML elements, unless
they say otherwise.
-/

set_option autoImplicit false

namespace Nodecraft.Markup

/-- The vocabularies elements come from. -/
inductive Space
  | html
  | svg
  | mathml
  deriving DecidableEq, Repr, Inhabited

structure Element where
  space : Space
  name : String
  attributes : List (String × String)
  deriving DecidableEq, Repr, Inhabited

namespace Element

def isHtml (e : Element) : Bool := e.space == .html

def named (name : String) (e : Element) : Bool := e.isHtml && e.name == name

def oneOf (names : List String) (e : Element) : Bool := e.isHtml && names.contains e.name

def attribute? (e : Element) (name : String) : Option String := e.attributes.lookup name

/-- MathML elements whose content is text of the surrounding language. -/
def holdsMathText (e : Element) : Bool :=
  e.space == .mathml && ["mi", "mo", "mn", "ms", "mtext"].contains e.name

/-- SVG elements whose content is HTML. -/
def holdsHtml (e : Element) : Bool :=
  e.space == .svg && ["foreignObject", "desc", "title"].contains e.name

/-- An annotation of a formula. -/
def isAnnotation (e : Element) : Bool := e.space == .mathml && e.name == "annotation-xml"

/-- Whether an annotation is written in HTML. -/
def isHtmlAnnotation (e : Element) : Bool :=
  e.isAnnotation && (e.attribute? "encoding").any fun v =>
    ["text/html", "application/xhtml+xml"].contains (v.map Char.toLower)

/-! ### Scopes -/

def endsScope (e : Element) : Bool :=
  e.oneOf ["applet", "caption", "html", "table", "td", "th", "marquee", "object", "template"] ||
    e.holdsMathText || e.holdsHtml

def endsListScope (e : Element) : Bool := e.endsScope || e.oneOf ["ol", "ul"]

def endsButtonScope (e : Element) : Bool := e.endsScope || e.named "button"

def endsTableScope (e : Element) : Bool := e.oneOf ["html", "table", "template"]

def endsSelectScope (e : Element) : Bool := !e.oneOf ["optgroup", "option"]

/-! ### Classes -/

def isHeading (e : Element) : Bool := e.oneOf ["h1", "h2", "h3", "h4", "h5", "h6"]

def isCell (e : Element) : Bool := e.oneOf ["td", "th"]

def isTableSection (e : Element) : Bool := e.oneOf ["tbody", "tfoot", "thead"]

/-- Elements between which text has no place. -/
def isTablePart (e : Element) : Bool := e.oneOf ["table", "tbody", "tfoot", "thead", "tr"]

/-- Elements that other elements close without being told to. -/
def endsByItself (e : Element) : Bool :=
  e.oneOf ["dd", "dt", "li", "option", "optgroup", "p", "rb", "rp", "rt", "rtc"]

def endsWithTemplate (e : Element) : Bool :=
  e.endsByItself ||
    e.oneOf ["caption", "colgroup", "tbody", "td", "tfoot", "th", "thead", "tr"]

/-- Elements with rules of their own. -/
def specialNames : List String :=
  ["address", "applet", "area", "article", "aside", "base", "basefont", "bgsound", "blockquote",
    "body", "br", "button", "caption", "center", "col", "colgroup", "dd", "details", "dir", "div",
    "dl", "dt", "embed", "fieldset", "figcaption", "figure", "footer", "form", "frame",
    "frameset", "h1", "h2", "h3", "h4", "h5", "h6", "head", "header", "hgroup", "hr", "html",
    "iframe", "img", "input", "isindex", "li", "link", "listing", "main", "marquee", "menu",
    "meta", "nav", "noembed", "noframes", "noscript", "object", "ol", "p", "param", "plaintext",
    "pre", "script", "section", "select", "source", "style", "summary", "table", "tbody", "td",
    "template", "textarea", "tfoot", "th", "thead", "title", "tr", "track", "ul", "wbr", "xmp"]

def isSpecial (e : Element) : Bool := e.oneOf specialNames

/-- Special elements that a list item does not look through. -/
def isListBarrier (e : Element) : Bool := e.isSpecial && !e.oneOf ["address", "div", "p"]

end Element

end Nodecraft.Markup
