import Nodecraft.Markup.Build.State

/-!
Elements of SVG and MathML. Their names are lowered by the lexical grammar, so that the proper
spelling is restored here.
-/

set_option autoImplicit false

namespace Nodecraft.Markup.Build

def svgElementNames : List String :=
  ["altGlyph", "altGlyphDef", "altGlyphItem", "animateColor", "animateMotion", "animateTransform",
    "clipPath", "feBlend", "feColorMatrix", "feComponentTransfer", "feComposite",
    "feConvolveMatrix", "feDiffuseLighting", "feDisplacementMap", "feDistantLight",
    "feDropShadow", "feFlood", "feFuncA", "feFuncB", "feFuncG", "feFuncR", "feGaussianBlur",
    "feImage", "feMerge", "feMergeNode", "feMorphology", "feOffset", "fePointLight",
    "feSpecularLighting", "feSpotLight", "feTile", "feTurbulence", "foreignObject", "glyphRef",
    "linearGradient", "radialGradient", "textPath"]

def svgAttributeNames : List String :=
  ["attributeName", "attributeType", "baseFrequency", "baseProfile", "calcMode", "clipPathUnits",
    "diffuseConstant", "edgeMode", "filterUnits", "glyphRef", "gradientTransform",
    "gradientUnits", "kernelMatrix", "kernelUnitLength", "keyPoints", "keySplines", "keyTimes",
    "lengthAdjust", "limitingConeAngle", "markerHeight", "markerUnits", "markerWidth",
    "maskContentUnits", "maskUnits", "numOctaves", "pathLength", "patternContentUnits",
    "patternTransform", "patternUnits", "pointsAtX", "pointsAtY", "pointsAtZ", "preserveAlpha",
    "preserveAspectRatio", "primitiveUnits", "refX", "refY", "repeatCount", "repeatDur",
    "requiredExtensions", "requiredFeatures", "specularConstant", "specularExponent",
    "spreadMethod", "startOffset", "stdDeviation", "stitchTiles", "surfaceScale",
    "systemLanguage", "tableValues", "targetX", "targetY", "textLength", "viewBox", "viewTarget",
    "xChannelSelector", "yChannelSelector", "zoomAndPan"]

/-- The listed spelling of a name, if there is one. -/
def respelled (names : List String) (name : String) : String :=
  (names.find? fun n => n.map Char.toLower == name).getD name

/-- Attributes of another vocabulary, with their names within it. -/
def linkedAttributes : List (String × String) :=
  [("xlink:actuate", "actuate"), ("xlink:arcrole", "arcrole"), ("xlink:href", "href"),
    ("xlink:role", "role"), ("xlink:show", "show"), ("xlink:title", "title"),
    ("xlink:type", "type"), ("xml:lang", "lang"), ("xml:space", "space"),
    ("xmlns:xlink", "xlink")]

def foreignAttribute (space : Space) (name : String) : String :=
  let name := match space with
    | .svg => respelled svgAttributeNames name
    | .mathml => respelled ["definitionURL"] name
    | .html => name
  (linkedAttributes.lookup name).getD name

/-- Puts an element of another vocabulary in place. -/
def putForeign (space : Space) (tag : Tag) : Building Unit := do
  let attributes := tag.attributes.map fun (k, v) => (foreignAttribute space k, v)
  let n ← newElement ⟨space, tag.name, attributes⟩
  put n
  if !tag.selfClosing then push n

end Nodecraft.Markup.Build
