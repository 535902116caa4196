import Nodecraft.Template.Fault
import Nodecraft.Text.Letters
import Nodecraft.Text.Search

/-!
Interpolations in markup. Markup is read with placeholders in their place, so that what they hold
is not taken for markup.
-/

set_option autoImplicit false

namespace Nodecraft.Template

/-- The beginning of a text, to be shown in a message: its first line, shortened. -/
def excerpt (cs : List Char) : String :=
  let line := cs.takeWhile (· != '\n')
  let line := if line.length < cs.length && line.getLast? == some '\r' then line.dropLast else line
  if 40 < line.length then (String.ofList (line.take 40)).push '…' else String.ofList line

/-- The text without comments; the fuel bounds its characters. -/
def dropComments : Nat → List Char → List Char
  | 0, cs => cs
  | _, [] => []
  | fuel + 1, c :: cs =>
    match (Text.dropKnown? "<!--".toList (c :: cs)).bind (Text.cut? "-->".toList) with
    | some (_, rest) => dropComments fuel rest
    | none => c :: dropComments fuel cs

def withoutComments (cs : List Char) : List Char := dropComments cs.length cs

def placeholderStart : List Char := "__NODE_EXPR_".toList

def placeholderEnd : List Char := "__".toList

def placeholder (index : Nat) : List Char :=
  placeholderStart ++ (toString index).toList ++ placeholderEnd

/-- The text with placeholders for interpolations, and what the interpolations hold. -/
def takeInterpolations : Nat → Nat → List Char → Except Fault (List Char × List String)
  | 0, _, cs => .ok (cs, [])
  | fuel + 1, index, cs =>
    match Text.cut? ['\x7b', '\x7b'] cs with
    | none => .ok (cs, [])
    | some (before, inner) =>
      match Text.cut? ['\x7d', '\x7d'] inner with
      | none => .error (.unterminated (excerpt ('\x7b' :: '\x7b' :: inner)))
      | some (source, rest) => do
        let (after, sources) ← takeInterpolations fuel (index + 1) rest
        return (before ++ placeholder index ++ after, String.ofList source :: sources)

def interpolations (cs : List Char) : Except Fault (List Char × List String) :=
  takeInterpolations cs.length 0 cs

/-! ### Placeholders -/

/-- A stretch of text, or a placeholder by its digits. -/
inductive Segment
  | text (cs : List Char)
  | placeholder (digits : List Char)
  deriving DecidableEq, Repr, Inhabited

/-- The digits of a placeholder at the head of a text, and what follows it. -/
def placeholderAt? (cs : List Char) : Option (List Char × List Char) := do
  let rest ← Text.dropKnown? placeholderStart cs
  let digits := rest.takeWhile Text.isDecimalDigit
  guard !digits.isEmpty
  return (digits, ← Text.dropKnown? placeholderEnd (rest.dropWhile Text.isDecimalDigit))

def addText (c : Char) : List Segment → List Segment
  | .text cs :: rest => .text (c :: cs) :: rest
  | rest => .text [c] :: rest

def segmentsWithin : Nat → List Char → List Segment
  | 0, _ => []
  | _, [] => []
  | fuel + 1, c :: cs =>
    match placeholderAt? (c :: cs) with
    | some (digits, rest) => .placeholder digits :: segmentsWithin fuel rest
    | none => addText c (segmentsWithin fuel cs)

/-- A text as stretches of text and placeholders between them. -/
def segments (s : String) : List Segment := segmentsWithin s.length s.toList

/-- What the interpolation behind a placeholder holds. -/
def source? (sources : List String) (digits : List Char) : Option String :=
  if digits.all Char.isDigit then sources[Number.digitsValue 10 digits]? else none

/-- A text with the interpolations that its placeholders stand for. -/
def restored (sources : List String) (s : String) : String :=
  String.join ((segments s).map fun
    | .text cs => String.ofList cs
    | .placeholder digits =>
      match source? sources digits with
      | some source => "\x7b\x7b" ++ source ++ "\x7d\x7d"
      | none => String.ofList (placeholderStart ++ digits ++ placeholderEnd))

end Nodecraft.Template
