import Nodecraft.Script.Token
import Nodecraft.Number.Reading

/-!
Reading one token from the head of a script. Whether a slash starts a regular expression and a
closing brace resumes template text is for the caller to say.
-/

set_option autoImplicit false

namespace Nodecraft.Script.Lexer

def isSpace (c : Char) : Bool :=
  c == ' ' || c == '\t' || c == '\x0b' || c == '\x0c' || c == '\u00A0' || c == '\uFEFF' ||
    c == '\u1680' || ('\u2000' ≤ c && c ≤ '\u200A') || c == '\u202F' || c == '\u205F' ||
    c == '\u3000'

def isLineEnd (c : Char) : Bool := c == '\n' || c == '\r' || c == '\u2028' || c == '\u2029'

inductive Gap
  | blank
  | lineComment
  | blockComment

/-- Skips blanks and comments, noting line ends; none if a comment is left open. -/
def skipGap? (newLine : Bool) : Gap → List Char → Option (Bool × List Char)
  | .blockComment, [] => none
  | _, [] => some (newLine, [])
  | .blank, '/' :: '/' :: rest => skipGap? newLine .lineComment rest
  | .blank, '/' :: '*' :: rest => skipGap? newLine .blockComment rest
  | .blank, c :: rest =>
    if isLineEnd c then skipGap? true .blank rest
    else if isSpace c then skipGap? newLine .blank rest
    else some (newLine, c :: rest)
  | .lineComment, c :: rest =>
    if isLineEnd c then skipGap? true .blank rest else skipGap? newLine .lineComment rest
  | .blockComment, '*' :: '/' :: rest => skipGap? newLine .blank rest
  | .blockComment, c :: rest => skipGap? (newLine || isLineEnd c) .blockComment rest

/-- What is left without a first line that says what runs the script. -/
def afterHashbang : List Char → List Char
  | '#' :: '!' :: rest => rest.dropWhile fun c => !isLineEnd c
  | cs => cs

def isHexDigit (c : Char) : Bool := Number.isDigitIn 16 c

/-- The code point of an escape after its `u`. -/
def codePoint? : List Char → Option (Nat × List Char)
  | '\x7b' :: rest =>
    let ds := rest.takeWhile isHexDigit
    match rest.dropWhile isHexDigit with
    | '\x7d' :: rest =>
      let n := Number.digitsValue 16 ds
      if ds.isEmpty || n > 0x10FFFF then none else some (n, rest)
    | _ => none
  | a :: b :: c :: d :: rest =>
    if [a, b, c, d].all isHexDigit then some (Number.digitsValue 16 [a, b, c, d], rest) else none
  | _ => none

/-! ### Names -/

/-- The characters of a name, escapes resolved; `accept` says which may come next. -/
def nameChars? : Nat → Bool → List Char → Option (List Char × Bool × List Char)
  | 0, _, _ => none
  | fuel + 1, first, cs =>
    let accept := if first then Text.isIdentifierStart else Text.isIdentifierPart
    match cs with
    | '\\' :: 'u' :: rest =>
      match codePoint? rest with
      | some (n, rest) =>
        let c := Char.ofNat n
        if c.toNat = n && accept c then
          (nameChars? fuel false rest).map fun (more, _, rest) => (c :: more, true, rest)
        else none
      | none => none
    | '\\' :: _ => none
    | c :: rest =>
      if accept c then
        (nameChars? fuel false rest).map fun (more, escaped, rest) => (c :: more, escaped, rest)
      else if first then none
      else some ([], false, cs)
    | [] => if first then none else some ([], false, [])

def escapedName? (cs : List Char) : Option (String × Bool × List Char) :=
  (nameChars? (cs.length + 1) true cs).map fun (text, escaped, rest) =>
    (String.ofList text, escaped, rest)

/-- A name with whether it is written with an escape. -/
def name? (cs : List Char) : Option (String × Bool × List Char) :=
  match cs with
  | [] => none
  | c :: rest =>
    if Text.isIdentifierStart c then
      match rest.dropWhile Text.isIdentifierPart with
      | '\\' :: _ => escapedName? cs
      | after => some (String.ofList (c :: rest.takeWhile Text.isIdentifierPart), false, after)
    else if c = '\\' then escapedName? cs
    else none

/-! ### Numbers -/

/-- Digits with single separators between them. -/
def digits? (base : Nat) (cs : List Char) : Option (List Char × List Char) :=
  let part (c : Char) := Number.isDigitIn base c || c == '_'
  let run := cs.takeWhile part
  if run.isEmpty then some ([], cs)
  else if run.head? == some '_' || run.getLast? == some '_' || doubled run then none
  else some (run.filter (· != '_'), cs.dropWhile part)
where
  doubled : List Char → Bool
    | '_' :: '_' :: _ => true
    | _ :: rest => doubled rest
    | [] => false

/-- No name or digit may follow a number directly. -/
def endNumber? (token : Token) (rest : List Char) : Option (Token × List Char) :=
  match rest with
  | c :: _ =>
    if Text.isIdentifierStart c || c.isDigit || c == '\\' then none else some (token, rest)
  | [] => some (token, [])

def exponent? (cs : List Char) : Option (Int × List Char) :=
  match cs with
  | e :: rest =>
    if e = 'e' ∨ e = 'E' then do
      let (negative, body) := Number.splitSign rest
      let (ds, rest) ← digits? 10 body
      guard !ds.isEmpty
      let n : Int := Number.digitsValue 10 ds
      return (if negative then -n else n, rest)
    else some (0, cs)
  | [] => some (0, [])

/-- What follows the whole digits of a decimal literal. -/
def decimalTail? (whole : List Char) (plain : Bool) (cs : List Char) :
    Option (Token × List Char) :=
  match cs with
  | 'n' :: rest => if plain then endNumber? .bigInt rest else none
  | '.' :: rest => do
    let (fraction, rest) ← digits? 10 rest
    let (exponent, rest) ← exponent? rest
    endNumber? (.number (Number.DecimalParts.value ⟨whole, fraction, exponent⟩)) rest
  | cs => do
    let (exponent, rest) ← exponent? cs
    endNumber? (.number (Number.DecimalParts.value ⟨whole, [], exponent⟩)) rest

def inBase? (base : Nat) (cs : List Char) : Option (Token × List Char) := do
  let (ds, rest) ← digits? base cs
  guard !ds.isEmpty
  match rest with
  | 'n' :: rest => endNumber? .bigInt rest
  | rest => endNumber? (.number (Float.ofNat (Number.digitsValue base ds))) rest

/-- Digits after a leading zero: octal unless one of them exceeds seven. -/
def leadingZero? (cs : List Char) : Option (Token × List Char) :=
  let ds := cs.takeWhile Char.isDigit
  let rest := cs.dropWhile Char.isDigit
  if ds.all (Number.isDigitIn 8) then
    endNumber? (.number (Float.ofNat (Number.digitsValue 8 ds))) rest
  else decimalTail? ds false rest

def number? (cs : List Char) : Option (Token × List Char) :=
  match cs with
  | '0' :: c :: rest =>
    if c = 'x' ∨ c = 'X' then inBase? 16 rest
    else if c = 'o' ∨ c = 'O' then inBase? 8 rest
    else if c = 'b' ∨ c = 'B' then inBase? 2 rest
    else if c.isDigit then leadingZero? (c :: rest)
    else if c = '_' then none
    else decimalTail? ['0'] true (c :: rest)
  | '.' :: rest => do
    let (fraction, rest) ← digits? 10 rest
    let (exponent, rest) ← exponent? rest
    endNumber? (.number (Number.DecimalParts.value ⟨[], fraction, exponent⟩)) rest
  | cs => do
    let (ds, rest) ← digits? 10 cs
    decimalTail? ds true rest

/-! ### Quoted text -/

/-- An octal escape of up to three digits below 256. -/
def octalEscape (cs : List Char) : Nat × List Char :=
  let ds := cs.takeWhile (Number.isDigitIn 8)
  let n := if (cs.head?.getD '7') ≤ '3' then 3 else 2
  (Number.digitsValue 8 (ds.take n), cs.drop (min n ds.length))

/-- The code points an escape stands for, after its backslash. Template text has no octal ones. -/
def escape? (inTemplate : Bool) : List Char → Option (List Nat × List Char)
  | [] => none
  | c :: rest =>
    match c with
    | 'n' => some ([10], rest)
    | 't' => some ([9], rest)
    | 'r' => some ([13], rest)
    | 'b' => some ([8], rest)
    | 'f' => some ([12], rest)
    | 'v' => some ([11], rest)
    | 'x' =>
      match rest with
      | a :: b :: rest =>
        if isHexDigit a && isHexDigit b then some ([Number.digitsValue 16 [a, b]], rest) else none
      | _ => none
    | 'u' =>
      match codePoint? rest with
      | none => none
      | some (high, rest) =>
        if 0xD800 ≤ high ∧ high < 0xDC00 then
          match rest with
          | '\\' :: 'u' :: more =>
            match codePoint? more with
            | some (low, after) =>
              if 0xDC00 ≤ low ∧ low < 0xE000 then
                some ([0x10000 + (high - 0xD800) * 0x400 + (low - 0xDC00)], after)
              else some ([high], rest)
            | none => some ([high], rest)
          | _ => some ([high], rest)
        else some ([high], rest)
    | '\r' =>
      match rest with
      | '\n' :: rest => some ([], rest)
      | rest => some ([], rest)
    | c =>
      if isLineEnd c then some ([], rest)
      else if c.isDigit then
        if inTemplate then
          if c = '0' && !(rest.head?.any Char.isDigit) then some ([0], rest) else none
        else if c ≤ '7' then
          let (n, rest) := octalEscape (c :: rest)
          some ([n], rest)
        else some ([c.toNat], rest)
      else some ([c.toNat], rest)

def isSurrogate (n : Nat) : Bool := 0xD800 ≤ n && n < 0xE000

def hexWord (n : Nat) : List Char :=
  let ds := Nat.toDigits 16 n
  List.replicate (4 - ds.length) '0' ++ ds

/-- The text of code points. Half a pair on its own is written as a replacement character with
its number, and then so is every replacement character. -/
def textOf (points : List Nat) : String :=
  if points.any isSurrogate then
    String.ofList (points.flatMap fun n =>
      if isSurrogate n || n == 0xFFFD then '\uFFFD' :: hexWord n else [Char.ofNat n])
  else String.ofList (points.map Char.ofNat)

/-- The rest of a quoted text, with its code points in reverse. -/
def stringBody? (quote : Char) : Nat → List Nat → List Char → Option (String × List Char)
  | 0, _, _ => none
  | _ + 1, _, [] => none
  | fuel + 1, acc, c :: rest =>
    if c = quote then some (textOf acc.reverse, rest)
    else if c = '\\' then
      match escape? false rest with
      | some (points, rest) => stringBody? quote fuel (points.reverse ++ acc) rest
      | none => none
    else if c = '\n' ∨ c = '\r' then none
    else stringBody? quote fuel (c.toNat :: acc) rest

/-- Template text; `good` tells whether every escape so far had a meaning. -/
def templateBody? : Nat → Bool → List Nat → List Char → Option (Token × List Char)
  | 0, _, _, _ => none
  | _ + 1, _, _, [] => none
  | fuel + 1, good, acc, c :: rest =>
    let text := if good then some (textOf acc.reverse) else none
    if c = '\x60' then some (.template text true, rest)
    else if c = '\\' then
      match escape? true rest with
      | some (points, rest) => templateBody? fuel good (points.reverse ++ acc) rest
      | none => templateBody? fuel false acc (rest.drop 1)
    else match c, rest with
      | '$', '\x7b' :: rest => some (.template text false, rest)
      | '\r', '\n' :: rest => templateBody? fuel good (10 :: acc) rest
      | '\r', rest => templateBody? fuel good (10 :: acc) rest
      | c, rest => templateBody? fuel good (c.toNat :: acc) rest

def template? (cs : List Char) : Option (Token × List Char) :=
  templateBody? (cs.length + 1) true [] cs

/-! ### Regular expressions -/

def regexBody? (inClass : Bool) : List Char → Option (List Char)
  | [] => none
  | '\\' :: rest =>
    match rest with
    | [] => none
    | c :: rest => if isLineEnd c then none else regexBody? inClass rest
  | c :: rest =>
    if isLineEnd c then none
    else if c = '/' && !inClass then some rest
    else regexBody? (if c = '[' then true else if c = ']' then false else inClass) rest

/-- What follows a regular expression whose opening slash has been read. Flags do not repeat. -/
def afterRegex? (cs : List Char) : Option (List Char) := do
  let rest ← regexBody? false cs
  let flags := rest.takeWhile Text.isIdentifierPart
  guard (flags.all "dgimsuvy".toList.contains && flags.Nodup)
  return rest.dropWhile Text.isIdentifierPart

/-! ### Tokens -/

def punctuators : List (List Char) :=
  [">>>=", "...", "===", "!==", "**=", "<<=", ">>=", ">>>", "&&=", "||=", "??=", "=>", "==", "!=",
    "<=", ">=", "&&", "||", "??", "?.", "++", "--", "+=", "-=", "*=", "/=", "%=", "&=", "|=", "^=",
    "<<", ">>", "**", "\x7b", "\x7d", "(", ")", "[", "]", ";", ",", "<", ">", "+", "-", "*", "/",
    "%", "&", "|", "^", "!", "~", "?", ":", "=", ".", "@"].map String.toList

/-- The longest punctuator; a question mark before a decimal point's digits stands alone. -/
def punctuator? (cs : List Char) : Option (Token × List Char) :=
  match cs with
  | '?' :: '.' :: d :: rest =>
    if d.isDigit then some (.punct "?", '.' :: d :: rest)
    else some (.punct "?.", d :: rest)
  | cs =>
    (punctuators.find? (·.isPrefixOf cs)).map fun p =>
      (.punct (String.ofList p), cs.drop p.length)

def token? (cs : List Char) : Option (Token × List Char) :=
  match cs with
  | [] => some (.endOfText, [])
  | '"' :: rest =>
    (stringBody? '"' (rest.length + 1) [] rest).map fun (s, rest) => (.string s, rest)
  | '\'' :: rest =>
    (stringBody? '\'' (rest.length + 1) [] rest).map fun (s, rest) => (.string s, rest)
  | '\x60' :: rest => template? rest
  | '#' :: rest => (name? rest).map fun (text, _, rest) => (.privateName text, rest)
  | c :: rest =>
    if c.isDigit || (c == '.' && rest.head?.any Char.isDigit) then number? cs
    else if Text.isIdentifierStart c || c == '\\' then
      (name? cs).map fun (text, escaped, rest) => (.name text escaped, rest)
    else punctuator? cs

/-- The next token of a script. -/
def next? (cs : List Char) : Option Lexeme := do
  let (newLine, start) ← skipGap? false .blank cs
  let (token, rest) ← token? start
  return ⟨token, newLine, start, rest⟩

end Nodecraft.Script.Lexer
