/-!
The digest SHA-256 of a text, in base 16.
-/

set_option autoImplicit false

namespace Nodecraft.Digest

/-- The first bits of the fractional parts of the cube roots of the first primes. -/
def roundConstants : List UInt32 :=
  [0x428a2f98, 0x71374491, 0xb5c0fbcf, 0xe9b5dba5, 0x3956c25b, 0x59f111f1, 0x923f82a4, 0xab1c5ed5,
    0xd807aa98, 0x12835b01, 0x243185be, 0x550c7dc3, 0x72be5d74, 0x80deb1fe, 0x9bdc06a7, 0xc19bf174,
    0xe49b69c1, 0xefbe4786, 0x0fc19dc6, 0x240ca1cc, 0x2de92c6f, 0x4a7484aa, 0x5cb0a9dc, 0x76f988da,
    0x983e5152, 0xa831c66d, 0xb00327c8, 0xbf597fc7, 0xc6e00bf3, 0xd5a79147, 0x06ca6351, 0x14292967,
    0x27b70a85, 0x2e1b2138, 0x4d2c6dfc, 0x53380d13, 0x650a7354, 0x766a0abb, 0x81c2c92e, 0x92722c85,
    0xa2bfe8a1, 0xa81a664b, 0xc24b8b70, 0xc76c51a3, 0xd192e819, 0xd6990624, 0xf40e3585, 0x106aa070,
    0x19a4c116, 0x1e376c08, 0x2748774c, 0x34b0bcb5, 0x391c0cb3, 0x4ed8aa4a, 0x5b9cca4f, 0x682e6ff3,
    0x748f82ee, 0x78a5636f, 0x84c87814, 0x8cc70208, 0x90befffa, 0xa4506ceb, 0xbef9a3f7, 0xc67178f2]

structure State where
  a : UInt32
  b : UInt32
  c : UInt32
  d : UInt32
  e : UInt32
  f : UInt32
  g : UInt32
  h : UInt32
  deriving DecidableEq, Repr, Inhabited

/-- The first bits of the fractional parts of the square roots of the first primes. -/
def State.start : State :=
  ⟨0x6a09e667, 0xbb67ae85, 0x3c6ef372, 0xa54ff53a, 0x510e527f, 0x9b05688c, 0x1f83d9ab, 0x5be0cd19⟩

def rotate (x : UInt32) (n : UInt32) : UInt32 := (x >>> n) ||| (x <<< (32 - n))

def State.add (s t : State) : State :=
  ⟨s.a + t.a, s.b + t.b, s.c + t.c, s.d + t.d, s.e + t.e, s.f + t.f, s.g + t.g, s.h + t.h⟩

def State.words (s : State) : List UInt32 := [s.a, s.b, s.c, s.d, s.e, s.f, s.g, s.h]

/-- One round with a constant and a word of the schedule. -/
def round (s : State) (k w : UInt32) : State :=
  let choice := (s.e &&& s.f) ^^^ (~~~s.e &&& s.g)
  let majority := (s.a &&& s.b) ^^^ (s.a &&& s.c) ^^^ (s.b &&& s.c)
  let t := s.h + (rotate s.e 6 ^^^ rotate s.e 11 ^^^ rotate s.e 25) + choice + k + w
  ⟨t + (rotate s.a 2 ^^^ rotate s.a 13 ^^^ rotate s.a 22) + majority,
    s.a, s.b, s.c, s.d + t, s.e, s.f, s.g⟩

/-- Extends the words of a block, which stand in an array, by as many as are missing. -/
def schedule (ws : Array UInt32) : Nat → Array UInt32
  | 0 => ws
  | n + 1 =>
    let word (back : Nat) : UInt32 := ws.getD (ws.size - back) 0
    let x := word 15
    let y := word 2
    let s0 := rotate x 7 ^^^ rotate x 18 ^^^ (x >>> 3)
    let s1 := rotate y 17 ^^^ rotate y 19 ^^^ (y >>> 10)
    schedule (ws.push (word 16 + s0 + word 7 + s1)) n

def wordOf : List UInt8 → UInt32 := fun bytes =>
  bytes.foldl (fun w b => (w <<< 8) ||| b.toUInt32) 0

def compress (s : State) (block : List UInt8) : State :=
  let words := (List.range 16).map fun i => wordOf ((block.drop (4 * i)).take 4)
  let ws := schedule words.toArray 48
  s.add ((roundConstants.zip ws.toList).foldl (fun s (k, w) => round s k w) s)

/-- A number as so many bytes, the most significant first. -/
def bytesOf : Nat → Nat → List UInt8
  | 0, _ => []
  | count + 1, n => bytesOf count (n / 256) ++ [UInt8.ofNat (n % 256)]

/-- The bytes filled up to whole blocks, with their number of bits at the end. -/
def padded (bytes : List UInt8) : List UInt8 :=
  let zeros := (119 - bytes.length % 64) % 64
  bytes ++ [0x80] ++ List.replicate zeros 0 ++ bytesOf 8 (8 * bytes.length)

def digestBlocks : Nat → State → List UInt8 → State
  | 0, s, _ => s
  | blocks + 1, s, bytes => digestBlocks blocks (compress s (bytes.take 64)) (bytes.drop 64)

def digest (bytes : List UInt8) : List UInt8 :=
  let message := padded bytes
  let s := digestBlocks (message.length / 64) .start message
  s.words.flatMap fun w => bytesOf 4 w.toNat

def hexText (b : UInt8) : String :=
  let digits := Nat.toDigits 16 b.toNat
  String.ofList (if digits.length < 2 then '0' :: digits else digits)

def sha256 (text : String) : String := String.join ((digest text.toUTF8.toList).map hexText)

end Nodecraft.Digest
