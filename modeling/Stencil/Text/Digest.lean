/-!
# Digests

The SHA-256 digest of a text, for short marks that differ where texts differ, as far as anybody knows.
A message is padded to blocks of 64 bytes; every block is spread over 64 words, which are mixed into a
state of eight words.

* `Digest.words`: the eight words of the digest of a list of bytes;
* `Digest.ofString`: the first twelve digits in base sixteen of the digest of a text.
-/

namespace Stencil.Digest

/-- The words that are added in the 64 rounds. -/
def roundWords : List UInt32 :=
  [0x428a2f98, 0x71374491, 0xb5c0fbcf, 0xe9b5dba5, 0x3956c25b, 0x59f111f1, 0x923f82a4, 0xab1c5ed5,
    0xd807aa98, 0x12835b01, 0x243185be, 0x550c7dc3, 0x72be5d74, 0x80deb1fe, 0x9bdc06a7, 0xc19bf174,
    0xe49b69c1, 0xefbe4786, 0x0fc19dc6, 0x240ca1cc, 0x2de92c6f, 0x4a7484aa, 0x5cb0a9dc, 0x76f988da,
    0x983e5152, 0xa831c66d, 0xb00327c8, 0xbf597fc7, 0xc6e00bf3, 0xd5a79147, 0x06ca6351, 0x14292967,
    0x27b70a85, 0x2e1b2138, 0x4d2c6dfc, 0x53380d13, 0x650a7354, 0x766a0abb, 0x81c2c92e, 0x92722c85,
    0xa2bfe8a1, 0xa81a664b, 0xc24b8b70, 0xc76c51a3, 0xd192e819, 0xd6990624, 0xf40e3585, 0x106aa070,
    0x19a4c116, 0x1e376c08, 0x2748774c, 0x34b0bcb5, 0x391c0cb3, 0x4ed8aa4a, 0x5b9cca4f, 0x682e6ff3,
    0x748f82ee, 0x78a5636f, 0x84c87814, 0x8cc70208, 0x90befffa, 0xa4506ceb, 0xbef9a3f7, 0xc67178f2]

/-- The eight words of a state. -/
structure State where
  a : UInt32
  b : UInt32
  c : UInt32
  d : UInt32
  e : UInt32
  f : UInt32
  g : UInt32
  h : UInt32
  deriving DecidableEq

/-- The state before the first block. -/
def State.start : State :=
  ⟨0x6a09e667, 0xbb67ae85, 0x3c6ef372, 0xa54ff53a, 0x510e527f, 0x9b05688c, 0x1f83d9ab, 0x5be0cd19⟩

/-- A word turned to the right. -/
def turn (x n : UInt32) : UInt32 := (x >>> n) ||| (x <<< (32 - n))

/-- The number of bytes in a block. -/
def blockSize : Nat := 64

/-- A number in `n` bytes, the most significant one first. -/
def bytesOf : (n value : Nat) → List UInt8
  | 0, _ => []
  | n + 1, value => bytesOf n (value / 256) ++ [(value % 256).toUInt8]

/-- A message with a mark at its end, zeros, and its length in bits, so that its blocks are full. -/
def pad (bytes : List UInt8) : List UInt8 :=
  -- The mark takes one byte and the length eight.
  let zeros := (2 * blockSize - 1 - (bytes.length + 8) % blockSize) % blockSize
  bytes ++ 0x80 :: List.replicate zeros 0 ++ bytesOf 8 (8 * bytes.length)

/-- Bytes as words of four bytes. -/
def toWords : List UInt8 → List UInt32
  | a :: b :: c :: d :: r =>
    ((a.toUInt32 <<< 24) ||| (b.toUInt32 <<< 16) ||| (c.toUInt32 <<< 8) ||| d.toUInt32) :: toWords r
  | _ => []

/-- The word that follows sixteen words, which are given with the newest one first. -/
def nextWord (recent : List UInt32) : UInt32 :=
  let old := recent.getD 14 0
  let new := recent.getD 1 0
  let mixOld := turn old 7 ^^^ turn old 18 ^^^ (old >>> 3)
  let mixNew := turn new 17 ^^^ turn new 19 ^^^ (new >>> 10)
  recent.getD 15 0 + mixOld + recent.getD 6 0 + mixNew

/-- Words, newest first, with `n` more of them. -/
def spread : (n : Nat) → List UInt32 → List UInt32
  | 0, words => words
  | n + 1, words => spread n (nextWord words :: words)

/-- One round with the sum of a round word and a word of the block. -/
def round (s : State) (word : UInt32) : State :=
  let mixE := turn s.e 6 ^^^ turn s.e 11 ^^^ turn s.e 25
  let choice := (s.e &&& s.f) ^^^ (~~~s.e &&& s.g)
  let first := s.h + mixE + choice + word
  let mixA := turn s.a 2 ^^^ turn s.a 13 ^^^ turn s.a 22
  let majority := (s.a &&& s.b) ^^^ (s.a &&& s.c) ^^^ (s.b &&& s.c)
  ⟨first + mixA + majority, s.a, s.b, s.c, s.d + first, s.e, s.f, s.g⟩

/-- The sum of two states, word by word. -/
def State.add (s t : State) : State :=
  ⟨s.a + t.a, s.b + t.b, s.c + t.c, s.d + t.d, s.e + t.e, s.f + t.f, s.g + t.g, s.h + t.h⟩

/-- A state with the sixteen words of a block mixed in. -/
def absorb (s : State) (words : List UInt32) : State :=
  let all := (spread 48 words.reverse).reverse
  s.add ((List.zipWith (· + ·) all roundWords).foldl round s)

/-- A state with some blocks mixed in. -/
def absorbAll : (blocks : Nat) → State → List UInt32 → State
  | 0, s, _ => s
  | blocks + 1, s, words => absorbAll blocks (absorb s (words.take 16)) (words.drop 16)

/-- The words of the digest of a message. -/
def words (bytes : List UInt8) : List UInt32 :=
  let padded := toWords (pad bytes)
  let s := absorbAll (padded.length / 16) .start padded
  [s.a, s.b, s.c, s.d, s.e, s.f, s.g, s.h]

/-- The number of digits that are kept. -/
def keptDigits : Nat := 12

/-- A word in eight digits in base sixteen. -/
def digits (word : UInt32) : List Char :=
  (List.range 8).map fun i => Nat.digitChar (word.toNat / Nat.pow 16 (7 - i) % 16)

/-- The first digits of the digest of a text. -/
def ofString (s : String) : String :=
  String.ofList (((words s.toUTF8.toList).flatMap digits).take keptDigits)

end Stencil.Digest
