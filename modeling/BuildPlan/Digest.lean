import BuildPlan.Text.Digits

/-!
# Digests

The SHA-256 digest of a text, by which a plan can tell whether the descriptors of a target have changed. The text is taken
as its UTF-8 bytes, filled up to whole blocks of 64 bytes: one byte `80`, zeros, and the number of bits in the last
eight bytes.
-/

namespace BuildPlan.Digest

/-- The first 32 bits of the fractional parts of the cube roots of the first 64 primes. -/
def roundConstants : List UInt32 := [
  0x428a2f98, 0x71374491, 0xb5c0fbcf, 0xe9b5dba5, 0x3956c25b, 0x59f111f1, 0x923f82a4, 0xab1c5ed5,
  0xd807aa98, 0x12835b01, 0x243185be, 0x550c7dc3, 0x72be5d74, 0x80deb1fe, 0x9bdc06a7, 0xc19bf174,
  0xe49b69c1, 0xefbe4786, 0x0fc19dc6, 0x240ca1cc, 0x2de92c6f, 0x4a7484aa, 0x5cb0a9dc, 0x76f988da,
  0x983e5152, 0xa831c66d, 0xb00327c8, 0xbf597fc7, 0xc6e00bf3, 0xd5a79147, 0x06ca6351, 0x14292967,
  0x27b70a85, 0x2e1b2138, 0x4d2c6dfc, 0x53380d13, 0x650a7354, 0x766a0abb, 0x81c2c92e, 0x92722c85,
  0xa2bfe8a1, 0xa81a664b, 0xc24b8b70, 0xc76c51a3, 0xd192e819, 0xd6990624, 0xf40e3585, 0x106aa070,
  0x19a4c116, 0x1e376c08, 0x2748774c, 0x34b0bcb5, 0x391c0cb3, 0x4ed8aa4a, 0x5b9cca4f, 0x682e6ff3,
  0x748f82ee, 0x78a5636f, 0x84c87814, 0x8cc70208, 0x90befffa, 0xa4506ceb, 0xbef9a3f7, 0xc67178f2]

/-- The eight words that are carried from block to block. -/
structure State where
  a : UInt32
  b : UInt32
  c : UInt32
  d : UInt32
  e : UInt32
  f : UInt32
  g : UInt32
  h : UInt32
  deriving DecidableEq

namespace State

/-- The first 32 bits of the fractional parts of the square roots of the first eight primes. -/
def initial : State :=
  ⟨0x6a09e667, 0xbb67ae85, 0x3c6ef372, 0xa54ff53a,
    0x510e527f, 0x9b05688c, 0x1f83d9ab, 0x5be0cd19⟩

/-- The sum of two states, word by word. -/
def add (s t : State) : State :=
  ⟨s.a + t.a, s.b + t.b, s.c + t.c, s.d + t.d, s.e + t.e, s.f + t.f, s.g + t.g, s.h + t.h⟩

/-- The words in order. -/
def toList (s : State) : List UInt32 := [s.a, s.b, s.c, s.d, s.e, s.f, s.g, s.h]

/-- The words in lowercase hexadecimal digits, eight for each. -/
def digits (s : State) : String := String.ofList (s.toList.flatMap (fun w => Text.lastHexDigits 8 w.toNat))

end State

/-- A word turned to the right by some bits, between 1 and 31. -/
def rotate (x : UInt32) (n : UInt32) : UInt32 := (x >>> n) ||| (x <<< (32 - n))

/-! ### Blocks -/

/-- The number of blocks of a message of some bytes. -/
def blockCount (size : Nat) : Nat := (size + 72) / 64

/-- A byte of the filled-up message. -/
def paddedByte (message : ByteArray) (i : Nat) : UInt8 :=
  let size := message.size
  let total := 64 * blockCount size
  if h : i < message.size then message.get i h
  else if i = size then 0x80
  else if i + 8 < total then 0
  else UInt8.ofNat ((8 * size) >>> (8 * (total - 1 - i)))

/-- A word of the filled-up message, its first byte the highest. -/
def paddedWord (message : ByteArray) (i : Nat) : UInt32 :=
  [4 * i, 4 * i + 1, 4 * i + 2, 4 * i + 3].foldl (fun w j => (w <<< 8) ||| (paddedByte message j).toUInt32) 0

/-- A word that was made some words ago. -/
def earlier (w : Array UInt32) (back : Nat) : UInt32 := w.getD (w.size - back) 0

/-- The word that comes next in a schedule. -/
def nextWord (w : Array UInt32) : UInt32 :=
  let x := earlier w 15
  let y := earlier w 2
  earlier w 16 + (rotate x 7 ^^^ rotate x 18 ^^^ (x >>> 3)) + earlier w 7 + (rotate y 17 ^^^ rotate y 19 ^^^ (y >>> 10))

/-- The schedule of a block: its sixteen words and forty-eight more. -/
def schedule (message : ByteArray) (block : Nat) : Array UInt32 :=
  let first := (Array.range 16).map (fun i => paddedWord message (16 * block + i))
  (List.range 48).foldl (fun w _ => w.push (nextWord w)) first

/-- One round with a round constant and a word of the schedule. -/
def round (s : State) (kw : UInt32 × UInt32) : State :=
  let t1 := s.h + (rotate s.e 6 ^^^ rotate s.e 11 ^^^ rotate s.e 25) + ((s.e &&& s.f) ^^^ (~~~s.e &&& s.g)) + kw.1 + kw.2
  let t2 := (rotate s.a 2 ^^^ rotate s.a 13 ^^^ rotate s.a 22) + ((s.a &&& s.b) ^^^ (s.a &&& s.c) ^^^ (s.b &&& s.c))
  ⟨t1 + t2, s.a, s.b, s.c, s.d + t1, s.e, s.f, s.g⟩

/-- The state after a block. -/
def compress (message : ByteArray) (s : State) (block : Nat) : State :=
  s.add ((roundConstants.zip (schedule message block).toList).foldl round s)

/-! ### Digests -/

/-- The state after all blocks of a text. -/
def finalState (s : String) : State :=
  let message := s.toUTF8
  (List.range (blockCount message.size)).foldl (compress message) State.initial

/-- The digest of a text in lowercase hexadecimal digits. -/
def ofText (s : String) : String := (finalState s).digits

end BuildPlan.Digest
