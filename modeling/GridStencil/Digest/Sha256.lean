/-!
The digest SHA-256.

A message is padded to whole blocks of sixteen words; every block is expanded to sixty-four words,
and as many rounds mix them into a state of eight words, which is added to the state before the
block. The digest is the state after the last block.
-/

namespace GridStencil.Digest

/-- The round constants: the first bits of the fractional parts of the cube roots of the first
sixty-four primes. -/
def roundConstants : List UInt32 :=
  [0x428a2f98, 0x71374491, 0xb5c0fbcf, 0xe9b5dba5, 0x3956c25b, 0x59f111f1, 0x923f82a4, 0xab1c5ed5,
    0xd807aa98, 0x12835b01, 0x243185be, 0x550c7dc3, 0x72be5d74, 0x80deb1fe, 0x9bdc06a7, 0xc19bf174,
    0xe49b69c1, 0xefbe4786, 0x0fc19dc6, 0x240ca1cc, 0x2de92c6f, 0x4a7484aa, 0x5cb0a9dc, 0x76f988da,
    0x983e5152, 0xa831c66d, 0xb00327c8, 0xbf597fc7, 0xc6e00bf3, 0xd5a79147, 0x06ca6351, 0x14292967,
    0x27b70a85, 0x2e1b2138, 0x4d2c6dfc, 0x53380d13, 0x650a7354, 0x766a0abb, 0x81c2c92e, 0x92722c85,
    0xa2bfe8a1, 0xa81a664b, 0xc24b8b70, 0xc76c51a3, 0xd192e819, 0xd6990624, 0xf40e3585, 0x106aa070,
    0x19a4c116, 0x1e376c08, 0x2748774c, 0x34b0bcb5, 0x391c0cb3, 0x4ed8aa4a, 0x5b9cca4f, 0x682e6ff3,
    0x748f82ee, 0x78a5636f, 0x84c87814, 0x8cc70208, 0x90befffa, 0xa4506ceb, 0xbef9a3f7, 0xc67178f2]

/-- The eight words of the state. -/
structure State where
  a : UInt32
  b : UInt32
  c : UInt32
  d : UInt32
  e : UInt32
  f : UInt32
  g : UInt32
  h : UInt32

/-- The state before the first block: the first bits of the fractional parts of the square roots of
the first eight primes. -/
def State.initial : State :=
  ⟨0x6a09e667, 0xbb67ae85, 0x3c6ef372, 0xa54ff53a, 0x510e527f, 0x9b05688c, 0x1f83d9ab, 0x5be0cd19⟩

/-- The words of a state in order. -/
def State.words (s : State) : List UInt32 := [s.a, s.b, s.c, s.d, s.e, s.f, s.g, s.h]

/-- The sums of the words of two states. -/
def State.add (s t : State) : State :=
  ⟨s.a + t.a, s.b + t.b, s.c + t.c, s.d + t.d, s.e + t.e, s.f + t.f, s.g + t.g, s.h + t.h⟩

/-- A word rotated right. -/
def rotateRight (x : UInt32) (n : UInt32) : UInt32 := (x >>> n) ||| (x <<< (32 - n))

/-- The word that follows the given ones, of which the newest comes first. -/
def nextWord (words : List UInt32) : UInt32 :=
  let x := words.getD 14 0
  let y := words.getD 1 0
  let first := rotateRight x 7 ^^^ rotateRight x 18 ^^^ (x >>> 3)
  let second := rotateRight y 17 ^^^ rotateRight y 19 ^^^ (y >>> 10)
  words.getD 15 0 + first + words.getD 6 0 + second

/-- Words followed by `count` more, with the newest first. -/
def expand : Nat → List UInt32 → List UInt32
  | 0, words => words
  | count + 1, words => expand count (nextWord words :: words)

/-- The state after a round with a word of the block and a round constant. -/
def mix (s : State) (step : UInt32 × UInt32) : State :=
  let (word, constant) := step
  let upper := rotateRight s.e 6 ^^^ rotateRight s.e 11 ^^^ rotateRight s.e 25
  let choice := (s.e &&& s.f) ^^^ ((~~~ s.e) &&& s.g)
  let lower := rotateRight s.a 2 ^^^ rotateRight s.a 13 ^^^ rotateRight s.a 22
  let majority := (s.a &&& s.b) ^^^ (s.a &&& s.c) ^^^ (s.b &&& s.c)
  let sum := s.h + upper + choice + constant + word
  ⟨sum + lower + majority, s.a, s.b, s.c, s.d + sum, s.e, s.f, s.g⟩

/-- The state after a block of sixteen words. -/
def compress (state : State) (block : List UInt32) : State :=
  state.add (((expand 48 block.reverse).reverse.zip roundConstants).foldl mix state)

/-- The bytes of a number with the most significant one first. -/
def bigEndian (count : Nat) (n : Nat) : List UInt8 :=
  (List.range count).map fun place => (n >>> (8 * (count - 1 - place))).toUInt8

/-- The bytes of a number with the least significant one first. -/
def littleEndian (count : Nat) (n : Nat) : List UInt8 :=
  (List.range count).map fun place => (n >>> (8 * place)).toUInt8

/-- A message with a closing bit, as many zeros as it takes, and its length in bits. -/
def padded (message : List UInt8) : List UInt8 :=
  let zeros := (119 - message.length % 64) % 64
  message ++ 0x80 :: List.replicate zeros 0 ++ bigEndian 8 (8 * message.length)

/-- The words of some bytes, four bytes each. -/
def wordsOf : List UInt8 → List UInt32
  | a :: b :: c :: d :: rest =>
    ((a.toUInt32 <<< 24) ||| (b.toUInt32 <<< 16) ||| (c.toUInt32 <<< 8) ||| d.toUInt32) ::
      wordsOf rest
  | _ => []

/-- The state after blocks of sixteen words, of which there are at most `count`. -/
def compressAll : Nat → State → List UInt32 → State
  | 0, state, _ => state
  | count + 1, state, words =>
    if words.isEmpty then state
    else compressAll count (compress state (words.take 16)) (words.drop 16)

/-- The digest of a message. -/
def sha256 (message : List UInt8) : List UInt8 :=
  let words := wordsOf (padded message)
  (compressAll words.length .initial words).words.flatMap fun word => bigEndian 4 word.toNat

theorem bigEndian_length (count n : Nat) : (bigEndian count n).length = count := by
  simp [bigEndian]

/-- A digest has thirty-two bytes. -/
theorem sha256_length (message : List UInt8) : (sha256 message).length = 32 := by
  simp [sha256, State.words, bigEndian_length]

/-- The letter of a digit to the base sixteen. -/
def hexDigit (n : Nat) : Char := "0123456789abcdef".toList.getD n '0'

/-- Bytes to the base sixteen, with two digits each. -/
def hex (bytes : List UInt8) : String :=
  String.ofList (bytes.flatMap fun byte => [hexDigit (byte.toNat / 16), hexDigit (byte.toNat % 16)])

end GridStencil.Digest
