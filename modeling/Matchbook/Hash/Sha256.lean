/-
  The hash function SHA-256.

  A message is padded to blocks of 64 bytes.  Each block is
  spread to a schedule of 64 words, and the words are mixed
  one after the other into a state of eight words.

  Key definitions include:
    * `Sha256.padded`
    * `Sha256.schedule`
    * `Sha256.compress`
    * `Sha256.hash`
    * `hexText`
-/

------------------------------------------------------------
-- Words
------------------------------------------------------------

namespace Matchbook

namespace Sha256

/- A word turned to the right by a number of bits. -/
def rotateRight (w n : UInt32) : UInt32 :=
  (w >>> n) ||| (w <<< (32 - n))

/- The bytes of a word, the highest first. -/
def bytesOfWord (w : UInt32) : List UInt8 :=
  [(w >>> 24).toUInt8, (w >>> 16).toUInt8,
    (w >>> 8).toUInt8, w.toUInt8]

/- The word of four bytes, the highest first. -/
def wordOfBytes (a b c d : UInt8) : UInt32 :=
  (a.toUInt32 <<< 24) ||| (b.toUInt32 <<< 16) |||
    (c.toUInt32 <<< 8) ||| d.toUInt32

/- The words of a run of bytes. -/
def wordsOfBytes : List UInt8 → List UInt32
  | a :: b :: c :: d :: rest =>
      wordOfBytes a b c d :: wordsOfBytes rest
  | _ => []

------------------------------------------------------------
-- Padding
------------------------------------------------------------

/- The bytes of a 64-bit length, the highest first. -/
def lengthBytes (n : UInt64) : List UInt8 :=
  [(n >>> 56).toUInt8, (n >>> 48).toUInt8,
    (n >>> 40).toUInt8, (n >>> 32).toUInt8,
    (n >>> 24).toUInt8, (n >>> 16).toUInt8,
    (n >>> 8).toUInt8, n.toUInt8]

/- A message with its end mark, zeros and its length in bits,
together whole blocks. -/
def padded (message : List UInt8) : List UInt8 :=
  let n := message.length
  message ++ 0x80 ::
    List.replicate ((119 - n % 64) % 64) 0 ++
    lengthBytes (8 * n).toUInt64

/- A number of blocks of 64 bytes. -/
def blocks : Nat → List UInt8 → List (List UInt8)
  | 0, _ => []
  | n + 1, bs => bs.take 64 :: blocks n (bs.drop 64)

------------------------------------------------------------
-- Rounds
------------------------------------------------------------

/- The first 32 bits of the fractions of the cube roots of
the first 64 primes. -/
def constants : List UInt32 :=
  [0x428a2f98, 0x71374491, 0xb5c0fbcf, 0xe9b5dba5,
    0x3956c25b, 0x59f111f1, 0x923f82a4, 0xab1c5ed5,
    0xd807aa98, 0x12835b01, 0x243185be, 0x550c7dc3,
    0x72be5d74, 0x80deb1fe, 0x9bdc06a7, 0xc19bf174,
    0xe49b69c1, 0xefbe4786, 0x0fc19dc6, 0x240ca1cc,
    0x2de92c6f, 0x4a7484aa, 0x5cb0a9dc, 0x76f988da,
    0x983e5152, 0xa831c66d, 0xb00327c8, 0xbf597fc7,
    0xc6e00bf3, 0xd5a79147, 0x06ca6351, 0x14292967,
    0x27b70a85, 0x2e1b2138, 0x4d2c6dfc, 0x53380d13,
    0x650a7354, 0x766a0abb, 0x81c2c92e, 0x92722c85,
    0xa2bfe8a1, 0xa81a664b, 0xc24b8b70, 0xc76c51a3,
    0xd192e819, 0xd6990624, 0xf40e3585, 0x106aa070,
    0x19a4c116, 0x1e376c08, 0x2748774c, 0x34b0bcb5,
    0x391c0cb3, 0x4ed8aa4a, 0x5b9cca4f, 0x682e6ff3,
    0x748f82ee, 0x78a5636f, 0x84c87814, 0x8cc70208,
    0x90befffa, 0xa4506ceb, 0xbef9a3f7, 0xc67178f2]

/- The words that the blocks are mixed into. -/
structure State where
  a : UInt32
  b : UInt32
  c : UInt32
  d : UInt32
  e : UInt32
  f : UInt32
  g : UInt32
  h : UInt32
deriving DecidableEq

/- The first 32 bits of the fractions of the square roots of
the first eight primes. -/
def initial : State where
  a := 0x6a09e667
  b := 0xbb67ae85
  c := 0x3c6ef372
  d := 0xa54ff53a
  e := 0x510e527f
  f := 0x9b05688c
  g := 0x1f83d9ab
  h := 0x5be0cd19

/- The word that follows a window of 16 words. -/
def nextWord (window : List UInt32) : UInt32 :=
  let x := window.getD 1 0
  let y := window.getD 14 0
  let s₀ :=
    rotateRight x 7 ^^^ rotateRight x 18 ^^^ (x >>> 3)
  let s₁ :=
    rotateRight y 17 ^^^ rotateRight y 19 ^^^ (y >>> 10)
  window.getD 0 0 + s₀ + window.getD 9 0 + s₁

/- A window of 16 words and a number of words after it. -/
def schedule : Nat → List UInt32 → List UInt32
  | 0, window => window
  | n + 1, window =>
      window.take 1 ++
        schedule n (window.drop 1 ++ [nextWord window])

/- Mix one word into the state. -/
def round (s : State) (word : UInt32 × UInt32) : State :=
  let s₁ :=
    rotateRight s.e 6 ^^^ rotateRight s.e 11 ^^^
      rotateRight s.e 25
  let choice := (s.e &&& s.f) ^^^ (~~~s.e &&& s.g)
  let t₁ := s.h + s₁ + choice + word.1 + word.2
  let s₀ :=
    rotateRight s.a 2 ^^^ rotateRight s.a 13 ^^^
      rotateRight s.a 22
  let majority :=
    (s.a &&& s.b) ^^^ (s.a &&& s.c) ^^^ (s.b &&& s.c)
  { a := t₁ + (s₀ + majority)
    b := s.a
    c := s.b
    d := s.c
    e := s.d + t₁
    f := s.e
    g := s.f
    h := s.g }

/- Mix one block into the state. -/
def compress (s : State) (block : List UInt8) : State :=
  let words := schedule 48 (wordsOfBytes block)
  let t := (constants.zip words).foldl round s
  { a := s.a + t.a
    b := s.b + t.b
    c := s.c + t.c
    d := s.d + t.d
    e := s.e + t.e
    f := s.f + t.f
    g := s.g + t.g
    h := s.h + t.h }

/- The bytes of a state. -/
def State.bytes (s : State) : List UInt8 :=
  [s.a, s.b, s.c, s.d, s.e, s.f, s.g, s.h].flatMap
    bytesOfWord

/- The hash of a message. -/
def hash (message : List UInt8) : List UInt8 :=
  let bs := padded message
  ((blocks (bs.length / 64) bs).foldl
    compress initial).bytes

/- Every hash has 32 bytes. -/
theorem length_hash (message : List UInt8) :
    (hash message).length = 32 :=
  rfl

end Sha256

------------------------------------------------------------
-- Hexadecimal text
------------------------------------------------------------

/- Two hexadecimal digits for every byte. -/
def hexText (bytes : List UInt8) : String :=
  String.ofList
    (bytes.flatMap fun b =>
      [Nat.digitChar (b.toNat / 16),
        Nat.digitChar (b.toNat % 16)])

end Matchbook
