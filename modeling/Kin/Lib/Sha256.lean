/-
  Kin.Lib.Sha256

  **`crypto/sha256`.**

  A message is padded to blocks of 64 bytes; each block is stretched to 64 words
  and mixed into the eight words of the state in as many rounds.  Everything is
  computable, and small messages are hashed by the kernel.
-/
import Kin.Lib.GoStd

namespace Kin.Lib.Sha256

/-! ## §1. The tables. -/

/-- The eight working words. -/
structure State where
  (a b c d e f g h : UInt32)

def initial : State where
  a := 0x6a09e667
  b := 0xbb67ae85
  c := 0x3c6ef372
  d := 0xa54ff53a
  e := 0x510e527f
  f := 0x9b05688c
  g := 0x1f83d9ab
  h := 0x5be0cd19

/-- One constant for each round. -/
def roundConstants : List UInt32 :=
  [0x428a2f98, 0x71374491, 0xb5c0fbcf, 0xe9b5dba5, 0x3956c25b, 0x59f111f1, 0x923f82a4, 0xab1c5ed5,
    0xd807aa98, 0x12835b01, 0x243185be, 0x550c7dc3, 0x72be5d74, 0x80deb1fe, 0x9bdc06a7, 0xc19bf174,
    0xe49b69c1, 0xefbe4786, 0x0fc19dc6, 0x240ca1cc, 0x2de92c6f, 0x4a7484aa, 0x5cb0a9dc, 0x76f988da,
    0x983e5152, 0xa831c66d, 0xb00327c8, 0xbf597fc7, 0xc6e00bf3, 0xd5a79147, 0x06ca6351, 0x14292967,
    0x27b70a85, 0x2e1b2138, 0x4d2c6dfc, 0x53380d13, 0x650a7354, 0x766a0abb, 0x81c2c92e, 0x92722c85,
    0xa2bfe8a1, 0xa81a664b, 0xc24b8b70, 0xc76c51a3, 0xd192e819, 0xd6990624, 0xf40e3585, 0x106aa070,
    0x19a4c116, 0x1e376c08, 0x2748774c, 0x34b0bcb5, 0x391c0cb3, 0x4ed8aa4a, 0x5b9cca4f, 0x682e6ff3,
    0x748f82ee, 0x78a5636f, 0x84c87814, 0x8cc70208, 0x90befffa, 0xa4506ceb, 0xbef9a3f7, 0xc67178f2]

/-! ## §2. One block. -/

def rotr (x n : UInt32) : UInt32 := (x >>> n) ||| (x <<< (32 - n))

/-- The next word of the schedule; the words so far stand newest first. -/
def nextWord (w : List UInt32) : UInt32 :=
  let s0 (x : UInt32) := rotr x 7 ^^^ rotr x 18 ^^^ (x >>> 3)
  let s1 (x : UInt32) := rotr x 17 ^^^ rotr x 19 ^^^ (x >>> 10)
  s1 (w.getD 1 0) + w.getD 6 0 + s0 (w.getD 14 0) + w.getD 15 0

def stretch : Nat → List UInt32 → List UInt32
  | 0, w => w
  | n + 1, w => stretch n (nextWord w :: w)

def round (s : State) (kw : UInt32 × UInt32) : State :=
  let t1 := s.h + (rotr s.e 6 ^^^ rotr s.e 11 ^^^ rotr s.e 25)
    + ((s.e &&& s.f) ^^^ (~~~s.e &&& s.g)) + kw.1 + kw.2
  let t2 := (rotr s.a 2 ^^^ rotr s.a 13 ^^^ rotr s.a 22)
    + ((s.a &&& s.b) ^^^ (s.a &&& s.c) ^^^ (s.b &&& s.c))
  ⟨t1 + t2, s.a, s.b, s.c, s.d + t1, s.e, s.f, s.g⟩

/-- Four bytes, big-endian. -/
def word : List UInt8 → UInt32
  | [b0, b1, b2, b3] =>
    b0.toUInt32 <<< 24 ||| b1.toUInt32 <<< 16 ||| b2.toUInt32 <<< 8 ||| b3.toUInt32
  | _ => 0

def compress (s : State) (block : List UInt8) : State :=
  let words := (List.range 16).map (fun i => word ((block.drop (4 * i)).take 4))
  let schedule := (stretch 48 words.reverse).reverse
  let t := (roundConstants.zip schedule).foldl round s
  ⟨s.a + t.a, s.b + t.b, s.c + t.c, s.d + t.d, s.e + t.e, s.f + t.f, s.g + t.g, s.h + t.h⟩

/-! ## §3. A message. -/

/-- The message, the bit `1`, zeros, and the message's length in bits. -/
def pad (m : List UInt8) : List UInt8 :=
  m ++ 0x80 :: List.replicate ((119 - m.length % 64) % 64) 0
    ++ (List.range 8).map (fun i => (8 * m.length / 256 ^ (7 - i)).toUInt8)

def bytes (x : UInt32) : List UInt8 :=
  [(x >>> 24).toUInt8, (x >>> 16).toUInt8, (x >>> 8).toUInt8, x.toUInt8]

def State.digest (s : State) : Bytes 32 :=
  ⟨bytes s.a ++ bytes s.b ++ bytes s.c ++ bytes s.d ++ bytes s.e ++ bytes s.f ++ bytes s.g
    ++ bytes s.h, rfl⟩

/-- `sha256.Sum256(m)`. -/
@[irreducible] def sum256 (m : List UInt8) : Bytes 32 :=
  let padded := pad m
  ((List.range (padded.length / 64)).foldl
    (fun s i => compress s ((padded.drop (64 * i)).take 64)) initial).digest

-- the digest of `hello`
example : (sum256 (ascii "hello")).val =
    [0x2c, 0xf2, 0x4d, 0xba, 0x5f, 0xb0, 0xa3, 0x0e, 0x26, 0xe8, 0x3b, 0x2a, 0xc5, 0xb9, 0xe2, 0x9e,
      0x1b, 0x16, 0x1e, 0x5c, 0x1f, 0xa7, 0x42, 0x5e, 0x73, 0x04, 0x33, 0x62, 0x93, 0x8b, 0x98, 0x24]
    := by decide +kernel

end Kin.Lib.Sha256
