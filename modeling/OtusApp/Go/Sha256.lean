import Mathlib.Algebra.Group.Nat.Defs

/-!
# SHA-256

`crypto/sha256.Sum256` over a byte list: the padded message is read as big-endian words, and each
block of sixteen is expanded to sixty-four and folded into the running digest.
-/

namespace OtusApp.Go.Sha256

/-- The round constants. -/
def roundConstants : List UInt32 := [
  0x428a2f98, 0x71374491, 0xb5c0fbcf, 0xe9b5dba5, 0x3956c25b, 0x59f111f1, 0x923f82a4, 0xab1c5ed5,
  0xd807aa98, 0x12835b01, 0x243185be, 0x550c7dc3, 0x72be5d74, 0x80deb1fe, 0x9bdc06a7, 0xc19bf174,
  0xe49b69c1, 0xefbe4786, 0x0fc19dc6, 0x240ca1cc, 0x2de92c6f, 0x4a7484aa, 0x5cb0a9dc, 0x76f988da,
  0x983e5152, 0xa831c66d, 0xb00327c8, 0xbf597fc7, 0xc6e00bf3, 0xd5a79147, 0x06ca6351, 0x14292967,
  0x27b70a85, 0x2e1b2138, 0x4d2c6dfc, 0x53380d13, 0x650a7354, 0x766a0abb, 0x81c2c92e, 0x92722c85,
  0xa2bfe8a1, 0xa81a664b, 0xc24b8b70, 0xc76c51a3, 0xd192e819, 0xd6990624, 0xf40e3585, 0x106aa070,
  0x19a4c116, 0x1e376c08, 0x2748774c, 0x34b0bcb5, 0x391c0cb3, 0x4ed8aa4a, 0x5b9cca4f, 0x682e6ff3,
  0x748f82ee, 0x78a5636f, 0x84c87814, 0x8cc70208, 0x90befffa, 0xa4506ceb, 0xbef9a3f7, 0xc67178f2]

/-- The running digest: eight words. -/
structure Digest where
  a : UInt32
  b : UInt32
  c : UInt32
  d : UInt32
  e : UInt32
  f : UInt32
  g : UInt32
  h : UInt32

def Digest.start : Digest :=
  ⟨0x6a09e667, 0xbb67ae85, 0x3c6ef372, 0xa54ff53a, 0x510e527f, 0x9b05688c, 0x1f83d9ab, 0x5be0cd19⟩

def Digest.words (x : Digest) : List UInt32 := [x.a, x.b, x.c, x.d, x.e, x.f, x.g, x.h]

def Digest.add (x y : Digest) : Digest :=
  ⟨x.a + y.a, x.b + y.b, x.c + y.c, x.d + y.d, x.e + y.e, x.f + y.f, x.g + y.g, x.h + y.h⟩

def rotr (x n : UInt32) : UInt32 := (x >>> n) ||| (x <<< (32 - n))

/-- One round, on a constant and an expanded word. -/
def Digest.round (x : Digest) (kw : UInt32 × UInt32) : Digest :=
  let s1 := rotr x.e 6 ^^^ rotr x.e 11 ^^^ rotr x.e 25
  let ch := (x.e &&& x.f) ^^^ (~~~x.e &&& x.g)
  let t1 := x.h + s1 + ch + kw.1 + kw.2
  let s0 := rotr x.a 2 ^^^ rotr x.a 13 ^^^ rotr x.a 22
  let maj := (x.a &&& x.b) ^^^ (x.a &&& x.c) ^^^ (x.b &&& x.c)
  ⟨t1 + (s0 + maj), x.a, x.b, x.c, x.d + t1, x.e, x.f, x.g⟩

/-- A word's bytes, most significant first. -/
def wordBytes (w : UInt32) : List UInt8 :=
  [(w >>> 24).toUInt8, (w >>> 16).toUInt8, (w >>> 8).toUInt8, w.toUInt8]

/-- Big-endian words; a tail shorter than a word is dropped, and padding leaves none. -/
def wordsOf : List UInt8 → List UInt32
  | a :: b :: c :: d :: rest =>
    ((a.toUInt32 <<< 24) ||| (b.toUInt32 <<< 16) ||| (c.toUInt32 <<< 8) ||| d.toUInt32) ::
      wordsOf rest
  | _ => []

/-- One more expanded word, on the words so far with the newest first. -/
def extend (w : List UInt32) : List UInt32 :=
  let w2 := w.getD 1 0
  let w15 := w.getD 14 0
  let s0 := rotr w15 7 ^^^ rotr w15 18 ^^^ (w15 >>> 3)
  let s1 := rotr w2 17 ^^^ rotr w2 19 ^^^ (w2 >>> 10)
  (w.getD 15 0 + s0 + w.getD 6 0 + s1) :: w

/-- A block's sixty-four expanded words. -/
def schedule (block : List UInt32) : List UInt32 := (Nat.repeat extend 48 block.reverse).reverse

def compress (x : Digest) (block : List UInt32) : Digest :=
  x.add ((roundConstants.zip (schedule block)).foldl Digest.round x)

/-- The message, a one bit, zeros to eight bytes short of a block, and the length in bits. -/
def pad (msg : List UInt8) : List UInt8 :=
  let bits := 8 * msg.length
  msg ++ [0x80] ++ List.replicate ((119 - msg.length % 64) % 64) 0 ++
    wordBytes (UInt32.ofNat (bits / 2 ^ 32)) ++ wordBytes (UInt32.ofNat bits)

/-- The first `n` blocks folded into the digest. -/
def blocks : Nat → List UInt32 → Digest → Digest
  | 0, _, x => x
  | n + 1, ws, x => blocks n (ws.drop 16) (compress x (ws.take 16))

/-- `sha256.Sum256`. -/
def sum256 (msg : List UInt8) : List UInt8 :=
  let ws := wordsOf (pad msg)
  (blocks (ws.length / 16) ws Digest.start).words.flatMap wordBytes

example : (sum256 [0x61, 0x62, 0x63]).take 4 = [0xba, 0x78, 0x16, 0xbf] := by decide +kernel

end OtusApp.Go.Sha256
