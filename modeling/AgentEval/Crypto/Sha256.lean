import AgentEval.Js.Str

/-!
# SHA-256

The hash function behind `createHash('sha256')`: padding to 64-byte blocks, the message schedule,
the 64-round compression. `sha256` is irreducible: no proof about the repository looks inside it,
and what a result needs of it is stated as the absence of a collision among named inputs
(`Crypto.CollisionIn`).
-/

namespace Sha256

open Js

/-- A 32-byte digest. -/
structure Digest where
  /-- The octets. -/
  bytes : Bytes
  /-- There are 32 of them. -/
  length_bytes : bytes.length = 32
  deriving DecidableEq

/-- Digests with the same octets are equal. -/
theorem Digest.ext {a b : Digest} (h : a.bytes = b.bytes) : a = b := by
  cases a
  cases b
  simpa using h

/-- The eight working words. -/
structure Words where
  /-- The first word. -/
  a : UInt32
  /-- The second word. -/
  b : UInt32
  /-- The third word. -/
  c : UInt32
  /-- The fourth word. -/
  d : UInt32
  /-- The fifth word. -/
  e : UInt32
  /-- The sixth word. -/
  f : UInt32
  /-- The seventh word. -/
  g : UInt32
  /-- The eighth word. -/
  h : UInt32

/-- The initial hash value. -/
def initial : Words :=
  ⟨0x6a09e667, 0xbb67ae85, 0x3c6ef372, 0xa54ff53a, 0x510e527f, 0x9b05688c, 0x1f83d9ab, 0x5be0cd19⟩

/-- The round constants. -/
def roundConstants : List UInt32 :=
  [0x428a2f98, 0x71374491, 0xb5c0fbcf, 0xe9b5dba5, 0x3956c25b, 0x59f111f1, 0x923f82a4, 0xab1c5ed5,
   0xd807aa98, 0x12835b01, 0x243185be, 0x550c7dc3, 0x72be5d74, 0x80deb1fe, 0x9bdc06a7, 0xc19bf174,
   0xe49b69c1, 0xefbe4786, 0x0fc19dc6, 0x240ca1cc, 0x2de92c6f, 0x4a7484aa, 0x5cb0a9dc, 0x76f988da,
   0x983e5152, 0xa831c66d, 0xb00327c8, 0xbf597fc7, 0xc6e00bf3, 0xd5a79147, 0x06ca6351, 0x14292967,
   0x27b70a85, 0x2e1b2138, 0x4d2c6dfc, 0x53380d13, 0x650a7354, 0x766a0abb, 0x81c2c92e, 0x92722c85,
   0xa2bfe8a1, 0xa81a664b, 0xc24b8b70, 0xc76c51a3, 0xd192e819, 0xd6990624, 0xf40e3585, 0x106aa070,
   0x19a4c116, 0x1e376c08, 0x2748774c, 0x34b0bcb5, 0x391c0cb3, 0x4ed8aa4a, 0x5b9cca4f, 0x682e6ff3,
   0x748f82ee, 0x78a5636f, 0x84c87814, 0x8cc70208, 0x90befffa, 0xa4506ceb, 0xbef9a3f7, 0xc67178f2]

/-- Rotation to the right. -/
def rotr (x n : UInt32) : UInt32 := (x >>> n) ||| (x <<< (32 - n))

/-- One round. -/
def round (s : Words) (k w : UInt32) : Words :=
  let t₁ := s.h + (rotr s.e 6 ^^^ rotr s.e 11 ^^^ rotr s.e 25) +
    ((s.e &&& s.f) ^^^ (~~~s.e &&& s.g)) + k + w
  let t₂ := (rotr s.a 2 ^^^ rotr s.a 13 ^^^ rotr s.a 22) +
    ((s.a &&& s.b) ^^^ (s.a &&& s.c) ^^^ (s.b &&& s.c))
  ⟨t₁ + t₂, s.a, s.b, s.c, s.d + t₁, s.e, s.f, s.g⟩

/-- The next schedule word from the last sixteen, oldest first. -/
def nextWord (w : List UInt32) : UInt32 :=
  let x := w.getD 1 0
  let y := w.getD 14 0
  (rotr y 17 ^^^ rotr y 19 ^^^ (y >>> 10)) + w.getD 9 0 +
    (rotr x 7 ^^^ rotr x 18 ^^^ (x >>> 3)) + w.getD 0 0

/-- The schedule: the sixteen words of the block and `n` more. -/
def schedule : ℕ → List UInt32 → List UInt32
  | 0, w => w
  | n + 1, w => w.headD 0 :: schedule n (w.tail ++ [nextWord w])

/-- Big-endian words. -/
def toWords : Bytes → List UInt32
  | x :: y :: z :: t :: b =>
    UInt32.ofNat (((x.toNat * 256 + y.toNat) * 256 + z.toNat) * 256 + t.toNat) :: toWords b
  | _ => []

/-- The octets of a word, most significant first. -/
def ofWord (w : UInt32) : Bytes :=
  [UInt8.ofNat (w.toNat / 16777216), UInt8.ofNat (w.toNat / 65536), UInt8.ofNat (w.toNat / 256),
    UInt8.ofNat w.toNat]

/-- The compression of one block into the hash value. -/
def compress (s : Words) (block : Bytes) : Words :=
  let r := (roundConstants.zip (schedule 48 (toWords block))).foldl (fun t p => round t p.1 p.2) s
  ⟨s.a + r.a, s.b + r.b, s.c + r.c, s.d + r.d, s.e + r.e, s.f + r.f, s.g + r.g, s.h + r.h⟩

/-- The message, a one bit, zeros, and the length in bits as eight octets. -/
def pad (m : Bytes) : Bytes :=
  m ++ 0x80 :: List.replicate ((119 - m.length % 64) % 64) 0 ++
    ofWord (UInt32.ofNat (8 * m.length / 4294967296)) ++ ofWord (UInt32.ofNat (8 * m.length))

/-- The compression of `n` consecutive blocks. -/
def compressAll : ℕ → Words → Bytes → Words
  | 0, s, _ => s
  | n + 1, s, b => compressAll n (compress s (b.take 64)) (b.drop 64)

/-- The octets of the hash value. -/
def Words.toBytes (s : Words) : Bytes :=
  ofWord s.a ++ ofWord s.b ++ ofWord s.c ++ ofWord s.d ++ ofWord s.e ++ ofWord s.f ++ ofWord s.g ++
    ofWord s.h

/-- SHA-256. -/
@[irreducible] def sha256 (m : Bytes) : Digest :=
  ⟨(compressAll ((pad m).length / 64) initial (pad m)).toBytes, rfl⟩

end Sha256
