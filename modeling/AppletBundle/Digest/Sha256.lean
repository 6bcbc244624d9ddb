/-!
# SHA-256

The digest of the secure hash standard with 256 bits, as a function on lists of bytes: the message
is padded to whole blocks of 64 bytes, and every block is folded into the eight words of the state.
-/

namespace AppletBundle.Digest

/-- The first 32 bits of the fractional parts of the cube roots of the first 64 primes. -/
def roundConstants : List UInt32 :=
  [0x428a2f98, 0x71374491, 0xb5c0fbcf, 0xe9b5dba5, 0x3956c25b, 0x59f111f1, 0x923f82a4, 0xab1c5ed5,
   0xd807aa98, 0x12835b01, 0x243185be, 0x550c7dc3, 0x72be5d74, 0x80deb1fe, 0x9bdc06a7, 0xc19bf174,
   0xe49b69c1, 0xefbe4786, 0x0fc19dc6, 0x240ca1cc, 0x2de92c6f, 0x4a7484aa, 0x5cb0a9dc, 0x76f988da,
   0x983e5152, 0xa831c66d, 0xb00327c8, 0xbf597fc7, 0xc6e00bf3, 0xd5a79147, 0x06ca6351, 0x14292967,
   0x27b70a85, 0x2e1b2138, 0x4d2c6dfc, 0x53380d13, 0x650a7354, 0x766a0abb, 0x81c2c92e, 0x92722c85,
   0xa2bfe8a1, 0xa81a664b, 0xc24b8b70, 0xc76c51a3, 0xd192e819, 0xd6990624, 0xf40e3585, 0x106aa070,
   0x19a4c116, 0x1e376c08, 0x2748774c, 0x34b0bcb5, 0x391c0cb3, 0x4ed8aa4a, 0x5b9cca4f, 0x682e6ff3,
   0x748f82ee, 0x78a5636f, 0x84c87814, 0x8cc70208, 0x90befffa, 0xa4506ceb, 0xbef9a3f7, 0xc67178f2]

/-- The eight working words. -/
structure Words where
  a : UInt32
  b : UInt32
  c : UInt32
  d : UInt32
  e : UInt32
  f : UInt32
  g : UInt32
  h : UInt32

/-- The first 32 bits of the fractional parts of the square roots of the first 8 primes. -/
def Words.initial : Words where
  a := 0x6a09e667
  b := 0xbb67ae85
  c := 0x3c6ef372
  d := 0xa54ff53a
  e := 0x510e527f
  f := 0x9b05688c
  g := 0x1f83d9ab
  h := 0x5be0cd19

/-- Rotation to the right. -/
def rotate (x : UInt32) (n : UInt32) : UInt32 :=
  (x >>> n) ||| (x <<< (32 - n))

/-- The word of four bytes, the highest first. -/
def bigEndian (bytes : List UInt8) : UInt32 :=
  bytes.foldl (fun w b ↦ (w <<< 8) ||| b.toUInt32) 0

/-- The four bytes of a word, the highest first. -/
def wordBytes (w : UInt32) : List UInt8 :=
  [(w >>> 24).toUInt8, (w >>> 16).toUInt8, (w >>> 8).toUInt8, w.toUInt8]

/-- The message with a one bit, zeros and its length in bits, up to a whole number of blocks. -/
def padded (message : List UInt8) : List UInt8 :=
  let n := message.length
  let zeros : List UInt8 := List.replicate ((119 - n % 64) % 64) 0
  let size : List UInt8 := (List.range 8).map fun i ↦ UInt8.ofNat ((8 * n) >>> (8 * (7 - i)))
  message ++ 0x80 :: zeros ++ size

/-- Extends the schedule by `n` words; `recent` holds the words so far, the newest first. -/
def extendSchedule : Nat → List UInt32 → List UInt32
  | 0, recent => recent
  | n + 1, recent =>
    let w2 := recent.getD 1 0
    let w7 := recent.getD 6 0
    let w15 := recent.getD 14 0
    let w16 := recent.getD 15 0
    let s0 := rotate w15 7 ^^^ rotate w15 18 ^^^ (w15 >>> 3)
    let s1 := rotate w2 17 ^^^ rotate w2 19 ^^^ (w2 >>> 10)
    extendSchedule n ((w16 + s0 + w7 + s1) :: recent)

/-- The first words of a block, the newest first. -/
def blockWords : Nat → List UInt8 → List UInt32 → List UInt32
  | 0, _, words => words
  | n + 1, block, words => blockWords n (block.drop 4) (bigEndian (block.take 4) :: words)

/-- One round, with the sum of its constant and its word of the schedule. -/
def Words.round (s : Words) (k : UInt32) : Words :=
  let s1 := rotate s.e 6 ^^^ rotate s.e 11 ^^^ rotate s.e 25
  let choice := (s.e &&& s.f) ^^^ (~~~s.e &&& s.g)
  let t1 := s.h + s1 + choice + k
  let s0 := rotate s.a 2 ^^^ rotate s.a 13 ^^^ rotate s.a 22
  let majority := (s.a &&& s.b) ^^^ (s.a &&& s.c) ^^^ (s.b &&& s.c)
  ⟨t1 + s0 + majority, s.a, s.b, s.c, s.d + t1, s.e, s.f, s.g⟩

/-- Folds one block into the state. -/
def Words.absorb (s : Words) (block : List UInt8) : Words :=
  let schedule := (extendSchedule 48 (blockWords 16 block [])).reverse
  let t := (List.zipWith (· + ·) roundConstants schedule).foldl Words.round s
  ⟨s.a + t.a, s.b + t.b, s.c + t.c, s.d + t.d, s.e + t.e, s.f + t.f, s.g + t.g, s.h + t.h⟩

/-- Folds `n` blocks into the state. -/
def Words.absorbBlocks : Nat → Words → List UInt8 → Words
  | 0, s, _ => s
  | n + 1, s, bytes => absorbBlocks n (s.absorb (bytes.take 64)) (bytes.drop 64)

/-- The 32 bytes of the digest. -/
def sha256 (message : List UInt8) : List UInt8 :=
  let bytes := padded message
  let s := Words.initial.absorbBlocks (bytes.length / 64) bytes
  [s.a, s.b, s.c, s.d, s.e, s.f, s.g, s.h].flatMap wordBytes

/-- Two lower-case hexadecimal digits. -/
def hexByte (b : UInt8) : List Char :=
  [Nat.digitChar (b.toNat / 16), Nat.digitChar (b.toNat % 16)]

end AppletBundle.Digest
