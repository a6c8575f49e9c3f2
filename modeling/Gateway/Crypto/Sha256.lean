import Gateway.Basic

/-!
# SHA-256 (TinyCrypt)

`include/crypto/sha256.c`: the block function `compress`, and the byte-at-a-time streaming
interface `tc_sha256_init`, `tc_sha256_update`, `tc_sha256_final`. The null-pointer checks of the
interface are left out: every caller passes addresses of its own locals.
-/

namespace Gateway.Sha256

/-! ## The block function -/

/-- `k256`. -/
def k256 : Vector Word 64 := #v[
  0x428a2f98, 0x71374491, 0xb5c0fbcf, 0xe9b5dba5, 0x3956c25b, 0x59f111f1,
  0x923f82a4, 0xab1c5ed5, 0xd807aa98, 0x12835b01, 0x243185be, 0x550c7dc3,
  0x72be5d74, 0x80deb1fe, 0x9bdc06a7, 0xc19bf174, 0xe49b69c1, 0xefbe4786,
  0x0fc19dc6, 0x240ca1cc, 0x2de92c6f, 0x4a7484aa, 0x5cb0a9dc, 0x76f988da,
  0x983e5152, 0xa831c66d, 0xb00327c8, 0xbf597fc7, 0xc6e00bf3, 0xd5a79147,
  0x06ca6351, 0x14292967, 0x27b70a85, 0x2e1b2138, 0x4d2c6dfc, 0x53380d13,
  0x650a7354, 0x766a0abb, 0x81c2c92e, 0x92722c85, 0xa2bfe8a1, 0xa81a664b,
  0xc24b8b70, 0xc76c51a3, 0xd192e819, 0xd6990624, 0xf40e3585, 0x106aa070,
  0x19a4c116, 0x1e376c08, 0x2748774c, 0x34b0bcb5, 0x391c0cb3, 0x4ed8aa4a,
  0x5b9cca4f, 0x682e6ff3, 0x748f82ee, 0x78a5636f, 0x84c87814, 0x8cc70208,
  0x90befffa, 0xa4506ceb, 0xbef9a3f7, 0xc67178f2]

def rotr (a : Word) (n : ℕ) : Word := (a >>> n) ||| (a <<< (32 - n))

def Sigma0 (a : Word) : Word := rotr a 2 ^^^ rotr a 13 ^^^ rotr a 22
def Sigma1 (a : Word) : Word := rotr a 6 ^^^ rotr a 11 ^^^ rotr a 25
def sigma0 (a : Word) : Word := rotr a 7 ^^^ rotr a 18 ^^^ (a >>> 3)
def sigma1 (a : Word) : Word := rotr a 17 ^^^ rotr a 19 ^^^ (a >>> 10)

def Ch (a b c : Word) : Word := (a &&& b) ^^^ (~~~a &&& c)
def Maj (a b c : Word) : Word := (a &&& b) ^^^ (a &&& c) ^^^ (b &&& c)

/-- The word at byte offset `4 * i` of a block, most significant byte first. -/
def bigEndian (data : Vector Byte 64) (i : Fin 16) : Word :=
  (data[4 * i.val].setWidth 32 <<< 24) ||| (data[4 * i.val + 1].setWidth 32 <<< 16) |||
    (data[4 * i.val + 2].setWidth 32 <<< 8) ||| data[4 * i.val + 3].setWidth 32

/-- The locals of `compress`: the eight working variables and the schedule window. -/
structure Working where
  a : Word
  b : Word
  c : Word
  d : Word
  e : Word
  f : Word
  g : Word
  h : Word
  workSpace : Vector Word 16

/-- The tail both loops of `compress` share: a round with schedule word `w`. -/
def Working.round (s : Working) (i : Fin 64) (w : Word) : Working :=
  let t1 := w + (s.h + Sigma1 s.e + Ch s.e s.f s.g + k256[i])
  let t2 := Sigma0 s.a + Maj s.a s.b s.c
  { s with h := s.g, g := s.f, f := s.e, e := s.d + t1, d := s.c, c := s.b, b := s.a, a := t1 + t2 }

/-- Iteration `i < 16`: the schedule word is read from the block. -/
def Working.load (data : Vector Byte 64) (s : Working) (i : Fin 16) : Working :=
  let n := bigEndian data i
  { s with workSpace := s.workSpace.set i n }.round (i.castLE (by omega)) n

/-- Iteration `16 ≤ i`: the schedule word is mixed from the window. -/
def Working.mix (s : Working) (i : Fin 64) : Working :=
  let s0 := sigma0 s.workSpace[(i.val + 1) % 16]
  let s1 := sigma1 s.workSpace[(i.val + 14) % 16]
  let n := s.workSpace[i.val % 16] + (s0 + s1 + s.workSpace[(i.val + 9) % 16])
  { s with workSpace := s.workSpace.set (i.val % 16) n }.round i n

/-- `compress`. -/
def compress (iv : Vector Word 8) (data : Vector Byte 64) : Vector Word 8 :=
  let s : Working :=
    { a := iv[0], b := iv[1], c := iv[2], d := iv[3], e := iv[4], f := iv[5], g := iv[6],
      h := iv[7], workSpace := Vector.replicate 16 0 }
  let s := (List.finRange 16).foldl (Working.load data) s
  let s := ((List.finRange 64).drop 16).foldl Working.mix s
  #v[iv[0] + s.a, iv[1] + s.b, iv[2] + s.c, iv[3] + s.d,
    iv[4] + s.e, iv[5] + s.f, iv[6] + s.g, iv[7] + s.h]

/-! ## The streaming interface -/

/-- `struct tc_sha256_state_struct`. -/
structure State where
  iv : Vector Word 8
  bitsHashed : DWord
  leftover : Vector Byte 64
  leftoverOffset : ℕ

/-- `_set(data + off, val, len)`. -/
def setBytes (data : Vector Byte 64) (off : ℕ) (val : Byte) (len : ℕ) : Vector Byte 64 :=
  Vector.ofFn fun i => if off ≤ i.val ∧ i.val < off + len then val else data[i]

/-- `tc_sha256_init`. -/
def init : State where
  iv := #v[0x6a09e667, 0xbb67ae85, 0x3c6ef372, 0xa54ff53a,
    0x510e527f, 0x9b05688c, 0x1f83d9ab, 0x5be0cd19]
  bitsHashed := 0
  leftover := Vector.replicate 64 0
  leftoverOffset := 0

/-- One iteration of the loop of `tc_sha256_update`. -/
def updateByte (s : State) (b : Byte) : State :=
  let leftover := s.leftover.setIfInBounds s.leftoverOffset b
  let off := s.leftoverOffset + 1
  if 64 ≤ off then
    { iv := compress s.iv leftover, bitsHashed := s.bitsHashed + (64 <<< 3), leftover,
      leftoverOffset := 0 }
  else { s with leftover, leftoverOffset := off }

/-- `tc_sha256_update`. -/
def update (s : State) (data : List Byte) : State := data.foldl updateByte s

/-- The eight big-endian length bytes that `tc_sha256_final` stores at the end of the block. -/
def storeLength (data : Vector Byte 64) (bits : DWord) : Vector Byte 64 :=
  Vector.ofFn fun i =>
    if 56 ≤ i.val then (bits >>> (8 * (63 - i.val))).setWidth 8 else data[i]

/-- The bytes of a state vector, most significant byte of each word first. -/
def digestOf (iv : Vector Word 8) : Vector Byte 32 :=
  Vector.ofFn fun i => byteOf (iv[i.val / 4]) (3 - i.val % 4)

/-- `tc_sha256_final`: the digest. The state it clears afterwards is not used again. -/
def final (s : State) : Vector Byte 32 :=
  let bits := s.bitsHashed + (BitVec.ofNat 64 s.leftoverOffset <<< 3)
  let leftover := s.leftover.setIfInBounds s.leftoverOffset 0x80
  let off := s.leftoverOffset + 1
  let s : State :=
    -- the padding does not fit in this block
    if 56 < off then
      { iv := compress s.iv (setBytes leftover off 0 (64 - off)), bitsHashed := bits,
        leftover := setBytes leftover off 0 (64 - off), leftoverOffset := 0 }
    else { s with bitsHashed := bits, leftover, leftoverOffset := off }
  let leftover := setBytes s.leftover s.leftoverOffset 0 (56 - s.leftoverOffset)
  digestOf (compress s.iv (storeLength leftover s.bitsHashed))

end Gateway.Sha256
