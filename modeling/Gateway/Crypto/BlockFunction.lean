import Mathlib.Data.Nat.NthRoot.Defs
import Gateway.Lib.Loops
import Gateway.Lib.SlidingWindow
import Gateway.Crypto.Fips180

/-!
# The block function of FIPS 180-4

`blockHash` is the standard's step from one hash value to the next, with its schedule of 64 words
and its constants taken from the roots of the first primes. `compress` keeps only the last 16
schedule words, in a circular window; `compress_eq_blockHash` says that the two agree. With it the
streaming interface is compared with a SHA-256 that no definition of the C code enters.
-/

namespace Gateway.Sha256.Fips

open BlockHash Loops SlidingWindow

/-! ## Constants -/

/-- The primes up to 311: the first 64. -/
def primes : List ℕ :=
  (List.range 312).filter fun p => 2 ≤ p ∧ ∀ d ∈ List.range' 2 16, d < p → p % d ≠ 0

/-- The first 32 bits of the fractional part of the `n`th root of `p`. -/
def rootFraction (n p : ℕ) : Word := BitVec.ofNat 32 (Nat.nthRoot n (p * 2 ^ (32 * n)))

/-- `K`. -/
def constants : List Word := primes.map (rootFraction 3)

/-- `H⁽⁰⁾`. -/
def initialValue : Vector Word 8 := Vector.ofFn fun i => rootFraction 2 (primes.getD i 0)

theorem toList_k256 : k256.toList = constants := by decide +kernel

theorem initialHash_eq_initialValue : initialHash = initialValue := by decide +kernel

/-! ## The functions of section 4.1.2 -/

def bigSigma0 (x : Word) : Word := x.rotateRight 2 ^^^ x.rotateRight 13 ^^^ x.rotateRight 22
def bigSigma1 (x : Word) : Word := x.rotateRight 6 ^^^ x.rotateRight 11 ^^^ x.rotateRight 25
def smallSigma0 (x : Word) : Word := x.rotateRight 7 ^^^ x.rotateRight 18 ^^^ x >>> 3
def smallSigma1 (x : Word) : Word := x.rotateRight 17 ^^^ x.rotateRight 19 ^^^ x >>> 10

theorem rotr_eq_rotateRight (a : Word) {n : ℕ} (h : n < 32) : rotr a n = a.rotateRight n :=
  (BitVec.rotateRight_eq_rotateRightAux_of_lt h).symm

theorem Sigma0_eq (a : Word) : Sigma0 a = bigSigma0 a := by
  unfold Sigma0 bigSigma0
  simp only [rotr_eq_rotateRight, Nat.reduceLT]

theorem Sigma1_eq (a : Word) : Sigma1 a = bigSigma1 a := by
  unfold Sigma1 bigSigma1
  simp only [rotr_eq_rotateRight, Nat.reduceLT]

theorem sigma0_eq (a : Word) : sigma0 a = smallSigma0 a := by
  unfold sigma0 smallSigma0
  simp only [rotr_eq_rotateRight, Nat.reduceLT]

theorem sigma1_eq (a : Word) : sigma1 a = smallSigma1 a := by
  unfold sigma1 smallSigma1
  simp only [rotr_eq_rotateRight, Nat.reduceLT]

/-! ## One block -/

/-- Byte `k` of `M_t`, most significant first. -/
def blockByte (M : Vector Byte 64) (t : Fin 16) (k : Fin 4) : Byte :=
  M.get ⟨4 * t.val + k.val, by omega⟩

/-- `M_t`. -/
def blockWord (M : Vector Byte 64) (t : Fin 16) : Word :=
  blockByte M t 0 ++ blockByte M t 1 ++ blockByte M t 2 ++ blockByte M t 3

/-- `W_t`. -/
def schedule (M : Vector Byte 64) (t : ℕ) : Word :=
  if h : t < 16 then blockWord M ⟨t, h⟩
  else
    smallSigma1 (schedule M (t - 2)) + schedule M (t - 7) + smallSigma0 (schedule M (t - 15)) +
      schedule M (t - 16)

/-- The eight working variables. -/
structure Variables where
  a : Word
  b : Word
  c : Word
  d : Word
  e : Word
  f : Word
  g : Word
  h : Word

def Variables.round (v : Variables) (K W : Word) : Variables :=
  let T1 := v.h + bigSigma1 v.e + Ch v.e v.f v.g + K + W
  let T2 := bigSigma0 v.a + Maj v.a v.b v.c
  ⟨T1 + T2, v.a, v.b, v.c, v.d + T1, v.e, v.f, v.g⟩

/-- The working variables before round `t`. -/
def rounds (H : Vector Word 8) (M : Vector Byte 64) : ℕ → Variables
  | 0 => ⟨H.get 0, H.get 1, H.get 2, H.get 3, H.get 4, H.get 5, H.get 6, H.get 7⟩
  | t + 1 => (rounds H M t).round (constants.getD t 0) (schedule M t)

def Variables.add (v : Variables) (H : Vector Word 8) : Vector Word 8 :=
  #v[v.a + H.get 0, v.b + H.get 1, v.c + H.get 2, v.d + H.get 3, v.e + H.get 4, v.f + H.get 5,
    v.g + H.get 6, v.h + H.get 7]

/-- The next hash value. -/
def blockHash (H : Vector Word 8) (M : Vector Byte 64) : Vector Word 8 := (rounds H M 64).add H

theorem schedule_of_lt (M : Vector Byte 64) {t : ℕ} (h : t < 16) :
    schedule M t = blockWord M ⟨t, h⟩ := by
  rw [schedule, dif_pos h]

theorem schedule_add (M : Vector Byte 64) (t : ℕ) :
    schedule M (t + 16) = smallSigma1 (schedule M (t + 14)) + schedule M (t + 9) +
      smallSigma0 (schedule M (t + 1)) + schedule M t := by
  rw [schedule, dif_neg (by omega)]
  rfl

theorem bigEndian_eq_blockWord (M : Vector Byte 64) (t : Fin 16) :
    bigEndian M t = blockWord M t := by
  show (blockByte M t 0).setWidth 32 <<< 24 ||| (blockByte M t 1).setWidth 32 <<< 16 |||
    (blockByte M t 2).setWidth 32 <<< 8 ||| (blockByte M t 3).setWidth 32 = _
  unfold blockWord
  apply BitVec.eq_of_getLsbD_eq (w := 8 + 8 + 8 + 8)
  intro i hi
  rw [BitVec.getLsbD_append, BitVec.getLsbD_append, BitVec.getLsbD_append]
  simp only [BitVec.getLsbD_or, BitVec.getLsbD_shiftLeft, BitVec.getLsbD_setWidth]
  grind

/-! ## The loops of `compress` -/

variable {H : Vector Word 8} {M : Vector Byte 64} {t : ℕ} {s : Working}

/-- The locals of `compress` before iteration `t`. -/
structure Tracks (H : Vector Word 8) (M : Vector Byte 64) (t : ℕ) (s : Working) : Prop where
  vars : Variables.mk s.a s.b s.c s.d s.e s.f s.g s.h = rounds H M t
  window : HoldsLast (schedule M) t s.workSpace

theorem k256_eq_constants (i : Fin 64) : k256.get i = constants.getD i 0 := by
  rw [← toList_k256, List.getD_eq_getElem _ _ (by simp), Vector.getElem_toList]
  rfl

/-- The tail of both loops, once the schedule word is in the window. -/
theorem Tracks.round (h : Tracks H M t s) {i : Fin 64} (hi : i.val = t) {slot : ℕ}
    (hslot : slot < 16) (hmod : t % 16 = slot) :
    Tracks H M (t + 1)
      ({ s with workSpace := s.workSpace.set slot (schedule M t) hslot }.round i (schedule M t)) where
  vars := by
    subst hi
    rw [rounds, ← h.vars]
    have hk : k256[i] = constants.getD i 0 := k256_eq_constants i
    have hT1 : schedule M i + (s.h + Sigma1 s.e + Ch s.e s.f s.g + k256[i]) =
        s.h + bigSigma1 s.e + Ch s.e s.f s.g + constants.getD i 0 + schedule M i := by
      rw [Sigma1_eq, hk, BitVec.add_comm]
    simp only [Working.round, Variables.round, hT1, Sigma0_eq]
  window := h.window.push hslot hmod

theorem Tracks.load (h : Tracks H M t s) {i : Fin 16} (hi : i.val = t) :
    Tracks H M (t + 1) (s.load M i) := by
  subst hi
  have hword : bigEndian M i = schedule M i :=
    (bigEndian_eq_blockWord M i).trans (schedule_of_lt M i.isLt).symm
  unfold Working.load
  rw [hword]
  exact h.round rfl i.isLt (Nat.mod_eq_of_lt i.isLt)

theorem Tracks.mix (h : Tracks H M (t + 16) s) {i : Fin 64} (hi : i.val = t + 16) :
    Tracks H M (t + 16 + 1) (s.mix i) := by
  have hslot (k slot : ℕ) (hlt : slot < 16) (hk : k < 16) (hmod : (t + k) % 16 = slot) :
      s.workSpace[slot] = schedule M (t + k) :=
    h.window (t + k) slot hlt (by omega) (by omega) hmod
  have hword : s.workSpace[i.val % 16] + (sigma0 s.workSpace[(i.val + 1) % 16] +
      sigma1 s.workSpace[(i.val + 14) % 16] + s.workSpace[(i.val + 9) % 16]) =
        schedule M (t + 16) := by
    rw [hslot 0 (i.val % 16) (by omega) (by omega) (by omega),
      hslot 1 ((i.val + 1) % 16) (by omega) (by omega) (by omega),
      hslot 14 ((i.val + 14) % 16) (by omega) (by omega) (by omega),
      hslot 9 ((i.val + 9) % 16) (by omega) (by omega) (by omega), schedule_add, sigma0_eq,
      sigma1_eq]
    ac_rfl
  unfold Working.mix
  dsimp only
  rw [hword]
  exact h.round hi (by omega) (by rw [hi])

/-- `compress` is the block function of the standard. -/
theorem compress_eq_blockHash (H : Vector Word 8) (M : Vector Byte 64) :
    compress H M = blockHash H M := by
  let start : Working := ⟨H[0], H[1], H[2], H[3], H[4], H[5], H[6], H[7], Vector.replicate 16 0⟩
  have hload : Tracks H M 16 ((List.finRange 16).foldl (Working.load M) start) :=
    foldl_finRange_inv (I := Tracks H M) (fun i s h => h.load rfl) ⟨rfl, holdsLast_zero _⟩
  have hdrop : (List.finRange 64).drop 16 = (List.finRange 48).map (Fin.natAdd 16) := by decide
  have hmix : Tracks H M 64 (((List.finRange 64).drop 16).foldl Working.mix
      ((List.finRange 16).foldl (Working.load M) start)) := by
    rw [hdrop, List.foldl_map]
    exact foldl_finRange_inv (n := 48) (I := fun t => Tracks H M (t + 16))
      (fun i s h => h.mix (i := Fin.natAdd 16 i) (Nat.add_comm 16 i)) hload
  have hadd (s : Working) : #v[H.get 0 + s.a, H.get 1 + s.b, H.get 2 + s.c, H.get 3 + s.d,
      H.get 4 + s.e, H.get 5 + s.f, H.get 6 + s.g, H.get 7 + s.h] =
        (Variables.mk s.a s.b s.c s.d s.e s.f s.g s.h).add H := by
    simp only [Variables.add, BitVec.add_comm]
  exact (hadd _).trans (congrArg (Variables.add · H) hmix.vars)

/-! ## The whole hash -/

/-- SHA-256 of FIPS 180-4. -/
def hash (msg : List Byte) : List Byte :=
  (foldBlocks blockHash initialValue (msg ++ padding msg.length)).toList.flatMap (bytesBE 4)

theorem sha256_eq_hash (msg : List Byte) : sha256 msg = hash msg := by
  have hblock : compress = blockHash := by
    funext H M
    exact compress_eq_blockHash H M
  unfold sha256 hash
  rw [hblock, initialHash_eq_initialValue]

/-- A message that reaches `tc_sha256_update` in any pieces is hashed as one. -/
theorem toList_final_foldl_update (chunks : List (List Byte)) :
    (final (chunks.foldl update init)).toList = hash chunks.flatten := by
  have hpieces : chunks.foldl update init = update init chunks.flatten := by
    unfold update
    rw [List.foldl_flatten]
  rw [hpieces, toList_final_update, sha256_eq_hash]

end Gateway.Sha256.Fips
