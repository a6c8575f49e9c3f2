import Mathlib.Data.List.OfFn
import Gateway.Lib.BlockHash
import Gateway.Crypto.Sha256

/-!
# SHA-256 of a whole message

`sha256` is the hash of FIPS 180-4 with the block function `compress`: the message is padded to
whole blocks and the blocks are folded from the initial value. `tc_sha256_update` takes it one byte
at a time and `tc_sha256_final` pads in the buffer; together they compute `sha256`
(`toList_final_update`).
-/

namespace Gateway.Sha256

open BlockHash

/-! ## The specification -/

/-- The bytes of an integer, most significant first. -/
def bytesBE (n : ℕ) (w : BitVec (8 * n)) : List Byte :=
  (List.range n).map fun i => w.extractLsb' (8 * (n - 1 - i)) 8

/-- `H⁽⁰⁾`. -/
def initialHash : Vector Word 8 where
  toArray := #[0x6a09e667, 0xbb67ae85, 0x3c6ef372, 0xa54ff53a,
    0x510e527f, 0x9b05688c, 0x1f83d9ab, 0x5be0cd19]
  size_toArray := by decide

/-- The zero bytes of the padding: the fewest after which the length ends a block. -/
def paddingZeros (len : ℕ) : ℕ := (119 - len % 64) % 64

/-- What follows a message of `len` bytes: a byte 0x80, zeros and the length in bits. -/
def padding (len : ℕ) : List Byte :=
  0x80 :: (List.replicate (paddingZeros len) 0 ++ bytesBE 8 (BitVec.ofNat 64 (8 * len)))

def sha256 (msg : List Byte) : List Byte :=
  (foldBlocks compress initialHash (msg ++ padding msg.length)).toList.flatMap (bytesBE 4)

/-- The example of FIPS 180-4, `abc`. -/
example : sha256 [0x61, 0x62, 0x63] =
    [0xBA, 0x78, 0x16, 0xBF, 0x8F, 0x01, 0xCF, 0xEA, 0x41, 0x41, 0x40, 0xDE, 0x5D, 0xAE, 0x22, 0x23,
     0xB0, 0x03, 0x61, 0xA3, 0x96, 0x17, 0x7A, 0x9C, 0xB4, 0x10, 0xFF, 0x61, 0xF2, 0x00, 0x15,
     0xAD] := by decide +kernel

theorem length_bytesBE (n : ℕ) (w : BitVec (8 * n)) : (bytesBE n w).length = n := by
  simp [bytesBE]

/-- A padded message consists of whole blocks. -/
theorem length_padded_mod (msg : List Byte) : (msg ++ padding msg.length).length % 64 = 0 := by
  unfold padding paddingZeros
  rw [List.length_append, List.length_cons, List.length_append, List.length_replicate,
    length_bytesBE]
  omega

theorem paddingZeros_le {len z : ℕ} (h : (len + 1 + z + 8) % 64 = 0) : paddingZeros len ≤ z := by
  unfold paddingZeros
  omega

/-! ## Updates -/

/-- What the state holds of the bytes it was given. -/
structure Holds (s : State) (msg : List Byte) : Prop where
  absorbed : Absorbed compress initialHash msg s.iv s.leftover s.leftoverOffset
  bits : s.bitsHashed = BitVec.ofNat 64 (8 * (64 * (msg.length / 64)))

variable {s : State} {msg : List Byte}

theorem holds_init : Holds init [] := ⟨absorbed_nil _, rfl⟩

theorem Holds.offset_lt (h : Holds s msg) : s.leftoverOffset < 64 := by
  rw [h.absorbed.offset]
  exact Nat.mod_lt _ (by decide)

theorem Holds.updateByte (h : Holds s msg) (b : Byte) :
    Holds (updateByte s b) (msg ++ [b]) := by
  have hlt := h.offset_lt
  have hoff := h.absorbed.offset
  unfold Sha256.updateByte
  dsimp only
  by_cases hfull : 64 ≤ s.leftoverOffset + 1
  · rw [if_pos hfull]
    have hdiv : (msg ++ [b]).length / 64 = msg.length / 64 + 1 := by
      rw [List.length_append, List.length_singleton]
      omega
    have hblock : s.leftover.setIfInBounds s.leftoverOffset b =
        fill s.leftover s.leftoverOffset [b] :=
      (fill_full hfull).symm.trans (fill_cons b hlt)
    refine ⟨?_, ?_⟩
    · rw [hblock]
      exact h.absorbed.complete _ (by rw [List.length_singleton]; omega) (by decide)
    · show s.bitsHashed + BitVec.ofNat 64 512 = _
      rw [h.bits, hdiv, ← BitVec.ofNat_add, Nat.mul_succ, Nat.mul_add]
  · rw [if_neg hfull]
    have hdiv : (msg ++ [b]).length / 64 = msg.length / 64 := by
      rw [List.length_append, List.length_singleton]
      omega
    exact ⟨h.absorbed.push (by omega) b, by rw [hdiv]; exact h.bits⟩

theorem Holds.update (h : Holds s msg) (data : List Byte) :
    Holds (update s data) (msg ++ data) := by
  induction data generalizing s msg with
  | nil => rwa [List.append_nil]
  | cons b data ih =>
    rw [List.append_cons]
    exact ih (h.updateByte b)

/-! ## The last blocks -/

theorem setBytes_eq_fill (data : Vector Byte 64) {off len : ℕ} (val : Byte) (h : off + len = 64) :
    setBytes data off val len = fill data off (List.replicate len val) := by
  refine Vector.ext fun j hj => ?_
  rw [getElem_fill hj, setBytes, Vector.getElem_ofFn]
  dsimp only
  by_cases hlt : j < off
  · rw [if_neg (by omega), if_pos hlt]
    rfl
  · rw [if_pos (by omega), if_neg hlt, List.getD_eq_getElem _ _ (by simp; omega),
      List.getElem_replicate]

/-- The zeros and the length that `tc_sha256_final` stores into the last block. -/
theorem storeLength_setBytes (data : Vector Byte 64) (bits : DWord) {off : ℕ} (h : off ≤ 56) :
    storeLength (setBytes data off 0 (56 - off)) bits =
      fill data off (List.replicate (56 - off) 0 ++ bytesBE 8 bits) := by
  refine Vector.ext fun j hj => ?_
  rw [getElem_fill hj, storeLength, Vector.getElem_ofFn]
  dsimp only
  by_cases hlen : 56 ≤ j
  · rw [if_pos hlen, if_neg (by omega), List.getD_append_right _ _ _ _ (by simp; omega),
      List.length_replicate, show j - off - (56 - off) = j - 56 by omega]
    unfold bytesBE
    rw [List.getD_eq_getElem _ _ (by simp; omega), List.getElem_map, List.getElem_range,
      show 8 - 1 - (j - 56) = 63 - j by omega]
    rfl
  · rw [if_neg hlen, Fin.getElem_fin, setBytes, Vector.getElem_ofFn]
    dsimp only
    by_cases hlt : j < off
    · rw [if_neg (by omega), if_pos hlt]
      rfl
    · rw [if_pos (by omega), if_neg hlt, List.getD_append _ _ _ _ (by simp; omega),
        List.getD_eq_getElem _ _ (by simp; omega), List.getElem_replicate]

theorem bytesBE_four (w : Word) : bytesBE 4 w = List.ofFn fun j : Fin 4 => byteOf w (3 - j) := rfl

theorem toList_digestOf (iv : Vector Word 8) :
    (digestOf iv).toList = iv.toList.flatMap (bytesBE 4) := by
  have hbytes : (digestOf iv).toList =
      List.ofFn fun i : Fin 32 => byteOf (iv[i.val / 4]) (3 - i.val % 4) :=
    Vector.toList_ofFn
  have hwords : iv.toList = List.ofFn fun i : Fin 8 => iv[i.val] :=
    (congrArg Vector.toList Vector.ofFn_getElem.symm).trans Vector.toList_ofFn
  rw [hbytes, hwords, List.flatMap_def, List.map_ofFn]
  refine (List.ofFn_mul (m := 8) (n := 4) _).trans
    (congrArg List.flatten (congrArg List.ofFn (funext fun i => ?_)))
  refine Eq.trans (congrArg List.ofFn (funext fun j => ?_)) (bytesBE_four iv[i.val]).symm
  have hdiv : (i.val * 4 + j.val) / 4 = i.val := by omega
  have hmod : (i.val * 4 + j.val) % 4 = j.val := by omega
  simp only [hdiv, hmod]

theorem Holds.bits_add (h : Holds s msg) :
    s.bitsHashed + (BitVec.ofNat 64 s.leftoverOffset <<< 3) =
      BitVec.ofNat 64 (8 * msg.length) := by
  have hshift : BitVec.ofNat 64 s.leftoverOffset <<< 3 = BitVec.ofNat 64 (8 * s.leftoverOffset) := by
    apply BitVec.eq_of_toNat_eq
    simp [Nat.shiftLeft_eq, Nat.mul_comm]
  rw [h.bits, hshift, ← BitVec.ofNat_add, ← Nat.mul_add, h.absorbed.offset, Nat.div_add_mod]

/-- The padding fits in the current block. -/
theorem padding_of_lt {len off : ℕ} (hoff : off = len % 64) (h : off < 56) :
    padding len =
      0x80 :: (List.replicate (56 - (off + 1)) 0 ++ bytesBE 8 (BitVec.ofNat 64 (8 * len))) := by
  have hzeros : paddingZeros len = 56 - (off + 1) := by
    unfold paddingZeros
    omega
  rw [padding, hzeros]

/-- The padding ends the current block and fills one more. -/
theorem padding_of_le {len off : ℕ} (hoff : off = len % 64) (h : 56 ≤ off) :
    padding len = (0x80 :: List.replicate (64 - (off + 1)) 0) ++
      (List.replicate (56 - 0) 0 ++ bytesBE 8 (BitVec.ofNat 64 (8 * len))) := by
  have hzeros : paddingZeros len = 64 - (off + 1) + (56 - 0) := by
    unfold paddingZeros
    omega
  rw [padding, hzeros, ← List.replicate_append_replicate, List.append_assoc, List.cons_append]

theorem Holds.final (h : Holds s msg) : (final s).toList = sha256 msg := by
  have hlt := h.offset_lt
  have hoff := h.absorbed.offset
  unfold Sha256.final
  dsimp only
  rw [toList_digestOf, h.bits_add]
  refine congrArg (fun iv : Vector Word 8 => iv.toList.flatMap (bytesBE 4)) ?_
  by_cases hroom : 56 < s.leftoverOffset + 1
  · rw [if_pos hroom]
    dsimp only
    rw [padding_of_le hoff (by omega), setBytes_eq_fill _ _ (by omega), fill_cons _ hlt,
      storeLength_setBytes _ _ (by omega), ← List.append_assoc]
    have hfirst : s.leftoverOffset +
        ((0x80 : Byte) :: List.replicate (64 - (s.leftoverOffset + 1)) 0).length = 64 := by
      rw [List.length_cons, List.length_replicate]
      omega
    have hlast : 0 + (List.replicate (56 - 0) (0 : Byte) ++
        bytesBE 8 (BitVec.ofNat 64 (8 * msg.length))).length = 64 := by
      rw [List.length_append, List.length_replicate, length_bytesBE]
    exact ((h.absorbed.complete _ hfirst (by decide)).complete s.leftover hlast (by decide)).chain
  · rw [if_neg hroom]
    dsimp only
    rw [padding_of_lt hoff (by omega), storeLength_setBytes _ _ (by omega), fill_cons _ hlt]
    have hlast : s.leftoverOffset + ((0x80 : Byte) ::
        (List.replicate (56 - (s.leftoverOffset + 1)) 0 ++
          bytesBE 8 (BitVec.ofNat 64 (8 * msg.length)))).length = 64 := by
      rw [List.length_cons, List.length_append, List.length_replicate, length_bytesBE]
      omega
    exact (h.absorbed.complete s.leftover hlast (by decide)).chain

/-- `tc_sha256_init`, one `tc_sha256_update` and `tc_sha256_final` hash the whole message. -/
theorem toList_final_update (msg : List Byte) : (final (update init msg)).toList = sha256 msg :=
  (holds_init.update msg).final

end Gateway.Sha256
