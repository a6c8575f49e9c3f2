import Gateway.Lib.ByteMemory
import Gateway.Crypto.Fips180
import Gateway.Crypto.TagCollision

/-!
# The mailbox tag is an HMAC

`hmac_key_init` stores the key at `HMAC_KEY_ADDR`, and `hmac_tag_compute` reads it there. The tag it
computes is the HMAC of RFC 2104 of the four fields (`hmac_tag_rfc2104`).
-/

namespace Gateway

open ByteMemory Sha256

/-! ## The key in memory -/

/-- `HMAC_KEY_ADDR`. -/
def hmacKeyAddr : ℕ := 0x40220310

/-- One iteration of the loop of `hmac_key_init`. -/
def storeKeyByte (key : Key) (mem : Memory) (i : Fin 32) : Memory :=
  Function.update mem (hmacKeyAddr + i) (key.get i)

/-- `hmac_key_init`, without the message it prints. -/
def hmacKeyInit (key : Key) (mem : Memory) : Memory :=
  (List.finRange 32).foldl (storeKeyByte key) mem

/-- The bytes that the first loop over `k_padded` reads. -/
def storedKey (mem : Memory) : Key := Vector.ofFn fun i => mem (hmacKeyAddr + i)

/-- `hmac_tag_compute` with the key that is in memory. -/
def hmacTagComputeFrom (mem : Memory) (mb : Mailbox) : Tag := hmacTagCompute (storedKey mem) mb

/-! ## The specification -/

/-- HMAC with a hash `H` that works on blocks of `blockSize` bytes, for keys of at most that size. -/
def hmac (H : List Byte → List Byte) (blockSize : ℕ) (key text : List Byte) : List Byte :=
  let key₀ := key ++ List.replicate (blockSize - key.length) 0
  H (key₀.map (· ^^^ 0x5C) ++ H (key₀.map (· ^^^ 0x36) ++ text))

/-- The authenticated message: the four fields, each most significant byte first. -/
def fieldBytes (mb : Mailbox) : List Byte :=
  bytesBE 4 mb.senderId ++ bytesBE 4 mb.msgType ++ bytesBE 4 mb.msgData ++ bytesBE 4 mb.counter

/-! ## The proof -/

theorem foldl_storeKeyByte (key : Key) (is : List (Fin 32)) (mem : Memory) (i : Fin 32) :
    is.foldl (storeKeyByte key) mem (hmacKeyAddr + i) =
      if i ∈ is then key.get i else mem (hmacKeyAddr + i) := by
  induction is generalizing mem with
  | nil => rfl
  | cons j is ih =>
    rw [List.foldl_cons, ih]
    by_cases hi : i ∈ is
    · rw [if_pos hi, if_pos (List.mem_cons_of_mem _ hi)]
    · rw [if_neg hi, storeKeyByte]
      by_cases hij : i = j
      · subst hij
        rw [if_pos List.mem_cons_self, Function.update_self]
      · have hne : hmacKeyAddr + i.val ≠ hmacKeyAddr + j.val := fun h =>
          hij (Fin.ext (Nat.add_left_cancel h))
        rw [if_neg (by simp [hij, hi]), Function.update_of_ne hne]

/-- `hmac_tag_compute` reads the key that `hmac_key_init` was given. -/
theorem storedKey_hmacKeyInit (key : Key) (mem : Memory) :
    storedKey (hmacKeyInit key mem) = key := by
  refine Vector.ext fun i hi => ?_
  rw [storedKey, Vector.getElem_ofFn]
  refine (foldl_storeKeyByte key (List.finRange 32) mem ⟨i, hi⟩).trans ?_
  rw [if_pos (List.mem_finRange _)]
  rfl

theorem msg_eq_fieldBytes (mb : Mailbox) : mb.msg = fieldBytes mb := rfl

theorem toList_tcSha256 (data : List Byte) : (tcSha256 data).toList = sha256 data :=
  toList_final_update data

theorem toList_hmacTagCompute (key : Key) (mb : Mailbox) :
    (hmacTagCompute key mb).toList = hmac sha256 64 key.toList (fieldBytes mb) := by
  rw [hmacTagCompute_eq, toList_tcSha256, outerInput, toList_tcSha256, innerInput,
    msg_eq_fieldBytes]
  unfold hmac
  dsimp only
  rw [Vector.length_toList]
  rfl

/-- **The tag is an HMAC.** Whatever memory held before `hmac_key_init`, the tag that
`hmac_tag_compute` computes afterwards is the HMAC, with SHA-256, of the sender, the type, the data
and the counter under that key. -/
theorem hmac_tag_rfc2104 (key : Key) (mem : Memory) (mb : Mailbox) :
    (hmacTagComputeFrom (hmacKeyInit key mem) mb).toList =
      hmac sha256 64 key.toList (fieldBytes mb) := by
  unfold hmacTagComputeFrom
  rw [storedKey_hmacKeyInit, toList_hmacTagCompute]

end Gateway
