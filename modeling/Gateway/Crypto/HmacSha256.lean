import Gateway.Crypto.Sha256
import Gateway.Ipc.Mailbox

/-!
# The mailbox tag

`include/crypto/hmac_sha256.c`. The key at `HMAC_KEY_ADDR` is a parameter: nothing writes it after
`hmac_key_init`.
-/

namespace Gateway

/-- The 32 bytes at `HMAC_KEY_ADDR`. -/
abbrev Key := Vector Byte 32

/-- `secret_key` of `main.c`. -/
def secretKey : Key := #v[
  0x2B, 0x7E, 0x15, 0x16, 0x28, 0xAE, 0xD2, 0xA6,
  0xAB, 0xF7, 0x15, 0x88, 0x09, 0xCF, 0x4F, 0x3C,
  0x76, 0x2E, 0x45, 0x18, 0x5A, 0x31, 0xC7, 0xD9,
  0x11, 0xF2, 0x83, 0x6A, 0xBC, 0x44, 0x07, 0x9E]

def hmacIpad : Byte := 0x36
def hmacOpad : Byte := 0x5C

/-- `k_padded`: the key, zero-padded to the block size. -/
def kPadded (key : Key) : List Byte := key.toList ++ List.replicate 32 0x00

def ipadKey (key : Key) : List Byte := (kPadded key).map (· ^^^ hmacIpad)
def opadKey (key : Key) : List Byte := (kPadded key).map (· ^^^ hmacOpad)

/-- The two hash levels of `hmac_tag_compute`, on the serialised message `msg`. -/
def hmacDigest (key : Key) (msg : List Byte) : Tag :=
  let state := Sha256.update Sha256.init (ipadKey key)
  let state := Sha256.update state msg
  let innerHash := Sha256.final state
  let state := Sha256.update Sha256.init (opadKey key)
  let state := Sha256.update state innerHash.toList
  Sha256.final state

attribute [irreducible] hmacDigest

/-- `hmac_tag_compute`. -/
def hmacTagCompute (key : Key) (mb : Mailbox) : Tag := hmacDigest key mb.msg

/-- One iteration of the comparison loop of `hmac_tag_verify`. -/
def accumulate (expected tag : Tag) (change : Byte) (i : Fin 32) : Byte :=
  change ||| (expected.get i ^^^ tag.get i)

/-- `hmac_tag_verify`: the loop ORs the byte differences into `change`. -/
def hmacTagVerify (key : Key) (mb : Mailbox) : Bool :=
  (List.finRange 32).foldl (accumulate (hmacTagCompute key mb) mb.tag) 0x00 == 0x00

/-! ## The comparison loop -/

theorem foldl_accumulate_eq_zero (expected tag : Tag) (is : List (Fin 32)) (change : Byte) :
    is.foldl (accumulate expected tag) change = 0 ↔
      change = 0 ∧ ∀ i ∈ is, expected.get i = tag.get i := by
  induction is generalizing change with
  | nil => simp
  | cons i is ih =>
    have hstep : accumulate expected tag change i = 0 ↔
        change = 0 ∧ expected.get i = tag.get i :=
      BitVec.or_eq_zero_iff.trans (and_congr_right fun _ => BitVec.xor_eq_zero_iff)
    rw [List.foldl_cons, ih, hstep, and_assoc, List.forall_mem_cons]

/-- The tag is accepted exactly when it is the recomputed one in all 32 bytes. -/
theorem hmacTagVerify_iff {key : Key} {mb : Mailbox} :
    hmacTagVerify key mb = true ↔ mb.tag = hmacTagCompute key mb := by
  unfold hmacTagVerify
  rw [beq_iff_eq, foldl_accumulate_eq_zero]
  constructor
  · rintro ⟨-, h⟩
    exact Vector.ext fun i hi => (h ⟨i, hi⟩ (List.mem_finRange _)).symm
  · intro h
    exact ⟨rfl, fun i _ => by rw [h]⟩

end Gateway
