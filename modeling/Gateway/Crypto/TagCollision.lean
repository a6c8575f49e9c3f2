import Gateway.Lib.Collision
import Gateway.Crypto.HmacSha256
import Gateway.Ipc.Tamper

/-!
# Tampering and collisions

Two mailboxes that carry one tag and are both accepted agree in every authenticated field, unless
the two hash levels of `hmac_tag_compute` exhibit a collision of SHA-256 (`tampering_collides`).
The serialisation `msg[16]` is injective, since each byte of each field has a place of its own.
-/

namespace Gateway

open Collision

/-! ## The serialisation -/

theorem Mailbox.getElem?_msg (mb : Mailbox) {i : ℕ} (hi : i < 16) :
    mb.msg[i]? = some (mb.fetch i) := by
  unfold Mailbox.msg
  rw [List.getElem?_map, List.getElem?_range hi]
  rfl

/-- Equal serialisations hold equal words at each of the four word offsets. -/
theorem Mailbox.get_fieldAt_of_msg {mb mb' : Mailbox} (h : mb.msg = mb'.msg) {k : ℕ}
    (hk : k < 4) : mb.get (fieldAt (4 * k)) = mb'.get (fieldAt (4 * k)) := by
  refine byteOf_inj fun j hj => ?_
  have hi : 4 * k + (3 - j) < 16 := by omega
  have hbyte : mb.fetch (4 * k + (3 - j)) = mb'.fetch (4 * k + (3 - j)) :=
    Option.some.inj (by rw [← mb.getElem?_msg hi, ← mb'.getElem?_msg hi, h])
  have hpos : 3 - (4 * k + (3 - j)) % 4 = j := by omega
  unfold Mailbox.fetch at hbyte
  rwa [hpos, fieldAt_div, show (4 * k + (3 - j)) / 4 = k by omega] at hbyte

/-- `msg[16]` determines the fields that it serialises. -/
theorem Mailbox.msg_inj {mb mb' : Mailbox} (h : mb.msg = mb'.msg) (f : Field) :
    mb.get f = mb'.get f := by
  cases f with
  | senderId => exact get_fieldAt_of_msg (k := 0) h (by decide)
  | msgType => exact get_fieldAt_of_msg (k := 1) h (by decide)
  | msgData => exact get_fieldAt_of_msg (k := 2) h (by decide)
  | counter => exact get_fieldAt_of_msg (k := 3) h (by decide)

/-! ## The two hash levels -/

/-- The digest of a byte string: `tc_sha256_init`, one `tc_sha256_update`, `tc_sha256_final`. -/
def tcSha256 (data : List Byte) : Vector Byte 32 := Sha256.final (Sha256.update Sha256.init data)

/-- Two updates hash the concatenation. -/
theorem Sha256.update_append (s : Sha256.State) (a b : List Byte) :
    Sha256.update s (a ++ b) = Sha256.update (Sha256.update s a) b := List.foldl_append

/-- The bytes that the inner hash of `hmac_tag_compute` has seen when it is finalised. -/
def innerInput (key : Key) (mb : Mailbox) : List Byte := ipadKey key ++ mb.msg

/-- The bytes that the outer hash has seen. -/
def outerInput (key : Key) (mb : Mailbox) : List Byte :=
  opadKey key ++ (tcSha256 (innerInput key mb)).toList

theorem length_kPadded (key : Key) : (kPadded key).length = 64 := by
  unfold kPadded
  rw [List.length_append, Vector.length_toList, List.length_replicate]

theorem length_innerInput (key : Key) (mb : Mailbox) : (innerInput key mb).length = 80 := by
  unfold innerInput ipadKey
  rw [List.length_append, List.length_map, length_kPadded, Mailbox.length_msg]

theorem length_outerInput (key : Key) (mb : Mailbox) : (outerInput key mb).length = 96 := by
  unfold outerInput opadKey
  rw [List.length_append, List.length_map, length_kPadded, Vector.length_toList]

/-- `hmac_tag_compute` hashes the outer input. -/
theorem hmacTagCompute_eq (key : Key) (mb : Mailbox) :
    hmacTagCompute key mb = tcSha256 (outerInput key mb) := by
  unfold hmacTagCompute hmacDigest tcSha256 outerInput
  dsimp only
  rw [Sha256.update_append]
  unfold tcSha256 innerInput
  rw [Sha256.update_append]

theorem toList_injective : Function.Injective (Vector.toList : Vector Byte 32 → List Byte) :=
  fun _ _ => Vector.toList_inj.1

/-- Equal tags come from equal fields or from a collision at one of the two levels. -/
theorem agree_or_collides {key : Key} {mb mb' : Mailbox}
    (h : hmacTagCompute key mb = hmacTagCompute key mb') :
    (∀ f, mb.get f = mb'.get f) ∨ Collides tcSha256 (innerInput key mb) (innerInput key mb') ∨
      Collides tcSha256 (outerInput key mb) (outerInput key mb') := by
  rw [hmacTagCompute_eq, hmacTagCompute_eq] at h
  obtain hmsg | hcol := nested_eq_or_collides toList_injective (ipadKey key) (opadKey key) h
  · exact .inl (Mailbox.msg_inj hmsg)
  · exact .inr hcol

/-! ## Tampering -/

/-- **Tampering needs a collision.** A mailbox is accepted exactly when its tag is the recomputed
one in all 32 bytes. Two accepted mailboxes with one tag have the same authenticated fields, or
their 80-byte inner inputs or their 96-byte outer inputs are distinct with equal digests. -/
theorem tampering_collides (key : Key) :
    (∀ mb, hmacTagVerify key mb = true ↔ ∀ i : Fin 32, mb.tag[i] = (hmacTagCompute key mb)[i]) ∧
    ∀ mb mb', mb.tag = mb'.tag → hmacTagVerify key mb = true → hmacTagVerify key mb' = true →
      (mb.senderId = mb'.senderId ∧ mb.msgType = mb'.msgType ∧ mb.msgData = mb'.msgData ∧
        mb.counter = mb'.counter) ∨
      ((innerInput key mb).length = 80 ∧ (innerInput key mb').length = 80 ∧
        Collides tcSha256 (innerInput key mb) (innerInput key mb')) ∨
      ((outerInput key mb).length = 96 ∧ (outerInput key mb').length = 96 ∧
        Collides tcSha256 (outerInput key mb) (outerInput key mb')) := by
  refine ⟨fun mb => ?_, fun mb mb' htag hv hv' => ?_⟩
  · rw [hmacTagVerify_iff]
    constructor
    · intro h i
      rw [h]
    · intro h
      exact Vector.ext fun i hi => h ⟨i, hi⟩
  · have heq : hmacTagCompute key mb = hmacTagCompute key mb' := by
      rw [← hmacTagVerify_iff.1 hv, ← hmacTagVerify_iff.1 hv', htag]
    obtain hf | hcol | hcol := agree_or_collides heq
    · exact .inl ⟨hf .senderId, hf .msgType, hf .msgData, hf .counter⟩
    · exact .inr (.inl ⟨length_innerInput key mb, length_innerInput key mb', hcol⟩)
    · exact .inr (.inr ⟨length_outerInput key mb, length_outerInput key mb', hcol⟩)

/-- A ready mailbox with its tag, and the same mailbox when it is processed. -/
theorem tampering_collides_processed : ∃ mb mb' : Mailbox, mb.status ≠ mb'.status ∧
    ((mb.senderId = mb'.senderId ∧ mb.msgType = mb'.msgType ∧ mb.msgData = mb'.msgData ∧
        mb.counter = mb'.counter) ∨
      ((innerInput secretKey mb).length = 80 ∧ (innerInput secretKey mb').length = 80 ∧
        Collides tcSha256 (innerInput secretKey mb) (innerInput secretKey mb')) ∨
      ((outerInput secretKey mb).length = 96 ∧ (outerInput secretKey mb').length = 96 ∧
        Collides tcSha256 (outerInput secretKey mb) (outerInput secretKey mb'))) := by
  let blank : Mailbox := ⟨msgPing, 7, 1, 1, 0, Vector.replicate 32 0⟩
  let tag : Tag := hmacTagCompute secretKey blank
  have hverify : ∀ status : Word,
      hmacTagVerify secretKey { blank with status, tag } = true := fun status =>
    hmacTagVerify_iff.2 (congrArg (hmacDigest secretKey)
      (Mailbox.msg_congr fun f => by cases f <;> rfl))
  exact ⟨{ blank with status := 1, tag }, { blank with status := 2, tag },
    fun h => absurd h (by decide),
    (tampering_collides secretKey).2 _ _ rfl (hverify 1) (hverify 2)⟩

end Gateway
