import Gateway.Basic

/-!
# The mailbox record

`mailbox_t` of `include/ipc/ipc.h`, one per core. The `lock` word is not a field of the record: it
is the word of the spinlock that protects the other fields (`Gateway.Ipc.Atomicity`).
-/

namespace Gateway

abbrev Tag := Vector Byte 32

/-! `MSG_NONE`, …, `MSG_ACK`. -/

def msgNone : Word := 0
def msgPing : Word := 1
def msgData : Word := 2
def msgAck : Word := 3

/-- `mailbox_t` without its lock word. `status`: 0 empty, 1 ready, 2 processed. -/
structure Mailbox where
  msgType : Word
  msgData : Word
  senderId : Word
  status : Word
  counter : Word
  tag : Tag
  deriving DecidableEq

/-- The fields that `hmac_tag_compute` authenticates, in the order in which it serialises them. -/
inductive Field where
  | senderId | msgType | msgData | counter
  deriving DecidableEq, Repr

def Mailbox.get (mb : Mailbox) : Field → Word
  | .senderId => mb.senderId
  | .msgType => mb.msgType
  | .msgData => mb.msgData
  | .counter => mb.counter

/-- The field that byte `i` of `msg[16]` is taken from. -/
def fieldAt (i : ℕ) : Field :=
  if i < 4 then .senderId else if i < 8 then .msgType else if i < 12 then .msgData else .counter

/-- Byte `i` of `msg[16]`: the fields are serialised most significant byte first. -/
def Mailbox.fetch (mb : Mailbox) (i : ℕ) : Byte := byteOf (mb.get (fieldAt i)) (3 - i % 4)

/-- The array `msg[16]` of `hmac_tag_compute`. -/
def Mailbox.msg (mb : Mailbox) : List Byte := (List.range 16).map mb.fetch

@[simp] theorem Mailbox.length_msg (mb : Mailbox) : mb.msg.length = 16 := by simp [Mailbox.msg]

/-- The serialised fields do not depend on the tag or on the status. -/
theorem Mailbox.msg_congr {mb mb' : Mailbox} (h : ∀ f, mb.get f = mb'.get f) :
    mb.msg = mb'.msg := by
  unfold Mailbox.msg Mailbox.fetch
  simp only [h]

/-- The store to byte `i` of the tag. -/
def Mailbox.setTag (mb : Mailbox) (b : Byte) : Fin 32 → Mailbox
  | ⟨i, _⟩ => { mb with tag := mb.tag.set i b }

/-- What a receiver takes out of a mailbox: the out-parameters of `mailbox_receive`. -/
structure Delivery where
  sender : Word
  msgType : Word
  data : Word
  deriving DecidableEq, Repr

def Mailbox.delivery (mb : Mailbox) : Delivery := ⟨mb.senderId, mb.msgType, mb.msgData⟩

end Gateway
