import Gateway.Crypto.HmacSha256
import Gateway.Lib.OneSlot

/-!
# The mailbox operations

`include/ipc/ipc.c`, each operation as one atomic step on the mailbox it locks. Under a fixed key
and no other writes a mailbox is a one-place channel (`Call.simulates`): a ready mailbox carries
the tag of its own fields (`Authentic`), so the operations are the posts, takes and drops of
`OneSlot`.
-/

namespace Gateway

open OneSlot (Event)

/-! ## The operations -/

/-- `mailbox_init`. The tag array keeps what is in memory. -/
def mailboxInit (mb : Mailbox) : Mailbox :=
  { mb with msgType := msgNone, msgData := 0, senderId := 0xFF, status := 0, counter := 0 }

/-- What an operation returns, and what it stores through its out-parameters. -/
structure Outcome where
  ret : ℤ
  out : Option Delivery
  deriving DecidableEq

/-- `mailbox_send`, executed by the core whose `mpidr_el1` is `mpidr`. -/
def mailboxSend (key : Key) (mpidr : DWord) (msgType data : Word) (mb : Mailbox) :
    Mailbox × Outcome :=
  if mb.status = 1 then (mb, ⟨-1, none⟩)
  else
    let sender := getCoreId mpidr
    let mb := { mb with senderId := sender, msgType, msgData := data, counter := mb.counter + 1 }
    let mb := { mb with tag := hmacTagCompute key mb }
    ({ mb with status := 1 }, ⟨0, none⟩)

/-- `mailbox_receive`. Its diagnostics on the console are left out. -/
def mailboxReceive (key : Key) (mb : Mailbox) : Mailbox × Outcome :=
  if mb.status = 1 ∧ hmacTagVerify key mb = true then
    ({ mb with status := 2 }, ⟨1, some mb.delivery⟩)
  else if mb.status = 1 then
    -- tag mismatch: the message is rejected
    ({ mb with status := 2 }, ⟨0, none⟩)
  else (mb, ⟨0, none⟩)

/-- `mailbox_clear`. -/
def mailboxClear (mb : Mailbox) : Mailbox × Outcome :=
  ({ mb with status := 0, msgType := msgNone }, ⟨0, none⟩)

/-- A call of one of the three operations, with its arguments. -/
inductive Call where
  | send (msgType data : Word)
  | receive
  | clear
  deriving DecidableEq

/-- The call, made by the core with `mpidr_el1 = mpidr`. -/
def Call.run (key : Key) (mpidr : DWord) : Call → Mailbox → Mailbox × Outcome
  | .send msgType data, mb => mailboxSend key mpidr msgType data mb
  | .receive, mb => mailboxReceive key mb
  | .clear, mb => mailboxClear mb

/-! ## Authentic mailboxes -/

section Authentic

variable (key : Key) (mpidr : DWord) (msgType data : Word) (mb : Mailbox)

/-- The stored tag is the tag of the stored fields. -/
def Authentic : Prop := mb.tag = hmacTagCompute key mb

/-- The contents of a ready mailbox carry their own tag. -/
def Sealed : Prop := mb.status = 1 → Authentic key mb

/-- The branch of `mailbox_receive` that rejects a message is taken. -/
def Rejects : Prop := mb.status = 1 ∧ hmacTagVerify key mb = false

theorem sealed_init : Sealed key (mailboxInit mb) := fun h => by simp [mailboxInit] at h

variable {key mb}

theorem not_rejects_of_sealed (h : Sealed key mb) : ¬ Rejects key mb := by
  rintro ⟨hs, hv⟩
  rw [hmacTagVerify_iff.2 (h hs)] at hv
  cases hv

/-- A send to a ready mailbox is refused and changes nothing. -/
theorem mailboxSend_full (h : mb.status = 1) :
    mailboxSend key mpidr msgType data mb = (mb, ⟨-1, none⟩) := if_pos h

variable (key) in
/-- A send to any other mailbox leaves it ready, with the sender's triple under its tag. -/
theorem mailboxSend_ok (h : mb.status ≠ 1) :
    (mailboxSend key mpidr msgType data mb).2 = ⟨0, none⟩ ∧
      (mailboxSend key mpidr msgType data mb).1.status = 1 ∧
      (mailboxSend key mpidr msgType data mb).1.delivery = ⟨getCoreId mpidr, msgType, data⟩ ∧
      Authentic key (mailboxSend key mpidr msgType data mb).1 := by
  unfold mailboxSend
  rw [if_neg h]
  refine ⟨rfl, rfl, rfl, ?_⟩
  exact congrArg (hmacDigest key) (Mailbox.msg_congr fun f => by cases f <;> rfl)

theorem mailboxReceive_ready (h : mb.status = 1) (ha : Authentic key mb) :
    mailboxReceive key mb = ({ mb with status := 2 }, ⟨1, some mb.delivery⟩) :=
  if_pos ⟨h, hmacTagVerify_iff.2 ha⟩

theorem mailboxReceive_idle (h : mb.status ≠ 1) : mailboxReceive key mb = (mb, ⟨0, none⟩) := by
  unfold mailboxReceive
  rw [if_neg fun hc => h hc.1, if_neg h]

theorem mailboxReceive_rejects (h : Rejects key mb) :
    mailboxReceive key mb = ({ mb with status := 2 }, ⟨0, none⟩) := by
  obtain ⟨hs, hv⟩ := h
  have hverify : ¬ (mb.status = 1 ∧ hmacTagVerify key mb = true) := by
    rintro ⟨-, ht⟩
    rw [hv] at ht
    cases ht
  unfold mailboxReceive
  rw [if_neg hverify, if_pos hs]

/-- The branch is the one in which a receive finds a message and returns 0. -/
theorem rejects_iff : Rejects key mb ↔ mb.status = 1 ∧ (mailboxReceive key mb).2.ret = 0 := by
  refine ⟨fun h => ⟨h.1, by rw [mailboxReceive_rejects h]⟩, fun ⟨hs, hr⟩ => ⟨hs, ?_⟩⟩
  by_contra hv
  rw [mailboxReceive_ready hs (hmacTagVerify_iff.1 (Bool.eq_true_of_not_eq_false hv))] at hr
  cases hr

end Authentic

/-! ## A mailbox as a one-place channel -/

/-- The message a mailbox offers to its receiver. -/
def Mailbox.slot (mb : Mailbox) : Option Delivery :=
  if mb.status = 1 then some mb.delivery else none

theorem Mailbox.slot_ready {mb : Mailbox} (h : mb.status = 1) : mb.slot = some mb.delivery :=
  if_pos h

theorem Mailbox.slot_idle {mb : Mailbox} (h : mb.status ≠ 1) : mb.slot = none := if_neg h

theorem Mailbox.slot_eq_none {mb : Mailbox} : mb.slot = none ↔ mb.status ≠ 1 := by
  refine ⟨fun h hs => ?_, slot_idle⟩
  rw [slot_ready hs] at h
  cases h

theorem Mailbox.status_of_slot {mb : Mailbox} {d : Delivery} (h : mb.slot = some d) :
    mb.status = 1 := by
  by_contra hs
  rw [slot_idle hs] at h
  cases h

@[simp] theorem Mailbox.slot_init (mb : Mailbox) : (mailboxInit mb).slot = none :=
  slot_idle (by simp [mailboxInit])

/-- A call together with its outcome, as its caller sees it. -/
structure Record where
  mpidr : DWord
  call : Call
  outcome : Outcome
  deriving DecidableEq

/-- What the call did to the channel, read off its arguments and its outcome. -/
def Record.event (r : Record) : Event Delivery :=
  match r.call, r.outcome.ret, r.outcome.out with
  | .send msgType data, 0, _ => .post ⟨getCoreId r.mpidr, msgType, data⟩
  | .send .., _, _ => .refuse
  | .receive, 1, some d => .take d
  | .receive, _, _ => .miss
  | .clear, _, _ => .drop

/-- **Refinement.** On a sealed mailbox every call is an event of the one-place channel, and it
leaves the mailbox sealed. -/
theorem Call.simulates {key : Key} {mb : Mailbox} (h : Sealed key mb) (mpidr : DWord) (c : Call) :
    Sealed key (c.run key mpidr mb).1 ∧
      OneSlot.next mb.slot (Record.event ⟨mpidr, c, (c.run key mpidr mb).2⟩) =
        some (c.run key mpidr mb).1.slot := by
  cases c with
  | send msgType data =>
    simp only [Call.run]
    by_cases hs : mb.status = 1
    · rw [mailboxSend_full mpidr msgType data hs, Mailbox.slot_ready hs]
      exact ⟨h, rfl⟩
    · obtain ⟨ho, h1, hd, ha⟩ := mailboxSend_ok key mpidr msgType data hs
      refine ⟨fun _ => ha, ?_⟩
      rw [Mailbox.slot_idle hs, Mailbox.slot_ready h1, hd, ho]
      rfl
  | receive =>
    simp only [Call.run]
    by_cases hs : mb.status = 1
    · rw [mailboxReceive_ready hs (h hs), Mailbox.slot_ready hs]
      refine ⟨fun h2 => by simp at h2, ?_⟩
      rw [Mailbox.slot_idle (by simp)]
      exact if_pos rfl
    · rw [mailboxReceive_idle hs, Mailbox.slot_idle hs]
      exact ⟨h, rfl⟩
  | clear =>
    refine ⟨fun h2 => by simp [Call.run, mailboxClear] at h2, ?_⟩
    have hidle : (Call.run key mpidr .clear mb).1.status ≠ 1 := by simp [Call.run, mailboxClear]
    rw [Mailbox.slot_idle hidle]
    cases mb.slot <;> rfl

end Gateway
