import Gateway.Dispatcher.Acknowledge

/-!
# The communication tests

`run_all_tests` on Core 0 while Core 3 runs `mailbox_dispatcher_task`. Cores 1 and 2 do not touch
their mailboxes. A step is one mailbox operation of one of the two cores, as in
`Gateway.Dispatcher.Acknowledge`; the delays between them let Core 3 make any number of steps, or
none. `test3_uart_rx_keyboard_simulation` only prints.

* `run_all_tests_result`: the first test passes, Cores 1 and 2 never get their data, and the
  acknowledgements that Core 0 prints are those of its two requests to Core 3.
* `test2_passes_iff`: the second test passes exactly if Core 3 has received and answered the ping of
  the first before the last poll. Core 3 needs no data for it.
-/

namespace Gateway

open Runs

/-- Where Core 0 is, named by the mailbox operation it executes next. -/
inductive CommPc where
  /-- `mailbox_send(dest, MSG_PING, test_data)` of `test1_ping_all_cores`. -/
  | ping (dest : ℕ)
  /-- `mailbox_send(dest, MSG_DATA, test_data)` of `test2_send_data_messages`. -/
  | data (dest : ℕ)
  /-- `mailbox_receive(0, …)` of its round `i`. -/
  | poll (i : ℕ)
  /-- `mailbox_clear(0)` of its round `i`. -/
  | clear (i : ℕ)
  | done
  deriving DecidableEq

/-- The mailboxes, Core 3, and Core 0 with the variables of its tests. -/
structure CommState extends AckState where
  core0 : CommPc
  /-- `result` of `test1_ping_all_cores`. -/
  result : ℤ
  /-- The calls of `mailbox_send`: the destination and what was returned. -/
  sends : List (ℕ × ℤ)
  /-- The messages that Core 0 printed as acknowledgements: `acks_received` of them. -/
  acks : List Delivery

/-- `TEST_PING_DATA_BASE + dest`. -/
def pingPayload (dest : ℕ) : Word := 0x1000 + BitVec.ofNat 32 dest

/-- `TEST_DATA_BASE + (dest * TEST_DATA_STEP)`. -/
def dataPayload (dest : ℕ) : Word := 0xDEAD0000 + BitVec.ofNat 32 dest * 0x100

/-- The next round of the poll loop: there are `TEST_ACK_POLL_ROUNDS`. -/
def nextRound (i : ℕ) : CommPc := if i + 1 < 10 then .poll (i + 1) else .done

/-- What `test2_send_data_messages` returns. -/
def CommState.test2Result (s : CommState) : ℤ := if 0 < s.acks.length then 0 else -1

inductive CommAct where
  | core0
  | core3
  deriving DecidableEq

section Machine

variable (key : Key) (mpidr : Fin 4 → DWord)

/-- The next operation of `run_all_tests`. -/
def commCore0 (s : CommState) : Option CommState :=
  match s.core0 with
  | .ping dest =>
    let r := mailboxSend key (mpidr 0) msgPing (pingPayload dest) (s.mailbox dest)
    some { s with
      toAckState := s.setMailbox dest r.1
      core0 := if dest < 3 then .ping (dest + 1) else .data 1
      result := if r.2.ret = 0 then s.result else -1
      sends := s.sends ++ [(dest, r.2.ret)] }
  | .data dest =>
    let r := mailboxSend key (mpidr 0) msgData (dataPayload dest) (s.mailbox dest)
    some { s with
      toAckState := s.setMailbox dest r.1
      core0 := if dest < 3 then .data (dest + 1) else .poll 0
      sends := s.sends ++ [(dest, r.2.ret)] }
  | .poll i =>
    let r := mailboxReceive key (s.mailbox 0)
    let s := { s with toAckState := s.setMailbox 0 r.1 }
    match r.2.received with
    | some m => some { s with core0 := .clear i, acks := s.acks ++ [m] }
    | none => some { s with core0 := nextRound i }
  | .clear i =>
    some { s with
      toAckState := s.setMailbox 0 (mailboxClear (s.mailbox 0)).1
      core0 := nextRound i }
  | .done => none

def commStep (s : CommState) : CommAct → Option CommState
  | .core0 => commCore0 key mpidr s
  | .core3 => some { s with toAckState := dispatchStep key mpidr s.toAckState }

/-- After `mailbox_init` of the four mailboxes. -/
def commInit (mb₀ : ℕ → Mailbox) : CommState :=
  { toAckState := ackInit mb₀, core0 := .ping 1, result := 0, sends := [], acks := [] }

end Machine

/-! ## A mailbox operation by what is in the mailbox -/

section Slot

variable {key : Key} {mb : Mailbox} {m : Delivery}

theorem send_of_slot_some (h : mb.slot = some m) (mpidr : DWord) (t d : Word) :
    mailboxSend key mpidr t d mb = (mb, ⟨-1, none⟩) :=
  mailboxSend_full _ _ _ (Mailbox.status_of_slot h)

variable (key) in
theorem send_of_slot_none (h : mb.slot = none) (mpidr : DWord) (t d : Word) :
    (mailboxSend key mpidr t d mb).2.ret = 0 ∧
      (mailboxSend key mpidr t d mb).1.slot = some ⟨getCoreId mpidr, t, d⟩ ∧
      Sealed key (mailboxSend key mpidr t d mb).1 := by
  obtain ⟨hret, hstatus, hdelivery, hauth⟩ :=
    mailboxSend_ok key mpidr t d (Mailbox.slot_eq_none.1 h)
  refine ⟨by rw [hret], ?_, fun _ => hauth⟩
  rw [Mailbox.slot_ready hstatus, hdelivery]

theorem sealed_of_status {mb : Mailbox} (h : mb.status ≠ 1) : Sealed key mb :=
  fun hs => absurd hs h

theorem receive_of_slot_some (hseal : Sealed key mb) (h : mb.slot = some m) :
    (mailboxReceive key mb).2.received = some m ∧ (mailboxReceive key mb).1.slot = none ∧
      Sealed key (mailboxReceive key mb).1 := by
  have hstatus := Mailbox.status_of_slot h
  have hm : mb.delivery = m := Option.some.inj ((Mailbox.slot_ready hstatus).symm.trans h)
  have hidle : ({ mb with status := 2 } : Mailbox).status ≠ 1 := by simp
  rw [mailboxReceive_ready hstatus (hseal hstatus), hm]
  exact ⟨rfl, Mailbox.slot_idle hidle, sealed_of_status hidle⟩

theorem receive_of_slot_none (h : mb.slot = none) : mailboxReceive key mb = (mb, ⟨0, none⟩) :=
  mailboxReceive_idle (Mailbox.slot_eq_none.1 h)

variable (key) in
theorem slot_clear (mb : Mailbox) :
    (mailboxClear mb).1.slot = none ∧ Sealed key (mailboxClear mb).1 := by
  have hidle : (mailboxClear mb).1.status ≠ 1 := by simp [mailboxClear]
  exact ⟨Mailbox.slot_idle hidle, sealed_of_status hidle⟩

end Slot

/-! ## The invariant -/

/-- The requests to Core 3, and their acknowledgements. -/
def pingRequest : Delivery := ⟨0, msgPing, pingPayload 3⟩
def dataRequest : Delivery := ⟨0, msgData, dataPayload 3⟩
def pingAck : Delivery := ⟨3, msgAck, pingPayload 3 + 3 * 2 ^ 16⟩
def dataAck : Delivery := ⟨3, msgAck, dataPayload 3 + 3 * 2 ^ 16⟩

/-- The ping to core `dest` has been sent. -/
def CommPc.pinged (dest : ℕ) : CommPc → Prop
  | .ping d => dest < d
  | _ => True

instance instDecidablePinged (dest : ℕ) (pc : CommPc) : Decidable (pc.pinged dest) :=
  match pc with
  | .ping d => inferInstanceAs (Decidable (dest < d))
  | .data _ | .poll _ | .clear _ | .done => .isTrue trivial

/-- The data to Core 3 has been sent, or refused. -/
def CommPc.dataSent : CommPc → Prop
  | .ping _ | .data _ => False
  | _ => True

/-- The data request is in the mailbox of Core 3, or nothing. -/
def DataOrNone (pc : CommPc) (slot : Option Delivery) : Prop :=
  slot = none ∨ slot = some dataRequest ∧ pc.dataSent

/-- How far the requests to Core 3 have come: where Core 3 is, what is in its mailbox, and the
acknowledgements that Core 0 has taken or has in its mailbox. -/
inductive Stage (pc : CommPc) : DispatchPc → Option Delivery → List Delivery → Prop
  | start : ¬pc.pinged 3 → Stage pc .receive none []
  | ping : pc.pinged 3 → Stage pc .receive (some pingRequest) []
  | replyPing {slot} : pc.pinged 3 → DataOrNone pc slot →
      Stage pc (.reply 0 (pingPayload 3)) slot []
  | clearPing {slot} : pc.pinged 3 → DataOrNone pc slot → Stage pc .clear slot [pingAck]
  | idlePing {slot} : pc.pinged 3 → DataOrNone pc slot → Stage pc .receive slot [pingAck]
  | replyData : pc.dataSent → Stage pc (.reply 0 (dataPayload 3)) none [pingAck]
  | clearData {seen} : pc.dataSent → seen = [pingAck] ∨ seen = [pingAck, dataAck] →
      Stage pc .clear none seen
  | idleData {seen} : pc.dataSent → seen = [pingAck] ∨ seen = [pingAck, dataAck] →
      Stage pc .receive none seen

/-- What the calls of `mailbox_send` have returned before a statement of Core 0. -/
def SendsAt (sends : List (ℕ × ℤ)) : CommPc → Prop
  | .ping dest => 1 ≤ dest ∧ dest ≤ 3 ∧ sends = (List.range' 1 (dest - 1)).map fun d => (d, 0)
  | .data dest => 1 ≤ dest ∧ dest ≤ 3 ∧ sends = [(1, 0), (2, 0), (3, 0)] ++
      (List.range' 1 (dest - 1)).map fun d => (d, -1)
  | _ => ∃ r, sends = [(1, 0), (2, 0), (3, 0), (1, -1), (2, -1), (3, r)]

structure CommInv (key : Key) (s : CommState) : Prop where
  sealed : ∀ c < 4, Sealed key (s.mailbox c)
  /-- Cores 1 and 2 leave their pings in their mailboxes. -/
  unread : ∀ c, c = 1 ∨ c = 2 →
    (s.core0.pinged c → (s.mailbox c).slot = some ⟨0, msgPing, pingPayload c⟩) ∧
      (¬s.core0.pinged c → (s.mailbox c).slot = none)
  result : s.result = 0
  sends : SendsAt s.sends s.core0
  stage : Stage s.core0 s.pc (s.mailbox 3).slot (s.acks ++ (s.mailbox 0).slot.toList)
  /-- Core 0 clears its mailbox after it has taken an acknowledgement. -/
  clears : ∀ i, s.core0 = .clear i → s.acks ≠ []

variable {key : Key} {mpidr : Fin 4 → DWord} {s s' : CommState} {pc pc' : CommPc}

theorem slot_ackInit (mb₀ : ℕ → Mailbox) {c : ℕ} (hc : c < 4) :
    ((ackInit mb₀).mailbox c).slot = none := by
  refine Mailbox.slot_idle ?_
  rw [status_ackInit mb₀ hc]
  decide

theorem commInv_init (key : Key) (mb₀ : ℕ → Mailbox) : CommInv key (commInit mb₀) where
  sealed c hc := by
    refine sealed_of_status ?_
    show ((ackInit mb₀).mailbox c).status ≠ 1
    rw [status_ackInit mb₀ hc]
    decide
  unread c hc := ⟨fun h => absurd (show c < 1 from h) (by omega),
    fun _ => slot_ackInit mb₀ (by omega)⟩
  result := rfl
  sends := ⟨by decide, by decide, rfl⟩
  stage := by
    show Stage _ _ ((ackInit mb₀).mailbox 3).slot ([] ++ ((ackInit mb₀).mailbox 0).slot.toList)
    rw [slot_ackInit mb₀ (by decide), slot_ackInit mb₀ (by decide)]
    exact .start (show ¬3 < 1 by decide)
  clears i h := by cases h

/-- The stage depends on Core 0 only through what it has sent. -/
theorem Stage.congr {core3 : DispatchPc} {slot : Option Delivery} {seen : List Delivery}
    (h : Stage pc core3 slot seen) (hpinged : pc.pinged 3 ↔ pc'.pinged 3)
    (hsent : pc.dataSent → pc'.dataSent) : Stage pc' core3 slot seen := by
  have hdata {slot : Option Delivery} (hs : DataOrNone pc slot) : DataOrNone pc' slot :=
    hs.imp_right fun hs => ⟨hs.1, hsent hs.2⟩
  cases h with
  | start hp => exact .start fun hp' => hp (hpinged.2 hp')
  | ping hp => exact .ping (hpinged.1 hp)
  | replyPing hp hs => exact .replyPing (hpinged.1 hp) (hdata hs)
  | clearPing hp hs => exact .clearPing (hpinged.1 hp) (hdata hs)
  | idlePing hp hs => exact .idlePing (hpinged.1 hp) (hdata hs)
  | replyData hs => exact .replyData (hsent hs)
  | clearData hs hseen => exact .clearData (hsent hs) hseen
  | idleData hs hseen => exact .idleData (hsent hs) hseen

theorem sealed_setMailbox {st : AckState} (h : ∀ c < 4, Sealed key (st.mailbox c)) {i : ℕ}
    {mb : Mailbox} (hmb : Sealed key mb) : ∀ c < 4, Sealed key ((st.setMailbox i mb).mailbox c) := by
  intro c hc
  by_cases hci : c = i
  · subst hci
    rwa [mailbox_setMailbox_self]
  · rw [mailbox_setMailbox_of_ne _ _ hci]
    exact h c hc

theorem pinged_of_dataSent (h : pc.dataSent) (c : ℕ) : pc.pinged c := by
  cases pc with
  | ping | data => exact h.elim
  | poll | clear | done => exact trivial

/-- Core 3 has nothing to do before it is pinged. -/
theorem Stage.of_not_pinged {core3 : DispatchPc} {slot : Option Delivery} {seen : List Delivery}
    (h : Stage pc core3 slot seen) (hpc : ¬pc.pinged 3) :
    core3 = .receive ∧ slot = none ∧ seen = [] := by
  cases h with
  | start => exact ⟨rfl, rfl, rfl⟩
  | ping hp | replyPing hp | clearPing hp | idlePing hp => exact absurd hp hpc
  | replyData hp | clearData hp | idleData hp => exact absurd (pinged_of_dataSent hp 3) hpc

/-- What follows a send to core `dest`. -/
theorem pinged_ping {dest c : ℕ} (hdest : dest ≤ 3) (hc : c ≤ 3) :
    (if dest < 3 then CommPc.ping (dest + 1) else .data 1).pinged c ↔ c ≤ dest := by
  by_cases hlt : dest < 3
  · rw [if_pos hlt]
    exact Nat.lt_succ_iff
  · rw [if_neg hlt]
    exact iff_of_true trivial (by omega)

/-- A ping is always accepted. -/
theorem CommInv.ping {dest : ℕ} (h : CommInv key s) (hid : getCoreId (mpidr 0) = 0)
    (hpc : s.core0 = .ping dest) (hs : commStep key mpidr s .core0 = some s') :
    CommInv key s' := by
  obtain ⟨hsealed, hunread, hresult, hsends, hstage, hclears⟩ := h
  rw [hpc] at hunread hsends hstage
  obtain ⟨hlo, hhi, hsends⟩ := hsends
  have hslot : (s.mailbox dest).slot = none := by
    by_cases hdest : dest = 3
    · subst hdest
      exact (hstage.of_not_pinged (Nat.lt_irrefl 3)).2.1
    · exact (hunread dest (by omega)).2 (Nat.lt_irrefl dest)
  obtain ⟨hret, hslot', hseal⟩ :=
    send_of_slot_none key hslot (mpidr 0) msgPing (pingPayload dest)
  rw [hid] at hslot'
  simp only [commStep, commCore0, hpc] at hs
  obtain rfl := Option.some.inj hs
  generalize mailboxSend key (mpidr 0) msgPing (pingPayload dest) (s.mailbox dest) = r at *
  refine ⟨sealed_setMailbox hsealed hseal, fun c hc => ?_, ?_, ?_, ?_, fun i hi => ?_⟩
  · dsimp only
    rw [pinged_ping hhi (by omega)]
    by_cases hcd : c = dest
    · subst hcd
      rw [mailbox_setMailbox_self]
      exact ⟨fun _ => hslot', fun hgt => absurd (Nat.le_refl c) hgt⟩
    · rw [mailbox_setMailbox_of_ne _ _ hcd]
      exact ⟨fun hle => (hunread c hc).1 (Nat.lt_of_le_of_ne hle hcd),
        fun hgt => (hunread c hc).2 fun hlt => hgt (Nat.le_of_lt hlt)⟩
  · exact (if_pos hret).trans hresult
  · dsimp only
    rw [hret, hsends]
    obtain rfl | rfl | rfl : dest = 1 ∨ dest = 2 ∨ dest = 3 := by omega
    · exact ⟨by decide, by decide, rfl⟩
    · exact ⟨by decide, by decide, rfl⟩
    · exact ⟨by decide, by decide, rfl⟩
  · dsimp only
    rw [mailbox_setMailbox_of_ne _ _ (show 0 ≠ dest by omega)]
    by_cases hdest : dest = 3
    · subst hdest
      obtain ⟨hcore3, -, hseen⟩ := hstage.of_not_pinged (Nat.lt_irrefl 3)
      rw [hseen, mailbox_setMailbox_self, hslot']
      show Stage _ s.pc _ _
      rw [hcore3]
      exact .ping trivial
    · rw [mailbox_setMailbox_of_ne _ _ (Ne.symm hdest)]
      refine hstage.congr ?_ fun hsent => hsent.elim
      rw [pinged_ping hhi (by decide)]
      exact iff_of_false (show ¬3 < dest by omega) (by omega)
  · dsimp only at hi
    split at hi <;> cases hi

theorem setMailbox_eq_self (st : AckState) (i : ℕ) : st.setMailbox i (st.mailbox i) = st := by
  unfold AckState.setMailbox
  rw [Function.update_eq_self]

theorem Stage.sendData {core3 : DispatchPc} {seen : List Delivery}
    (h : Stage (.data 3) core3 none seen) :
    Stage (.poll 0) core3 (some dataRequest) seen := by
  have hdata : DataOrNone (.poll 0) (some dataRequest) := Or.inr ⟨rfl, trivial⟩
  cases h with
  | start hp => exact absurd trivial hp
  | replyPing => exact .replyPing trivial hdata
  | clearPing => exact .clearPing trivial hdata
  | idlePing => exact .idlePing trivial hdata
  | replyData hs | clearData hs | idleData hs => exact hs.elim

/-- The data for Cores 1 and 2 is refused: their pings are still in their mailboxes. -/
theorem CommInv.data {dest : ℕ} (h : CommInv key s) (hid : getCoreId (mpidr 0) = 0)
    (hpc : s.core0 = .data dest) (hs : commStep key mpidr s .core0 = some s') :
    CommInv key s' := by
  obtain ⟨hsealed, hunread, hresult, hsends, hstage, hclears⟩ := h
  rw [hpc] at hunread hsends hstage
  obtain ⟨hlo, hhi, hsends⟩ := hsends
  simp only [commStep, commCore0, hpc] at hs
  obtain rfl := Option.some.inj hs
  by_cases hdest : dest = 3
  · subst hdest
    have hsend : Sealed key (mailboxSend key (mpidr 0) msgData (dataPayload 3) (s.mailbox 3)).1 ∧
        Stage (.poll 0) s.pc
          (mailboxSend key (mpidr 0) msgData (dataPayload 3) (s.mailbox 3)).1.slot
          (s.acks ++ (s.mailbox 0).slot.toList) := by
      cases hslot : (s.mailbox 3).slot with
      | some m =>
        rw [send_of_slot_some hslot]
        exact ⟨hsealed 3 (by decide), hstage.congr Iff.rfl fun hsent => hsent.elim⟩
      | none =>
        rw [hslot] at hstage
        obtain ⟨-, hslot', hseal⟩ :=
          send_of_slot_none key hslot (mpidr 0) msgData (dataPayload 3)
        rw [hslot', hid]
        exact ⟨hseal, hstage.sendData⟩
    generalize mailboxSend key (mpidr 0) msgData (dataPayload 3) (s.mailbox 3) = r at *
    obtain ⟨hseal, hstage'⟩ := hsend
    refine ⟨sealed_setMailbox hsealed hseal, fun c hc => ?_, hresult, ⟨r.2.ret, ?_⟩, ?_,
      fun i hi => by cases hi⟩
    · dsimp only
      rw [mailbox_setMailbox_of_ne _ _ (by omega)]
      exact ⟨fun _ => (hunread c hc).1 trivial, fun hn => absurd trivial hn⟩
    · rw [hsends]
      rfl
    · dsimp only
      rwa [mailbox_setMailbox_self, mailbox_setMailbox_of_ne _ _ (by decide)]
  · have hslot := (hunread dest (by omega)).1 trivial
    rw [send_of_slot_some hslot]
    have hpc' : (if dest < 3 then CommPc.data (dest + 1) else .poll 0) = .data (dest + 1) :=
      if_pos (by omega)
    dsimp only
    rw [hpc']
    refine ⟨?_, ?_, hresult, ⟨by omega, by omega, ?_⟩, ?_, fun i hi => by cases hi⟩
    · dsimp only
      rwa [setMailbox_eq_self]
    · dsimp only
      rw [setMailbox_eq_self]
      exact hunread
    · rw [hsends]
      obtain rfl | rfl : dest = 1 ∨ dest = 2 := by omega
      · rfl
      · rfl
    · dsimp only
      rw [setMailbox_eq_self]
      exact hstage.congr Iff.rfl id

theorem SendsAt.of_dataSent {sends : List (ℕ × ℤ)} (h : SendsAt sends pc) (hpc : pc.dataSent)
    (hpc' : pc'.dataSent) : SendsAt sends pc' := by
  cases pc with
  | ping | data => exact hpc.elim
  | poll | clear | done =>
    cases pc' with
    | ping | data => exact hpc'.elim
    | poll | clear | done => exact h

/-- A step of the poll loop of Core 0. -/
theorem CommInv.round (h : CommInv key s) (hpc : s.core0.dataSent) (hpc' : pc'.dataSent)
    {mb : Mailbox} {acks : List Delivery} (hseal : Sealed key mb)
    (hstage : Stage s.core0 s.pc (s.mailbox 3).slot (acks ++ mb.slot.toList))
    (hclears : ∀ i, pc' = .clear i → acks ≠ []) :
    CommInv key { s with toAckState := s.setMailbox 0 mb, core0 := pc', acks } where
  sealed := sealed_setMailbox h.sealed hseal
  unread c hc := by
    dsimp only
    rw [mailbox_setMailbox_of_ne _ _ (by omega)]
    exact ⟨fun _ => (h.unread c hc).1 (pinged_of_dataSent hpc c),
      fun hn => absurd (pinged_of_dataSent hpc' c) hn⟩
  result := h.result
  sends := h.sends.of_dataSent hpc hpc'
  stage := by
    dsimp only
    rw [mailbox_setMailbox_self, mailbox_setMailbox_of_ne _ _ (by decide)]
    exact hstage.congr (iff_of_true (pinged_of_dataSent hpc 3) (pinged_of_dataSent hpc' 3))
      fun _ => hpc'
  clears := hclears

theorem nextRound_cases (i : ℕ) : nextRound i = .poll (i + 1) ∨ nextRound i = .done := by
  unfold nextRound
  split
  · exact Or.inl rfl
  · exact Or.inr rfl

theorem dataSent_nextRound (i : ℕ) : (nextRound i).dataSent := by
  rcases nextRound_cases i with h | h <;> rw [h] <;> exact trivial

theorem nextRound_ne_clear (i j : ℕ) : nextRound i ≠ .clear j := by
  rcases nextRound_cases i with h | h <;> rw [h] <;> exact nofun

/-- Core 0 polls its mailbox. -/
theorem CommInv.poll {i : ℕ} (h : CommInv key s) (hpc : s.core0 = .poll i)
    (hs : commStep key mpidr s .core0 = some s') : CommInv key s' := by
  have hsent : s.core0.dataSent := by rw [hpc]; exact trivial
  have hstage := h.stage
  simp only [commStep, commCore0, hpc] at hs
  cases hslot : (s.mailbox 0).slot with
  | some m =>
    obtain ⟨hrecv, hslot', hseal⟩ := receive_of_slot_some (h.sealed 0 (by decide)) hslot
    rw [hrecv] at hs
    obtain rfl := Option.some.inj hs
    have hsent' : (CommPc.clear i).dataSent := trivial
    refine h.round hsent hsent' hseal ?_ fun j _ => by simp
    rw [hslot] at hstage
    rw [hslot']
    simpa using hstage
  | none =>
    rw [receive_of_slot_none hslot] at hs
    obtain rfl := Option.some.inj hs
    exact h.round hsent (dataSent_nextRound i) (h.sealed 0 (by decide)) hstage
      fun j hj => absurd hj (nextRound_ne_clear i j)

/-- A stage in which the acknowledgement in the mailbox of Core 0 is lost. -/
theorem Stage.lose {core3 : DispatchPc} {slot : Option Delivery} {acks lost : List Delivery}
    (h : Stage pc core3 slot (acks ++ lost)) (hne : acks ≠ []) : Stage pc core3 slot acks := by
  obtain ⟨a, acks, rfl⟩ := List.exists_cons_of_ne_nil hne
  generalize hseen : a :: acks ++ lost = seen at h
  have hone (heq : seen = [pingAck]) : a :: acks = [pingAck] := by
    rw [heq] at hseen
    simp at hseen ⊢
    tauto
  have htwo (heq : seen = [pingAck] ∨ seen = [pingAck, dataAck]) :
      a :: acks = [pingAck] ∨ a :: acks = [pingAck, dataAck] := by
    rcases heq with heq | heq
    · exact Or.inl (hone heq)
    · cases acks with
      | nil => simp [heq] at hseen ⊢; tauto
      | cons b acks => simp [heq] at hseen ⊢; tauto
  cases h with
  | start | ping | replyPing => cases hseen
  | clearPing hp hs => exact hone rfl ▸ .clearPing hp hs
  | idlePing hp hs => exact hone rfl ▸ .idlePing hp hs
  | replyData hs => exact hone rfl ▸ .replyData hs
  | clearData hs hcases => exact .clearData hs (htwo hcases)
  | idleData hs hcases => exact .idleData hs (htwo hcases)

/-- Core 0 clears its mailbox. It may lose the acknowledgement of the data. -/
theorem CommInv.clear {i : ℕ} (h : CommInv key s) (hpc : s.core0 = .clear i)
    (hs : commStep key mpidr s .core0 = some s') : CommInv key s' := by
  have hsent : s.core0.dataSent := by rw [hpc]; exact trivial
  have hne := h.clears i hpc
  simp only [commStep, commCore0, hpc] at hs
  obtain rfl := Option.some.inj hs
  obtain ⟨hslot, hseal⟩ := slot_clear key (s.mailbox 0)
  refine h.round hsent (dataSent_nextRound i) hseal ?_ fun j hj => absurd hj (nextRound_ne_clear i j)
  rw [hslot]
  simpa using h.stage.lose hne

/-- A step of the dispatcher. -/
theorem CommInv.served {pc : DispatchPc} {i : ℕ} {mb : Mailbox} (h : CommInv key s)
    (hi : i = 0 ∨ i = 3) (hseal : Sealed key mb)
    (hstage : Stage s.core0 pc ((s.setMailbox i mb).mailbox 3).slot
      (s.acks ++ ((s.setMailbox i mb).mailbox 0).slot.toList)) :
    CommInv key { s with toAckState := (s.setMailbox i mb).goto pc } where
  sealed := sealed_setMailbox h.sealed hseal
  unread c hc := by
    dsimp only
    rw [mailbox_goto, mailbox_setMailbox_of_ne _ _ (by omega)]
    exact h.unread c hc
  result := h.result
  sends := h.sends
  stage := hstage
  clears := h.clears

theorem dispatchStep_receive_some {st : AckState} {m : Delivery} (hid : getCoreId (mpidr 3) = 3)
    (hpc : st.pc = .receive) (hseal : Sealed key (st.mailbox 3))
    (hslot : (st.mailbox 3).slot = some m) : dispatchStep key mpidr st =
      (st.setMailbox 3 (mailboxReceive key (st.mailbox 3)).1).goto (.reply m.sender m.data) := by
  obtain ⟨hreceived, -⟩ := receive_of_slot_some hseal hslot
  unfold dispatchStep dispatchReceive
  rw [hpc, hid]
  show (match (mailboxReceive key (st.mailbox 3)).2.received with
    | some m => (st.setMailbox 3 (mailboxReceive key (st.mailbox 3)).1).goto
        (.reply m.sender m.data)
    | none => st.setMailbox 3 (mailboxReceive key (st.mailbox 3)).1) = _
  rw [hreceived]

theorem dispatchStep_receive_none {st : AckState} (hid : getCoreId (mpidr 3) = 3)
    (hpc : st.pc = .receive) (hslot : (st.mailbox 3).slot = none) :
    dispatchStep key mpidr st = st := by
  unfold dispatchStep dispatchReceive
  rw [hpc, hid]
  show (match (mailboxReceive key (st.mailbox 3)).2.received with
    | some m => (st.setMailbox 3 (mailboxReceive key (st.mailbox 3)).1).goto
        (.reply m.sender m.data)
    | none => st.setMailbox 3 (mailboxReceive key (st.mailbox 3)).1) = st
  rw [receive_of_slot_none hslot]
  exact setMailbox_eq_self st 3

theorem CommInv.core3_receive (h : CommInv key s) (hid : getCoreId (mpidr 3) = 3)
    (hpc : s.pc = .receive) (hs : commStep key mpidr s .core3 = some s') : CommInv key s' := by
  have hstage := h.stage
  rw [hpc] at hstage
  have hs : some { s with toAckState := dispatchStep key mpidr s.toAckState } = some s' := hs
  cases hslot : (s.mailbox 3).slot with
  | none =>
    rw [dispatchStep_receive_none hid hpc hslot] at hs
    rwa [← Option.some.inj hs]
  | some m =>
    have hseal := h.sealed 3 (by decide)
    obtain ⟨-, hslot', hseal'⟩ := receive_of_slot_some hseal hslot
    rw [dispatchStep_receive_some hid hpc hseal hslot] at hs
    obtain rfl := Option.some.inj hs
    refine h.served (Or.inr rfl) hseal' ?_
    rw [mailbox_setMailbox_self, mailbox_setMailbox_of_ne _ _ (by decide), hslot']
    rw [hslot] at hstage
    generalize s.acks ++ (s.mailbox 0).slot.toList = seen at hstage
    cases hstage with
    | ping hp => exact .replyPing hp (Or.inl rfl)
    | idlePing hp hs =>
      obtain ⟨hm, hsent⟩ := hs.resolve_left nofun
      obtain rfl := Option.some.inj hm
      exact .replyData hsent

/-- The acknowledgement of the data is refused while that of the ping is in the mailbox. -/
theorem CommInv.core3_reply {c d : Word} (h : CommInv key s) (hid : getCoreId (mpidr 3) = 3)
    (hpc : s.pc = .reply c d) (hs : commStep key mpidr s .core3 = some s') : CommInv key s' := by
  have hstage := h.stage
  rw [hpc] at hstage
  have hs : some { s with toAckState := dispatchStep key mpidr s.toAckState } = some s' := hs
  rw [dispatchStep_reply hpc] at hs
  obtain rfl := Option.some.inj hs
  have hc : c = 0 := by
    generalize (s.mailbox 3).slot = slot, s.acks ++ (s.mailbox 0).slot.toList = seen at hstage
    cases hstage <;> rfl
  subst hc
  unfold dispatchReply
  rw [hid]
  show CommInv key { s with toAckState := (s.setMailbox 0 (mailboxSend key (mpidr 3) msgAck
    (d + 3 <<< 16) (s.mailbox 0)).1).goto .clear }
  cases hslot : (s.mailbox 0).slot with
  | some m =>
    rw [send_of_slot_some hslot]
    refine h.served (Or.inl rfl) (h.sealed 0 (by decide)) ?_
    rw [setMailbox_eq_self, hslot]
    rw [hslot] at hstage
    generalize (s.mailbox 3).slot = slot at hstage ⊢
    generalize hseen : s.acks ++ (some m).toList = seen at hstage
    cases hstage with
    | replyPing => simp at hseen
    | replyData hsent => exact .clearData hsent (Or.inl rfl)
  | none =>
    obtain ⟨-, hslot', hseal⟩ := send_of_slot_none key hslot (mpidr 3) msgAck (d + 3 <<< 16)
    refine h.served (Or.inl rfl) hseal ?_
    rw [mailbox_setMailbox_self, mailbox_setMailbox_of_ne _ _ (by decide), hslot', hid]
    rw [hslot] at hstage
    generalize (s.mailbox 3).slot = slot at hstage ⊢
    have hnone : s.acks ++ (none : Option Delivery).toList = s.acks := List.append_nil _
    rw [hnone] at hstage
    generalize s.acks = acks at hstage ⊢
    cases hstage with
    | replyPing hp hs => exact .clearPing hp hs
    | replyData hsent => exact .clearData hsent (Or.inr rfl)

theorem CommInv.core3_clear (h : CommInv key s) (hid : getCoreId (mpidr 3) = 3)
    (hpc : s.pc = .clear) (hs : commStep key mpidr s .core3 = some s') : CommInv key s' := by
  have hstage := h.stage
  rw [hpc] at hstage
  have hs : some { s with toAckState := dispatchStep key mpidr s.toAckState } = some s' := hs
  rw [dispatchStep_clear hpc, hid] at hs
  obtain rfl := Option.some.inj hs
  obtain ⟨hslot, hseal⟩ := slot_clear key (s.mailbox 3)
  refine h.served (Or.inr rfl) hseal ?_
  rw [show (3 : Word).toNat = 3 from rfl, mailbox_setMailbox_self,
    mailbox_setMailbox_of_ne _ _ (by decide), hslot]
  generalize (s.mailbox 3).slot = slot, s.acks ++ (s.mailbox 0).slot.toList = seen at hstage
  cases hstage with
  | clearPing hp => exact .idlePing hp (Or.inl rfl)
  | clearData hsent hcases => exact .idleData hsent hcases

theorem CommInv.step (hid₀ : getCoreId (mpidr 0) = 0) (hid₃ : getCoreId (mpidr 3) = 3)
    (h : CommInv key s) {a : CommAct} (hs : commStep key mpidr s a = some s') :
    CommInv key s' := by
  cases a with
  | core0 =>
    cases hpc : s.core0 with
    | ping dest => exact h.ping hid₀ hpc hs
    | data dest => exact h.data hid₀ hpc hs
    | poll i => exact h.poll hpc hs
    | clear i => exact h.clear hpc hs
    | done => simp [commStep, commCore0, hpc] at hs
  | core3 =>
    cases hpc : s.pc with
    | receive => exact h.core3_receive hid₃ hpc hs
    | reply c d => exact h.core3_reply hid₃ hpc hs
    | clear => exact h.core3_clear hid₃ hpc hs

theorem CommInv.exec (hid₀ : getCoreId (mpidr 0) = 0) (hid₃ : getCoreId (mpidr 3) = 3)
    {mb₀ : ℕ → Mailbox} {acts : List CommAct}
    (h : exec (commStep key mpidr) (commInit mb₀) acts = some s) : CommInv key s :=
  exec_invariant (fun _ _ _ hI hs => hI.step hid₀ hid₃ hs) (commInv_init key mb₀) h

/-! ## The tests come to an end -/

/-- A bound on the operations that are left. -/
def CommPc.fuel : CommPc → ℕ
  | .ping dest => 25 + (3 - dest)
  | .data dest => 21 + (3 - dest)
  | .poll i => 2 * (9 - i) + 2
  | .clear i => 2 * (9 - i) + 1
  | .done => 0

theorem fuel_nextRound (i : ℕ) : (nextRound i).fuel < 2 * (9 - i) + 1 := by
  unfold nextRound
  split <;> simp only [CommPc.fuel] <;> omega

variable (key mpidr) in
theorem exists_core0_step (hpc : s.core0 ≠ .done) :
    ∃ s', commStep key mpidr s .core0 = some s' ∧ s'.core0.fuel < s.core0.fuel := by
  cases hcore0 : s.core0 with
  | ping dest | data dest =>
    simp only [commStep, commCore0, hcore0]
    refine ⟨_, rfl, ?_⟩
    dsimp only
    split <;> simp only [CommPc.fuel] <;> omega
  | poll i =>
    simp only [commStep, commCore0, hcore0]
    split
    · exact ⟨_, rfl, by simp [CommPc.fuel]⟩
    · exact ⟨_, rfl, (fuel_nextRound i).trans (Nat.lt_succ_self _)⟩
  | clear i =>
    simp only [commStep, commCore0, hcore0]
    exact ⟨_, rfl, fuel_nextRound i⟩
  | done => exact absurd hcore0 hpc

/-- From every state Core 0 finishes the tests, without any help of Core 3. -/
theorem run_all_tests_returns (key : Key) (mpidr : Fin 4 → DWord) (s : CommState) :
    ∃ n s', exec (commStep key mpidr) s (List.replicate n .core0) = some s' ∧ s'.core0 = .done := by
  induction hf : s.core0.fuel using Nat.strong_induction_on generalizing s with
  | _ f ih =>
    by_cases hpc : s.core0 = .done
    · exact ⟨0, s, rfl, hpc⟩
    · obtain ⟨s₁, hs, hlt⟩ := exists_core0_step key mpidr hpc
      obtain ⟨n, s', hrun, hdone⟩ := ih _ (hf ▸ hlt) s₁ rfl
      exact ⟨n + 1, s', exec_cons_eq_some.2 ⟨s₁, hs, hrun⟩, hdone⟩

/-- Core 3 serves the ping before Core 0 sends its data. -/
def pingServed : List CommAct := List.replicate 3 .core0 ++ List.replicate 3 .core3

theorem exists_pingServed (mb₀ : ℕ → Mailbox) :
    ∃ n s, exec (commStep secretKey coreMpidr) (commInit mb₀)
      (pingServed ++ List.replicate n .core0) = some s ∧ s.core0 = .done := by
  obtain ⟨s, hs⟩ : ∃ s, exec (commStep secretKey coreMpidr) (commInit mb₀) pingServed = some s :=
    ⟨_, rfl⟩
  obtain ⟨n, s', hrun, hdone⟩ := run_all_tests_returns secretKey coreMpidr s
  exact ⟨n, s', exec_append_eq_some.2 ⟨s, hs, hrun⟩, hdone⟩

/-! ## What the tests find -/

theorem Stage.seen_prefix {core3 : DispatchPc} {slot : Option Delivery} {seen : List Delivery}
    (h : Stage pc core3 slot seen) : seen <+: [pingAck, dataAck] := by
  cases h with
  | start | ping | replyPing => exact List.nil_prefix
  | clearPing | idlePing | replyData => exact ⟨[dataAck], rfl⟩
  | clearData _ hseen | idleData _ hseen =>
    rcases hseen with rfl | rfl
    · exact ⟨[dataAck], rfl⟩
    · exact List.prefix_rfl

/-- **The communication tests.** Whatever Core 3 does in between, the pings are all sent, the data
for Cores 1 and 2 is refused, and the acknowledgements that Core 0 takes are that of the ping and
then that of the data, or the first of them, or none. -/
theorem run_all_tests_result (key : Key) (mpidr : Fin 4 → DWord)
    (hid₀ : getCoreId (mpidr 0) = 0) (hid₃ : getCoreId (mpidr 3) = 3) (mb₀ : ℕ → Mailbox)
    (acts : List CommAct) (s : CommState)
    (h : exec (commStep key mpidr) (commInit mb₀) acts = some s) (hdone : s.core0 = .done) :
    s.result = 0 ∧ (∃ r, s.sends = [(1, 0), (2, 0), (3, 0), (1, -1), (2, -1), (3, r)]) ∧
      s.acks <+: [pingAck, dataAck] := by
  have hI := CommInv.exec hid₀ hid₃ h
  have hsends := hI.sends
  rw [hdone] at hsends
  exact ⟨hI.result, hsends, (List.prefix_append _ _).trans hI.stage.seen_prefix⟩

theorem run_all_tests_result_pingServed : ∃ n s,
    exec (commStep secretKey coreMpidr) (commInit fun _ => ⟨0, 0, 0, 0, 0, .replicate 32 0⟩)
      (pingServed ++ List.replicate n .core0) = some s ∧ s.result = 0 ∧
    (∃ r, s.sends = [(1, 0), (2, 0), (3, 0), (1, -1), (2, -1), (3, r)]) ∧
      s.acks <+: [pingAck, dataAck] := by
  obtain ⟨n, s, h, hdone⟩ := exists_pingServed fun _ => ⟨0, 0, 0, 0, 0, .replicate 32 0⟩
  exact ⟨n, s, h, run_all_tests_result secretKey coreMpidr rfl rfl _ _ s h hdone⟩

/-! ## When the second test passes -/

/-- The operations of Core 0, and those of Core 3 between the third of Core 0, which pings Core 3,
and the sixteenth, which is its last poll if it has not received anything. -/
def tally : ℕ × ℕ → CommAct → ℕ × ℕ
  | (n, k), .core0 => (n + 1, k)
  | (n, k), .core3 => if 3 ≤ n ∧ n < 16 then (n, k + 1) else (n, k)

/-- The operation of Core 0 after this one, if it does not receive anything. -/
def CommPc.next : CommPc → CommPc
  | .ping dest => if dest < 3 then .ping (dest + 1) else .data 1
  | .data dest => if dest < 3 then .data (dest + 1) else .poll 0
  | .poll i | .clear i => nextRound i
  | .done => .done

/-- The operation of Core 0 after `n` others. -/
def commPcAfter (n : ℕ) : CommPc := CommPc.next^[n] (.ping 1)

/-- While Core 0 has not received anything, Core 3 receives the ping with its first operation after
it has been sent, and acknowledges it with the second. -/
structure Tallied (s : CommState) (n k : ℕ) : Prop where
  took : s.acks ≠ [] → 2 ≤ k
  le : s.acks = [] → n ≤ 16
  core0 : s.acks = [] → s.core0 = commPcAfter n
  start : n < 3 → k = 0
  early : s.acks = [] → k = 0 → n < 16 → s.pc = .receive ∧ (s.mailbox 0).slot = none
  reply : s.acks = [] → k = 1 → n < 16 → (∃ c d, s.pc = .reply c d) ∧ (s.mailbox 0).slot = none
  late : s.acks = [] → 2 ≤ k → n < 16 ∧ (s.mailbox 0).slot ≠ none

theorem tallied_init (mb₀ : ℕ → Mailbox) : Tallied (commInit mb₀) 0 0 where
  took h := absurd rfl h
  le _ := by decide
  core0 _ := rfl
  start _ := rfl
  early _ _ _ := ⟨rfl, slot_ackInit mb₀ (by decide)⟩
  reply _ h := absurd h (by decide)
  late _ h := absurd h (by decide)

/-- An operation of Core 0 that leaves it without an acknowledgement. -/
theorem CommInv.core0_silent (h : CommInv key s) (hs : commStep key mpidr s .core0 = some s')
    (hacks : s'.acks = []) : s.acks = [] ∧ s.core0 ≠ .done ∧ s'.core0 = s.core0.next ∧
      s'.pc = s.pc ∧ (s'.mailbox 0).slot = (s.mailbox 0).slot ∧
      ∀ i, s.core0 = .poll i → (s.mailbox 0).slot = none := by
  have hsends := h.sends
  cases hpc : s.core0 with
  | ping dest | data dest =>
    rw [hpc] at hsends
    have hdest : 0 ≠ dest := Nat.ne_of_lt hsends.1
    simp only [commStep, commCore0, hpc] at hs
    obtain rfl := Option.some.inj hs
    refine ⟨hacks, nofun, rfl, rfl, ?_, nofun⟩
    dsimp only
    rw [mailbox_setMailbox_of_ne _ _ hdest]
  | poll i =>
    simp only [commStep, commCore0, hpc] at hs
    cases hslot : (s.mailbox 0).slot with
    | some m =>
      obtain ⟨hrecv, -⟩ := receive_of_slot_some (h.sealed 0 (by decide)) hslot
      rw [hrecv] at hs
      obtain rfl := Option.some.inj hs
      simp at hacks
    | none =>
      rw [receive_of_slot_none hslot] at hs
      obtain rfl := Option.some.inj hs
      refine ⟨hacks, nofun, rfl, rfl, ?_, fun _ _ => rfl⟩
      show ((s.setMailbox 0 (s.mailbox 0)).mailbox 0).slot = none
      rw [mailbox_setMailbox_self, hslot]
  | clear i =>
    simp only [commStep, commCore0, hpc] at hs
    obtain rfl := Option.some.inj hs
    exact absurd hacks (h.clears i hpc)
  | done => simp [commStep, commCore0, hpc] at hs

/-- Core 0 receives a message only from its mailbox. -/
theorem core0_took (hs : commStep key mpidr s .core0 = some s')
    (hacks : s.acks = []) (hacks' : s'.acks ≠ []) :
    s.core0 ≠ .done ∧ (s.mailbox 0).slot ≠ none := by
  cases hpc : s.core0 with
  | ping dest | data dest | clear i =>
    simp only [commStep, commCore0, hpc] at hs
    obtain rfl := Option.some.inj hs
    exact absurd hacks hacks'
  | poll i =>
    refine ⟨nofun, fun hslot => hacks' ?_⟩
    simp only [commStep, commCore0, hpc] at hs
    rw [receive_of_slot_none hslot] at hs
    obtain rfl := Option.some.inj hs
    exact hacks
  | done => simp [commStep, commCore0, hpc] at hs

theorem commPcAfter_succ (n : ℕ) : commPcAfter (n + 1) = (commPcAfter n).next :=
  Function.iterate_succ_apply' _ _ _

theorem pinged_commPcAfter : ∀ n < 16, (commPcAfter n).pinged 3 ↔ 3 ≤ n := by decide

theorem Tallied.core0_step {n k : ℕ} (ht : Tallied s n k) (h : CommInv key s)
    (hs : commStep key mpidr s .core0 = some s') : Tallied s' (n + 1) k := by
  have hlt (hacks : s'.acks = []) : n < 16 := by
    obtain ⟨hacks, hdone, -⟩ := h.core0_silent hs hacks
    refine lt_of_le_of_ne (ht.le hacks) ?_
    rintro rfl
    exact hdone (ht.core0 hacks)
  constructor
  · intro hacks'
    by_cases hacks : s.acks = []
    · obtain ⟨hdone, hslot⟩ := core0_took hs hacks hacks'
      have hn : n < 16 := by
        refine lt_of_le_of_ne (ht.le hacks) ?_
        rintro rfl
        exact hdone (ht.core0 hacks)
      by_contra! hk
      obtain rfl | rfl : k = 0 ∨ k = 1 := by omega
      · exact hslot (ht.early hacks rfl hn).2
      · exact hslot (ht.reply hacks rfl hn).2
    · exact ht.took hacks
  · exact hlt
  · intro hacks
    obtain ⟨hacks, -, hnext, -⟩ := h.core0_silent hs hacks
    rw [hnext, ht.core0 hacks, commPcAfter_succ]
  · exact fun hn => ht.start (by omega)
  · intro hacks' hk hn
    obtain ⟨hacks, -, -, hpc, hslot, -⟩ := h.core0_silent hs hacks'
    rw [hpc, hslot]
    exact ht.early hacks hk (by omega)
  · intro hacks' hk hn
    obtain ⟨hacks, -, -, hpc, hslot, -⟩ := h.core0_silent hs hacks'
    rw [hpc, hslot]
    exact ht.reply hacks hk (by omega)
  · intro hacks' hk
    obtain ⟨hacks, -, -, hpc, hslot, hpoll⟩ := h.core0_silent hs hacks'
    obtain ⟨hn, hne⟩ := ht.late hacks hk
    rw [hslot]
    refine ⟨lt_of_le_of_ne hn ?_, hne⟩
    intro hn
    -- after the last poll, which would have received the acknowledgement
    obtain rfl : n = 15 := by omega
    exact hne (hpoll 9 (ht.core0 hacks))

/-- A message stays in the mailbox of Core 0 when Core 3 makes a step. -/
theorem slot_dispatchStep (hid : getCoreId (mpidr 3) = 3) {st : AckState}
    (h : (st.mailbox 0).slot ≠ none) : ((dispatchStep key mpidr st).mailbox 0).slot ≠ none := by
  have hcpu : (getCoreId (mpidr 3)).toNat = 3 := by rw [hid]; rfl
  cases hpc : st.pc with
  | receive =>
    unfold dispatchStep
    rw [hpc, hcpu]
    dsimp only
    split <;> simpa [mailbox_setMailbox_of_ne] using h
  | reply c d =>
    rw [dispatchStep_reply hpc, mailbox_goto]
    by_cases hc : 0 = c.toNat
    · rw [← hc, mailbox_setMailbox_self]
      obtain ⟨m, hm⟩ := Option.ne_none_iff_exists'.1 h
      unfold dispatchReply
      rwa [← hc, send_of_slot_some hm]
    · rwa [mailbox_setMailbox_of_ne _ _ hc]
  | clear =>
    rw [dispatchStep_clear hpc, hcpu, mailbox_goto, mailbox_setMailbox_of_ne _ _ (by decide)]
    exact h

/-- A step of Core 3 before the ping or after the last poll. -/
theorem Tallied.core3_idle {n k : ℕ} (ht : Tallied s n k) (hn : ¬(3 ≤ n ∧ n < 16))
    (hs : commStep key mpidr s .core3 = some s') (h' : CommInv key s') : Tallied s' n k := by
  obtain rfl := Option.some.inj hs
  refine ⟨ht.took, ht.le, ht.core0, ht.start, fun hacks hk hlt => ?_, fun hacks hk hlt => ?_,
    fun hacks hk => ?_⟩
  · have hunpinged : ¬s.core0.pinged 3 := by
      rw [ht.core0 hacks, pinged_commPcAfter n hlt]
      omega
    obtain ⟨hpc, -, hseen⟩ := h'.stage.of_not_pinged hunpinged
    exact ⟨hpc, by simpa using (List.append_eq_nil_iff.1 hseen).2⟩
  · have := ht.start (by omega)
    omega
  · have := ht.start
    have := (ht.late hacks hk).1
    omega

/-- A step of Core 3 between them. -/
theorem Tallied.core3_step {n k : ℕ} (ht : Tallied s n k) (h : CommInv key s)
    (hid : getCoreId (mpidr 3) = 3) (hn : 3 ≤ n ∧ n < 16)
    (hs : commStep key mpidr s .core3 = some s') (h' : CommInv key s') :
    Tallied s' n (k + 1) := by
  have hstage := h.stage
  have hstage' := h'.stage
  obtain rfl := Option.some.inj hs
  refine ⟨fun hacks => Nat.le_succ_of_le (ht.took hacks), ht.le, ht.core0, fun hlt => by omega,
    fun _ hk => by omega, fun hacks hk hlt => ?_, fun hacks hk => ⟨hn.2, ?_⟩⟩
  · -- Core 3 receives the ping
    obtain ⟨hpc, hslot⟩ := ht.early hacks (by omega) hlt
    have hpinged : s.core0.pinged 3 := by
      rw [ht.core0 hacks, pinged_commPcAfter n hlt]
      exact hn.1
    have hacks : s.acks = [] := hacks
    rw [hpc, hacks, hslot] at hstage
    have hping : (s.mailbox 3).slot = some pingRequest := by
      generalize (s.mailbox 3).slot = slot at hstage
      cases hstage with
      | start hp => exact absurd hpinged hp
      | ping => rfl
      | idleData _ hseen => simp at hseen
    dsimp only
    rw [dispatchStep_receive_some hid hpc (h.sealed 3 (by decide)) hping, mailbox_goto,
      mailbox_setMailbox_of_ne _ _ (by decide)]
    exact ⟨⟨_, _, rfl⟩, hslot⟩
  · by_cases hone : k = 1
    · -- and acknowledges it
      obtain ⟨⟨c, d, hpc⟩, -⟩ := ht.reply hacks hone hn.2
      intro hslot
      have hacks : s.acks = [] := hacks
      dsimp only at hstage' hslot
      rw [hslot, hacks, dispatchStep_reply hpc, pc_goto] at hstage'
      generalize ((_ : AckState).mailbox 3).slot = slot at hstage'
      cases hstage' with
      | clearData _ hseen => simp at hseen
    · exact slot_dispatchStep hid (ht.late hacks (by omega)).2

theorem Tallied.exec (hid₀ : getCoreId (mpidr 0) = 0) (hid₃ : getCoreId (mpidr 3) = 3)
    {acts : List CommAct} {c : ℕ × ℕ} (ht : Tallied s c.1 c.2) (h : CommInv key s)
    (hrun : exec (commStep key mpidr) s acts = some s') :
    Tallied s' (acts.foldl tally c).1 (acts.foldl tally c).2 := by
  induction acts generalizing s c with
  | nil => rwa [← Option.some.inj hrun]
  | cons a acts ih =>
    obtain ⟨s₁, hs, hrun⟩ := exec_cons_eq_some.1 hrun
    have h₁ := h.step hid₀ hid₃ hs
    refine ih ?_ h₁ hrun
    cases a with
    | core0 => exact ht.core0_step h hs
    | core3 =>
      obtain ⟨n, k⟩ := c
      by_cases hn : 3 ≤ n ∧ n < 16
      · rw [show tally (n, k) .core3 = (n, k + 1) from if_pos hn]
        exact ht.core3_step h hid₃ hn hs h₁
      · rw [show tally (n, k) .core3 = (n, k) from if_neg hn]
        exact ht.core3_idle hn hs h₁

theorem commPcAfter_ne_done : ∀ n < 16, commPcAfter n ≠ .done := by decide

theorem test2Result_eq_zero (s : CommState) : s.test2Result = 0 ↔ s.acks ≠ [] := by
  simp [CommState.test2Result, List.length_pos_iff]

/-- **The second test.** It passes exactly if Core 3 executes two mailbox operations between the
ping to it and the last poll of Core 0, whatever becomes of the data. -/
theorem test2_passes_iff (key : Key) (mpidr : Fin 4 → DWord) (hid₀ : getCoreId (mpidr 0) = 0)
    (hid₃ : getCoreId (mpidr 3) = 3) (mb₀ : ℕ → Mailbox) (acts : List CommAct) (s : CommState)
    (h : exec (commStep key mpidr) (commInit mb₀) acts = some s) (hdone : s.core0 = .done) :
    s.test2Result = 0 ↔ 2 ≤ (acts.foldl tally (0, 0)).2 := by
  have ht : Tallied s (acts.foldl tally (0, 0)).1 (acts.foldl tally (0, 0)).2 :=
    Tallied.exec (c := (0, 0)) hid₀ hid₃ (tallied_init mb₀) (commInv_init key mb₀) h
  rw [test2Result_eq_zero]
  refine ⟨ht.took, fun hk hacks => ?_⟩
  exact commPcAfter_ne_done _ (ht.late hacks hk).1 ((ht.core0 hacks).symm.trans hdone)

theorem tally_replicate_core0 (n : ℕ) (c : ℕ × ℕ) :
    ((List.replicate n CommAct.core0).foldl tally c).2 = c.2 := by
  induction n generalizing c with
  | zero => rfl
  | succ n ih => exact ih _

theorem test2_passes_iff_pingServed : ∃ n s,
    exec (commStep secretKey coreMpidr) (commInit fun _ => ⟨0, 0, 0, 0, 0, .replicate 32 0⟩)
      (pingServed ++ List.replicate n .core0) = some s ∧ s.test2Result = 0 := by
  obtain ⟨n, s, h, hdone⟩ := exists_pingServed fun _ => ⟨0, 0, 0, 0, 0, .replicate 32 0⟩
  refine ⟨n, s, h, (test2_passes_iff secretKey coreMpidr rfl rfl _ _ s h hdone).2 ?_⟩
  rw [List.foldl_append, tally_replicate_core0]
  decide

end Gateway
