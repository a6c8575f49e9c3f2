import Gateway.Lib.Exec
import Gateway.Ipc.Operations

/-!
# Acknowledgements

Cores 0 to 2 send requests to Core 3 and poll their own mailboxes, while Core 3 runs
`mailbox_dispatcher_task`: it receives a request, sends `MSG_ACK` to the mailbox of the requester,
and clears its own. Each mailbox operation is one step (`Gateway.Ipc.Atomicity`).

The task ignores what `mailbox_send` returns. An acknowledgement sent while the one before it is
still in the mailbox is refused, and is never sent again (`ack_lost`); no other request misses its
acknowledgement (`requests_acked_iff`).
-/

namespace Gateway

open Runs

/-- Where `mailbox_dispatcher_task` is, named by the mailbox operation it executes next. -/
inductive DispatchPc where
  | receive
  | reply (sender data : Word)
  | clear
  deriving DecidableEq

/-- The mailboxes, by core number, and Core 3. -/
structure AckState where
  mailbox : ℕ → Mailbox
  pc : DispatchPc

inductive AckAct where
  /-- Core `c` calls `mailbox_send(3, msg_type, data)`. -/
  | send (c : Fin 3) (msgType data : Word)
  /-- Core `c` calls `mailbox_receive` on its own mailbox. -/
  | receive (c : Fin 3)
  /-- Core `c` calls `mailbox_clear` on its own mailbox. -/
  | clear (c : Fin 3)
  /-- Core 3 executes the next operation of `mailbox_dispatcher_task`. -/
  | dispatch

/-- What happens to a request. -/
inductive AckEvent where
  /-- `mailbox_receive` has returned 1. -/
  | request (sender data : Word)
  /-- `mailbox_send` has placed a message in the mailbox of core `dest`. -/
  | ack (dest : Word) (m : Delivery)
  /-- `mailbox_send` has returned -1. -/
  | refused (dest data : Word)
  | other
  deriving DecidableEq

def AckState.setMailbox (s : AckState) (i : ℕ) (mb : Mailbox) : AckState :=
  { s with mailbox := Function.update s.mailbox i mb }

def AckState.goto (s : AckState) (pc : DispatchPc) : AckState := { s with pc }

/-- What the caller of `mailbox_receive` has when it returned 1. -/
def Outcome.received (o : Outcome) : Option Delivery := if o.ret = 1 then o.out else none

section

variable (s : AckState) (i : ℕ) (mb : Mailbox) (pc : DispatchPc)

@[simp] theorem mailbox_setMailbox_self : (s.setMailbox i mb).mailbox i = mb :=
  Function.update_self ..

theorem mailbox_setMailbox_of_ne {i j : ℕ} (h : j ≠ i) :
    (s.setMailbox i mb).mailbox j = s.mailbox j := Function.update_of_ne h ..

@[simp] theorem mailbox_goto : (s.goto pc).mailbox = s.mailbox := rfl

@[simp] theorem pc_goto : (s.goto pc).pc = pc := rfl

end

section Machine

variable (key : Key) (mpidr : Fin 4 → DWord)

/-- `mailbox_receive` on the mailbox of Core 3. -/
def dispatchReceive (s : AckState) : Mailbox × Outcome :=
  mailboxReceive key (s.mailbox (getCoreId (mpidr 3)).toNat)

/-- `mailbox_send(sender, MSG_ACK, msg_data + (cpu << 16))`. -/
def dispatchReply (s : AckState) (sender data : Word) : Mailbox × Outcome :=
  mailboxSend key (mpidr 3) msgAck (data + getCoreId (mpidr 3) <<< 16) (s.mailbox sender.toNat)

/-- The next operation of `mailbox_dispatcher_task`. -/
def dispatchStep (s : AckState) : AckState :=
  let cpu := (getCoreId (mpidr 3)).toNat
  match s.pc with
  | .receive =>
    let r := dispatchReceive key mpidr s
    let s := s.setMailbox cpu r.1
    match r.2.received with
    | some m => s.goto (.reply m.sender m.data)
    | none => s
  | .reply sender data =>
    (s.setMailbox sender.toNat (dispatchReply key mpidr s sender data).1).goto .clear
  | .clear => (s.setMailbox cpu (mailboxClear (s.mailbox cpu)).1).goto .receive

def ackStep (s : AckState) : AckAct → Option AckState
  | .send c msgType data =>
    some (s.setMailbox 3 (mailboxSend key (mpidr c.castSucc) msgType data (s.mailbox 3)).1)
  | .receive c => some (s.setMailbox c (mailboxReceive key (s.mailbox c)).1)
  | .clear c => some (s.setMailbox c (mailboxClear (s.mailbox c)).1)
  | .dispatch => some (dispatchStep key mpidr s)

def ackEvent (s : AckState) : AckAct → AckEvent
  | .dispatch =>
    match s.pc with
    | .receive =>
      match (dispatchReceive key mpidr s).2.received with
      | some m => .request m.sender m.data
      | none => .other
    | .reply sender data =>
      let r := dispatchReply key mpidr s sender data
      if r.2.ret = 0 then .ack sender r.1.delivery else .refused sender data
    | .clear => .other
  | _ => .other

/-- After `mailbox_init` of the four mailboxes, with Core 3 at the top of its loop. -/
def ackInit (mb₀ : ℕ → Mailbox) : AckState :=
  ⟨fun c => if c < coreCount then mailboxInit (mb₀ c) else mb₀ c, .receive⟩

/-- What happens to the requests of a run, in order. -/
def ackLog (s : AckState) (acts : List AckAct) : List AckEvent :=
  labels (ackStep key mpidr) (ackEvent key mpidr) s acts

end Machine

/-- Each request received from core `c` with payload `d` has exactly one acknowledgement of Core 3
with payload `d + 3 * 2^16` in the mailbox of core `c`, except the one that the task is about to
answer. -/
def RequestsAcked (log : List AckEvent) (s : AckState) : Prop :=
  ∀ c d, log.count (.request c d) =
    log.count (.ack c ⟨3, msgAck, d + 3 * 2 ^ 16⟩) + if s.pc = .reply c d then 1 else 0

/-- If the task is about to acknowledge a request, the requester has taken the acknowledgement
before it: its mailbox is not ready. -/
def RequesterPolled (s : AckState) (a : AckAct) : Prop :=
  a = .dispatch → ∀ c d, s.pc = .reply c d → (s.mailbox c.toNat).status ≠ 1

/-! ## Accounting for the requests -/

section Account

variable {key : Key} {mpidr : Fin 4 → DWord} {s s' : AckState} {a : AckAct}

/-- The task's `mailbox_send` is refused when the mailbox of the requester is ready. -/
theorem dispatchReply_ret (s : AckState) (c d : Word) : (dispatchReply key mpidr s c d).2.ret =
    if (s.mailbox c.toNat).status = 1 then -1 else 0 := by
  unfold dispatchReply
  by_cases hfull : (s.mailbox c.toNat).status = 1
  · rw [mailboxSend_full _ _ _ hfull, if_pos hfull]
  · rw [(mailboxSend_ok key _ _ _ hfull).1, if_neg hfull]

/-- Either way it leaves that mailbox ready. -/
theorem dispatchReply_status (s : AckState) (c d : Word) :
    (dispatchReply key mpidr s c d).1.status = 1 := by
  unfold dispatchReply
  by_cases hfull : (s.mailbox c.toNat).status = 1
  · rw [mailboxSend_full _ _ _ hfull]
    exact hfull
  · exact (mailboxSend_ok key _ _ _ hfull).2.1

/-- If it is not refused it places the acknowledgement. -/
theorem dispatchReply_delivery (hid : getCoreId (mpidr 3) = 3) {c d : Word}
    (hfull : (s.mailbox c.toNat).status ≠ 1) :
    (dispatchReply key mpidr s c d).1.delivery = ⟨3, msgAck, d + 3 * 2 ^ 16⟩ := by
  unfold dispatchReply
  rw [(mailboxSend_ok key _ _ _ hfull).2.2.1, hid]
  rfl

theorem ackEvent_reply (hid : getCoreId (mpidr 3) = 3) {c d : Word} (hpc : s.pc = .reply c d) :
    ackEvent key mpidr s .dispatch =
      if (s.mailbox c.toNat).status = 1 then .refused c d
      else .ack c ⟨3, msgAck, d + 3 * 2 ^ 16⟩ := by
  unfold ackEvent
  rw [hpc]
  dsimp only
  rw [dispatchReply_ret]
  by_cases hfull : (s.mailbox c.toNat).status = 1
  · rw [if_pos hfull, if_pos hfull, if_neg (by decide)]
  · rw [if_neg hfull, if_neg hfull, if_pos rfl, dispatchReply_delivery hid hfull]

theorem dispatchStep_reply {c d : Word} (hpc : s.pc = .reply c d) : dispatchStep key mpidr s =
    (s.setMailbox c.toNat (dispatchReply key mpidr s c d).1).goto .clear := by
  unfold dispatchStep
  rw [hpc]

theorem dispatchStep_clear (hpc : s.pc = .clear) : dispatchStep key mpidr s =
    (s.setMailbox (getCoreId (mpidr 3)).toNat
      (mailboxClear (s.mailbox (getCoreId (mpidr 3)).toNat)).1).goto .receive := by
  unfold dispatchStep
  rw [hpc]

/-- A step receives a request, acknowledges it, is refused, or does neither. -/
theorem ackStep_cases (hid : getCoreId (mpidr 3) = 3) (h : ackStep key mpidr s a = some s') :
    (ackEvent key mpidr s a = .other ∧ ∀ c d, s'.pc = .reply c d ↔ s.pc = .reply c d) ∨
    (∃ c d, ackEvent key mpidr s a = .request c d ∧ s.pc = .receive ∧ s'.pc = .reply c d) ∨
    (∃ c d, ackEvent key mpidr s a = .ack c ⟨3, msgAck, d + 3 * 2 ^ 16⟩ ∧ s.pc = .reply c d ∧
      s'.pc = .clear) ∨
    ∃ c d, ackEvent key mpidr s a = .refused c d ∧ s.pc = .reply c d ∧ s'.pc = .clear := by
  cases a with
  | send c msgType data => obtain rfl := Option.some.inj h; exact Or.inl ⟨rfl, fun _ _ => Iff.rfl⟩
  | receive c => obtain rfl := Option.some.inj h; exact Or.inl ⟨rfl, fun _ _ => Iff.rfl⟩
  | clear c => obtain rfl := Option.some.inj h; exact Or.inl ⟨rfl, fun _ _ => Iff.rfl⟩
  | dispatch =>
    obtain rfl := Option.some.inj h
    cases hpc : s.pc with
    | receive =>
      unfold dispatchStep ackEvent
      rw [hpc]
      dsimp only
      cases hr : (dispatchReceive key mpidr s).2.received with
      | some m => exact Or.inr (Or.inl ⟨m.sender, m.data, rfl, rfl, rfl⟩)
      | none => exact Or.inl ⟨rfl, fun c d => by simp [AckState.setMailbox, hpc]⟩
    | reply c d =>
      refine Or.inr (Or.inr ?_)
      rw [ackEvent_reply hid hpc, dispatchStep_reply hpc]
      by_cases hfull : (s.mailbox c.toNat).status = 1
      · exact Or.inr ⟨c, d, if_pos hfull, rfl, rfl⟩
      · exact Or.inl ⟨c, d, if_neg hfull, rfl, rfl⟩
    | clear =>
      refine Or.inl ⟨by simp [ackEvent, hpc], fun c d => ?_⟩
      rw [dispatchStep_clear hpc]
      simp

/-- The acknowledgement is refused exactly when the requester has not taken the one before it. -/
theorem requesterPolled_iff (hid : getCoreId (mpidr 3) = 3) (s : AckState) (a : AckAct) :
    RequesterPolled s a ↔ ∀ c d, ackEvent key mpidr s a ≠ .refused c d := by
  unfold RequesterPolled
  cases a with
  | send c msgType data => simp [ackEvent]
  | receive c => simp [ackEvent]
  | clear c => simp [ackEvent]
  | dispatch =>
    cases hpc : s.pc with
    | receive => cases hr : (dispatchReceive key mpidr s).2.received <;> simp [ackEvent, hpc, hr]
    | reply c d =>
      rw [ackEvent_reply hid hpc]
      by_cases hfull : (s.mailbox c.toNat).status = 1
      · rw [if_pos hfull]
        exact ⟨fun h => absurd hfull (h rfl c d rfl), fun h => absurd rfl (h c d)⟩
      · rw [if_neg hfull]
        refine ⟨fun _ _ _ => nofun, fun _ _ c' d' hc => ?_⟩
        obtain ⟨rfl, rfl⟩ := DispatchPc.reply.inj hc
        exact hfull
    | clear => simp [ackEvent, hpc]

/-- Every request is acknowledged, refused, or about to be answered. -/
def RequestsAccounted (s : AckState) (log : List AckEvent) : Prop :=
  ∀ c d, log.count (.request c d) =
    log.count (.ack c ⟨3, msgAck, d + 3 * 2 ^ 16⟩) + log.count (.refused c d) +
      if s.pc = .reply c d then 1 else 0

theorem requestsAccounted_step (hid : getCoreId (mpidr 3) = 3) {log : List AckEvent}
    (hJ : RequestsAccounted s log) (h : ackStep key mpidr s a = some s') :
    RequestsAccounted s' (log ++ [ackEvent key mpidr s a]) := by
  intro c d
  have hcd := hJ c d
  rw [List.count_append, List.count_append, List.count_append]
  rcases ackStep_cases hid h with ⟨he, hpc⟩ | ⟨c', d', he, hpc, hpc'⟩ | ⟨c', d', he, hpc, hpc'⟩ |
    ⟨c', d', he, hpc, hpc'⟩
  · simpa [he, hpc c d] using hcd
  all_goals
    rw [he, hpc']
    rw [hpc] at hcd
    by_cases hsame : c' = c ∧ d' = d
    · obtain ⟨rfl, rfl⟩ := hsame
      simp at hcd ⊢
      omega
    · simp [hsame] at hcd ⊢
      omega

theorem requestsAccounted_exec (hid : getCoreId (mpidr 3) = 3) {mb₀ : ℕ → Mailbox}
    {acts : List AckAct} (h : exec (ackStep key mpidr) (ackInit mb₀) acts = some s) :
    RequestsAccounted s (ackLog key mpidr (ackInit mb₀) acts) :=
  labels_invariant_along (G := fun _ _ => True)
    (fun _ _ _ _ hJ _ hs => requestsAccounted_step hid hJ hs)
    (fun c d => by simp [ackInit]) (along_of_forall fun _ _ => trivial) h

/-- **Acknowledgements.** In every order of requests, polls and steps of the task, each request has
its acknowledgement exactly in the runs in which each requester has taken the acknowledgement
before it when the task sends the next. -/
theorem requests_acked_iff (key : Key) (mpidr : Fin 4 → DWord) (hid : getCoreId (mpidr 3) = 3)
    (mb₀ : ℕ → Mailbox) (acts : List AckAct) (s : AckState)
    (h : exec (ackStep key mpidr) (ackInit mb₀) acts = some s) :
    RequestsAcked (ackLog key mpidr (ackInit mb₀) acts) s ↔
      Along (ackStep key mpidr) RequesterPolled (ackInit mb₀) acts := by
  have hacc := requestsAccounted_exec hid h
  rw [along_iff_forall_labels (ackEvent key mpidr) (fun e => ∀ c d, e ≠ .refused c d)
    (requesterPolled_iff hid) h]
  constructor
  · intro hacked e he c d hrefused
    have hcount : 0 < (ackLog key mpidr (ackInit mb₀) acts).count (.refused c d) :=
      List.count_pos_iff.2 (hrefused ▸ he)
    have h₁ := hacked c d
    have h₂ := hacc c d
    omega
  · intro hnone c d
    have hcount : (ackLog key mpidr (ackInit mb₀) acts).count (.refused c d) = 0 :=
      List.count_eq_zero.2 fun hmem => hnone _ hmem c d rfl
    have h₂ := hacc c d
    omega

/-! ## A request that is not acknowledged -/

/-- Core `c` sends a request and Core 3 serves it. -/
def serveRequest (c : Fin 3) (msgType data : Word) : List AckAct :=
  [.send c msgType data, .dispatch, .dispatch, .dispatch]

/-- The task is at the top of its loop, and its mailbox is not ready. -/
def AckState.Idle (s : AckState) : Prop := s.pc = .receive ∧ (s.mailbox 3).status ≠ 1

/-- What is left when a request of core `c` has been served. -/
structure Served (key : Key) (mpidr : Fin 4 → DWord) (c : Fin 3) (acts : List AckAct) (data : Word)
    (s s' : AckState) : Prop where
  exec : exec (ackStep key mpidr) s acts = some s'
  idle : s'.Idle
  ready : (s'.mailbox c).status = 1
  log : ackLog key mpidr s acts = [.other, .request c data,
    if (s.mailbox c).status = 1 then .refused c data
      else .ack c ⟨3, msgAck, data + 3 * 2 ^ 16⟩, .other]

variable (key) in
/-- The request is received; it did not change the mailbox of the requester. -/
theorem exists_received (hid : ∀ c, getCoreId (mpidr c) = BitVec.ofNat 32 c) (h : s.Idle)
    (c : Fin 3) (msgType data : Word) :
    ∃ s', exec (ackStep key mpidr) s [.send c msgType data, .dispatch] = some s' ∧
      s'.pc = .reply (BitVec.ofNat 32 c) data ∧ s'.mailbox c = s.mailbox c ∧
      ackLog key mpidr s [.send c msgType data, .dispatch] =
        [.other, .request (BitVec.ofNat 32 c) data] := by
  obtain ⟨hpc, hidle⟩ := h
  have hid₃ : getCoreId (mpidr 3) = 3 := hid 3
  have hne : (c : ℕ) ≠ 3 := by omega
  obtain ⟨-, hstatus, hdelivery, hauth⟩ :=
    mailboxSend_ok key (mpidr c.castSucc) msgType data hidle
  rw [hid] at hdelivery
  obtain ⟨s₁, hs₁⟩ : ∃ s₁, s₁ = s.setMailbox 3
    (mailboxSend key (mpidr c.castSucc) msgType data (s.mailbox 3)).1 := ⟨_, rfl⟩
  have h₁ : ackStep key mpidr s (.send c msgType data) = some s₁ := by rw [hs₁]; rfl
  have hpc₁ : s₁.pc = .receive := by rw [hs₁]; exact hpc
  generalize (mailboxSend key (mpidr c.castSucc) msgType data (s.mailbox 3)).1 = mb at *
  have hrecv : dispatchReceive key mpidr s₁ =
      ({ mb with status := 2 }, ⟨1, some ⟨BitVec.ofNat 32 c, msgType, data⟩⟩) := by
    unfold dispatchReceive
    rw [hid₃, hs₁]
    show mailboxReceive key ((s.setMailbox 3 mb).mailbox 3) = _
    rw [mailbox_setMailbox_self, mailboxReceive_ready hstatus hauth, hdelivery]
    rfl
  obtain ⟨s₂, hs₂⟩ : ∃ s₂, s₂ = (s₁.setMailbox 3 { mb with status := 2 }).goto
    (.reply (BitVec.ofNat 32 c) data) := ⟨_, rfl⟩
  have h₂ : ackStep key mpidr s₁ .dispatch = some s₂ := by
    simp [ackStep, dispatchStep, hpc₁, hrecv, hid₃, Outcome.received, hs₂]
  have he₂ : ackEvent key mpidr s₁ .dispatch = .request (BitVec.ofNat 32 c) data := by
    simp [ackEvent, hpc₁, hrecv, Outcome.received]
  refine ⟨s₂, by simp [exec_cons, h₁, h₂], by rw [hs₂]; rfl, ?_, ?_⟩
  · rw [hs₂, hs₁, mailbox_goto, mailbox_setMailbox_of_ne _ _ hne, mailbox_setMailbox_of_ne _ _ hne]
  · unfold ackLog
    rw [labels_cons h₁, labels_cons h₂, he₂]
    rfl

/-- The acknowledgement is sent, and the mailbox of Core 3 cleared. -/
theorem exists_replied (hid : getCoreId (mpidr 3) = 3) {c d : Word} (hc : c.toNat ≠ 3)
    (hpc : s.pc = .reply c d) :
    ∃ s', exec (ackStep key mpidr) s [.dispatch, .dispatch] = some s' ∧ s'.Idle ∧
      (s'.mailbox c.toNat).status = 1 ∧
      ackLog key mpidr s [.dispatch, .dispatch] =
        [if (s.mailbox c.toNat).status = 1 then .refused c d
          else .ack c ⟨3, msgAck, d + 3 * 2 ^ 16⟩, .other] := by
  obtain ⟨s₁, hs₁⟩ : ∃ s₁, s₁ = dispatchStep key mpidr s := ⟨_, rfl⟩
  have h₁ : ackStep key mpidr s .dispatch = some s₁ := congrArg some hs₁.symm
  rw [dispatchStep_reply hpc] at hs₁
  have hpc₁ : s₁.pc = .clear := by rw [hs₁]; rfl
  obtain ⟨s₂, hs₂⟩ : ∃ s₂, s₂ = dispatchStep key mpidr s₁ := ⟨_, rfl⟩
  have h₂ : ackStep key mpidr s₁ .dispatch = some s₂ := congrArg some hs₂.symm
  rw [dispatchStep_clear hpc₁, hid] at hs₂
  refine ⟨s₂, by simp [exec_cons, h₁, h₂], ⟨by rw [hs₂]; rfl, ?_⟩, ?_, ?_⟩
  · rw [hs₂]
    show ((s₁.setMailbox 3 _).mailbox 3).status ≠ 1
    simp [mailboxClear]
  · rw [hs₂]
    show ((s₁.setMailbox 3 _).mailbox c.toNat).status = 1
    rw [mailbox_setMailbox_of_ne _ _ hc, hs₁, mailbox_goto, mailbox_setMailbox_self,
      dispatchReply_status]
  · unfold ackLog
    rw [labels_cons h₁, labels_cons h₂, ackEvent_reply hid hpc]
    simp [ackEvent, hpc₁, labels]

theorem exists_served (hid : ∀ c, getCoreId (mpidr c) = BitVec.ofNat 32 c) (h : s.Idle)
    (c : Fin 3) (msgType data : Word) :
    ∃ s', Served key mpidr c (serveRequest c msgType data) data s s' := by
  have hcore : (BitVec.ofNat 32 c : Word).toNat = c := by
    rw [BitVec.toNat_ofNat, Nat.mod_eq_of_lt (by omega)]
  obtain ⟨s₁, h₁, hpc, hbox, hlog₁⟩ := exists_received key hid h c msgType data
  obtain ⟨s₂, h₂, hidle, hready, hlog₂⟩ := exists_replied (hid 3) (by rw [hcore]; omega) hpc
  rw [hcore] at hready hlog₂
  rw [hbox] at hlog₂
  refine ⟨s₂, exec_append_eq_some.2 ⟨s₁, h₁, h₂⟩, hidle, hready, ?_⟩
  unfold ackLog at hlog₁ hlog₂ ⊢
  rw [show serveRequest c msgType data =
    [.send c msgType data, .dispatch] ++ [.dispatch, .dispatch] from rfl, labels_append _ h₁, hlog₁,
    hlog₂]
  rfl

theorem status_ackInit (mb₀ : ℕ → Mailbox) {c : ℕ} (hc : c < coreCount) :
    ((ackInit mb₀).mailbox c).status = 0 := by
  show (if c < coreCount then mailboxInit (mb₀ c) else mb₀ c).status = 0
  rw [if_pos hc]
  rfl

theorem idle_ackInit (mb₀ : ℕ → Mailbox) : (ackInit mb₀).Idle :=
  ⟨rfl, by rw [status_ackInit mb₀ (by decide)]; decide⟩

/-- Two requests of core `c` with no poll in between: the second is not acknowledged. -/
theorem ack_refused (hid : ∀ c, getCoreId (mpidr c) = BitVec.ofNat 32 c) (mb₀ : ℕ → Mailbox)
    (c : Fin 3) (t₁ d₁ t₂ d₂ : Word) :
    ∃ s, exec (ackStep key mpidr) (ackInit mb₀)
        (serveRequest c t₁ d₁ ++ serveRequest c t₂ d₂) = some s ∧
      ackLog key mpidr (ackInit mb₀) (serveRequest c t₁ d₁ ++ serveRequest c t₂ d₂) =
        [.other, .request c d₁, .ack c ⟨3, msgAck, d₁ + 3 * 2 ^ 16⟩, .other,
          .other, .request c d₂, .refused c d₂, .other] ∧ s.pc = .receive := by
  obtain ⟨s₁, h₁⟩ := exists_served hid (idle_ackInit mb₀) c t₁ d₁
  obtain ⟨s₂, h₂⟩ := exists_served hid h₁.idle c t₂ d₂
  refine ⟨s₂, exec_append_eq_some.2 ⟨s₁, h₁.exec, h₂.exec⟩, ?_, h₂.idle.1⟩
  have hlog₁ := h₁.log
  have hlog₂ := h₂.log
  rw [if_neg (by rw [status_ackInit mb₀ (Nat.lt_succ_of_lt c.isLt)]; decide)] at hlog₁
  rw [if_pos h₁.ready] at hlog₂
  unfold ackLog at hlog₁ hlog₂ ⊢
  rw [labels_append _ h₁.exec, hlog₁, hlog₂]
  rfl

/-- The cores are numbered by their affinity level 0. -/
def coreMpidr (c : Fin 4) : DWord := BitVec.ofNat 64 c

theorem getCoreId_coreMpidr : ∀ c, getCoreId (coreMpidr c) = BitVec.ofNat 32 c := by decide

/-- Test 1 sends `MSG_PING`, test 2 sends `MSG_DATA`, and Core 0 polls its mailbox after both: the
acknowledgement of the data is lost. -/
theorem ack_lost : ¬ ∀ (mb₀ : ℕ → Mailbox) (acts : List AckAct) (s : AckState),
    exec (ackStep secretKey coreMpidr) (ackInit mb₀) acts = some s →
      RequestsAcked (ackLog secretKey coreMpidr (ackInit mb₀) acts) s := by
  intro hall
  obtain ⟨s, hrun, hlog, hpc⟩ := ack_refused getCoreId_coreMpidr
    (fun _ => ⟨0, 0, 0, 0, 0, .replicate 32 0⟩) 0 msgPing 0x1003 msgData 0xDEAD0300
  have hlost := hall _ _ _ hrun 0 0xDEAD0300
  rw [hlog, hpc] at hlost
  exact absurd hlost (by decide)

theorem requests_acked_iff_ping : ∃ s,
    exec (ackStep secretKey coreMpidr) (ackInit fun _ => ⟨0, 0, 0, 0, 0, .replicate 32 0⟩)
      (serveRequest 0 msgPing 0x1003) = some s ∧
    RequestsAcked (ackLog secretKey coreMpidr (ackInit fun _ => ⟨0, 0, 0, 0, 0, .replicate 32 0⟩)
      (serveRequest 0 msgPing 0x1003)) s := by
  obtain ⟨s, hs⟩ := exists_served getCoreId_coreMpidr
    (idle_ackInit fun _ => ⟨0, 0, 0, 0, 0, .replicate 32 0⟩) 0 msgPing 0x1003
  refine ⟨s, hs.exec, (requests_acked_iff secretKey coreMpidr rfl _ _ s hs.exec).2 ?_⟩
  rw [along_iff_forall_labels (ackEvent secretKey coreMpidr) (fun e => ∀ c d, e ≠ .refused c d)
    (requesterPolled_iff rfl) hs.exec]
  have hlog := hs.log
  rw [if_neg (by rw [status_ackInit _ (by decide)]; decide)] at hlog
  unfold ackLog at hlog
  rw [hlog]
  simp

end Account

end Gateway
