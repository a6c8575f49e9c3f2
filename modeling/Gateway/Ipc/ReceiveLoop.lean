import Gateway.Ipc.HonestRuns

/-!
# Senders against a receive loop

Any cores send to one mailbox while its owner runs the loop of `mailbox_dispatcher_task` and of
the ACK poll: `mailbox_receive`, and after a receive that returned 1 a `mailbox_clear`. Each
operation is one step.

While the owner processes a message the mailbox has status 2, and `mailbox_send` refuses only
status 1: a message sent in that window is accepted, and the `mailbox_clear` that ends the window
discards it (`mailbox_loses_message`). No other step loses one: every accepted message stays
accounted for exactly in the runs whose clears find no ready message
(`mailbox_no_loss_iff`).
-/

namespace Gateway

open Runs OneSlot

/-- The mailbox, and whether its owner holds a received message that it has not cleared. -/
structure LoopState where
  mb : Mailbox
  processing : Bool

inductive LoopAct where
  /-- A core calls `mailbox_send`. -/
  | send (mpidr : DWord) (msgType data : Word)
  /-- The owner executes the next operation of its loop. -/
  | loop
  deriving DecidableEq

section

variable (key : Key) (owner : DWord)

/-- The call that an action makes. -/
def loopCall (s : LoopState) : LoopAct → CallBy
  | .send mpidr msgType data => (mpidr, .send msgType data)
  | .loop => (owner, if s.processing then .clear else .receive)

/-- What the caller sees. -/
def loopRecord (s : LoopState) (a : LoopAct) : Record := callRecord key s.mb (loopCall owner s a)

def loopStep (s : LoopState) (a : LoopAct) : Option LoopState :=
  let c := loopCall owner s a
  let r := c.2.run key c.1 s.mb
  match a with
  | .send .. => some { s with mb := r.1 }
  | .loop => some { mb := r.1, processing := !s.processing && r.2.ret == 1 }

/-- After `mailbox_init`, with the owner at the top of its loop. -/
def loopInit (mb₀ : Mailbox) : LoopState := ⟨mailboxInit mb₀, false⟩

/-- The calls of a run and their outcomes, in order. -/
def loopLog (s : LoopState) (acts : List LoopAct) : List Record :=
  labels (loopStep key owner) (loopRecord key owner) s acts

/-- The messages for which `mailbox_send` returned 0. -/
def acceptedBy (log : List Record) : List Delivery := posts (log.map Record.event)

/-- The messages that a `mailbox_receive` that returned 1 has stored. -/
def deliveredBy (log : List Record) : List Delivery := takes (log.map Record.event)

/-- Every accepted message has been delivered or is ready in the mailbox with its fields. -/
def NoMessageLost (log : List Record) (mb : Mailbox) : Prop :=
  ∀ m, (acceptedBy log).count m ≤
    (deliveredBy log).count m + if mb.status = 1 ∧ mb.delivery = m then 1 else 0

/-- The step is not a `mailbox_clear` that finds a ready message. -/
def ClearsNothingReady (s : LoopState) (a : LoopAct) : Prop :=
  a = .loop → s.processing = true → s.mb.status ≠ 1

instance (s : LoopState) (a : LoopAct) : Decidable (ClearsNothingReady s a) := by
  unfold ClearsNothingReady; infer_instance

variable {key owner}

theorem loopStep_mb {s s' : LoopState} {a : LoopAct} (h : loopStep key owner s a = some s') :
    callStep key s.mb (loopCall owner s a) = some s'.mb := by
  cases a <;> (obtain rfl := Option.some.inj h; rfl)

variable (key owner) in
/-- Every step of the loop and its senders is a step of the one-place channel. -/
theorem loop_lockstep : Lockstep (loopStep key owner) OneSlot.next (fun s => Sealed key s.mb)
    (fun s => s.mb.slot) fun s a => (loopRecord key owner s a).event where
  inv s a _ h hs := (honest key).inv s.mb (loopCall owner s a) _ h (loopStep_mb hs)
  sim s a _ h hs := (honest key).sim s.mb (loopCall owner s a) _ h (loopStep_mb hs)

theorem loopRecord_drop {s : LoopState} {a : LoopAct} :
    (loopRecord key owner s a).event = .drop ↔ a = .loop ∧ s.processing = true := by
  rw [Record.event_eq_drop]
  show (loopCall owner s a).2 = .clear ↔ _
  cases a <;> simp [loopCall]

theorem clearsNothingReady_iff (s : LoopState) (a : LoopAct) :
    ClearsNothingReady s a ↔ Lossless s.mb.slot (loopRecord key owner s a).event := by
  unfold ClearsNothingReady Lossless
  rw [loopRecord_drop, and_imp]
  refine imp_congr_right fun _ => imp_congr_right fun _ => ⟨Mailbox.slot_idle, fun h h1 => ?_⟩
  rw [Mailbox.slot_ready h1] at h
  cases h

theorem noMessageLost_iff (log : List Record) (mb : Mailbox) :
    NoMessageLost log mb ↔ Accounted (log.map Record.event) mb.slot := by
  unfold NoMessageLost Accounted acceptedBy deliveredBy
  refine forall_congr' fun m => ?_
  by_cases h : mb.status = 1
  · by_cases hm : mb.delivery = m <;> simp [Mailbox.slot_ready h, h, hm]
  · rw [Mailbox.slot_idle h, if_neg fun hc => h hc.1]
    simp

end

/-- **No lost message.** Over every order of sends, receives and clears from `mailbox_init`, no
accepted message is lost at any moment of the run exactly when none of its `mailbox_clear` steps
finds a ready message. -/
theorem mailbox_no_loss_iff (key : Key) (owner : DWord) (mb₀ : Mailbox) (acts : List LoopAct) :
    (∀ pre s, pre <+: acts → exec (loopStep key owner) (loopInit mb₀) pre = some s →
      NoMessageLost (loopLog key owner (loopInit mb₀) pre) s.mb) ↔
      Along (loopStep key owner) ClearsNothingReady (loopInit mb₀) acts := by
  have h0 : Sealed key (loopInit mb₀).mb := sealed_init key mb₀
  obtain ⟨s, hs⟩ : ∃ s, exec (loopStep key owner) (loopInit mb₀) acts = some s := by
    generalize loopInit mb₀ = s₀
    induction acts generalizing s₀ with
    | nil => exact ⟨s₀, rfl⟩
    | cons a acts ih => cases a <;> exact ih _
  have hL := loop_lockstep key owner
  rw [hL.along_iff (fun s a _ => clearsNothingReady_iff s a) h0 hs]
  have hslot : (loopInit mb₀).mb.slot = none := Mailbox.slot_init mb₀
  have hexec := (hL.exec h0 hs).2
  rw [hslot] at hexec ⊢
  rw [← accounted_iff hexec, ← hslot, hL.forall_prefix_iff h0 hs]
  refine forall_congr' fun pre => forall_congr' fun t => imp_congr_right fun _ =>
    imp_congr_right fun _ => ?_
  rw [noMessageLost_iff, loopLog, map_labels]

/-- **The window.** A message sent while the owner processes an earlier one is accepted, and the
clear that ends the window discards it. -/
theorem lossy_window (key : Key) (owner : DWord) {mb : Mailbox} (h : mb.status ≠ 1)
    (c₁ t₁ d₁ c₂ t₂ d₂) :
    ∃ mb', exec (loopStep key owner) ⟨mb, false⟩
        [.send c₁ t₁ d₁, .loop, .send c₂ t₂ d₂, .loop] = some ⟨mb', false⟩ ∧
      mb'.status = 0 ∧
      acceptedBy (loopLog key owner ⟨mb, false⟩ [.send c₁ t₁ d₁, .loop, .send c₂ t₂ d₂, .loop]) =
        [⟨getCoreId c₁, t₁, d₁⟩, ⟨getCoreId c₂, t₂, d₂⟩] ∧
      deliveredBy (loopLog key owner ⟨mb, false⟩ [.send c₁ t₁ d₁, .loop, .send c₂ t₂ d₂, .loop]) =
        [⟨getCoreId c₁, t₁, d₁⟩] := by
  obtain ⟨ho₁, hs₁, hd₁, ha₁⟩ := mailboxSend_ok key c₁ t₁ d₁ h
  generalize hr₁ : mailboxSend key c₁ t₁ d₁ mb = r₁ at ho₁ hs₁ hd₁ ha₁
  have hr₂ := mailboxReceive_ready hs₁ ha₁
  have hs₂ : { r₁.1 with status := 2 }.status ≠ 1 := by simp
  generalize { r₁.1 with status := 2 } = mb₂ at hr₂ hs₂
  obtain ⟨ho₃, -⟩ := mailboxSend_ok key c₂ t₂ d₂ hs₂
  generalize hr₃ : mailboxSend key c₂ t₂ d₂ mb₂ = r₃ at ho₃
  refine ⟨(mailboxClear r₃.1).1, ?_, rfl, ?_, ?_⟩
  · simp [loopStep, loopCall, Call.run, hr₁, hr₂, hr₃, mailboxClear]
  all_goals
    simp [acceptedBy, deliveredBy, loopLog, labels, loopStep, loopRecord, callRecord, loopCall,
      Call.run, hr₁, hr₂, hr₃, ho₁, ho₃, hd₁, Record.event, posts, takes]

/-- Core 0 sends, Core 3 receives, Core 1 sends while Core 3 still processes, Core 3 clears: both
sends returned 0, and the second message is neither delivered nor in the mailbox. -/
theorem mailbox_loses_message : ¬ ∀ (mb₀ : Mailbox) (acts : List LoopAct) (s : LoopState),
    exec (loopStep secretKey 3) (loopInit mb₀) acts = some s →
      NoMessageLost (loopLog secretKey 3 (loopInit mb₀) acts) s.mb := by
  intro hall
  let mb₀ : Mailbox := ⟨0, 0, 0, 0, 0, Vector.replicate 32 0⟩
  obtain ⟨mb', hrun, hs, hacc, hdel⟩ := lossy_window secretKey 3
    (show (mailboxInit mb₀).status ≠ 1 by simp [mailboxInit]) 0 msgPing 1 1 msgData 2
  have hlost := hall mb₀ _ _ hrun ⟨1, msgData, 2⟩
  unfold loopInit at hlost
  rw [hacc, hdel, hs, if_neg (by simp)] at hlost
  exact absurd hlost (by decide)

end Gateway
