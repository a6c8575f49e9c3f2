import Gateway.Lib.Linearizable
import Gateway.Ipc.Operations

/-!
# The mailbox operations, access by access

The bodies of `mailbox_send`, `mailbox_receive` and `mailbox_clear` between `spinlock_acquire` and
`spinlock_release`, one load or store of a mailbox word or tag byte a step. A `Local` is where an
operation is and what it holds in registers and on its stack. `hmac_tag_compute` loads the field of
each of its 16 message bytes anew; the last stores of its hash go to `tag` byte by byte. Loads of
the key, which nothing writes, are not steps.

Executed with nothing in between, the accesses are the operations of `Gateway.Ipc.Operations`
(`mailboxClient_completes`).
-/

namespace Gateway

open CriticalSection (Client Completes Reaches)

/-- Where an operation is, named by the access it makes next. -/
inductive Local where
  | sendStatus (mpidr : DWord) (msgType data : Word)
  | sendSender (sender msgType data : Word)
  | sendType (msgType data : Word)
  | sendData (data : Word)
  /-- Load the counter for `mb->counter++`. -/
  | sendCounter
  | sendIncrement (counter : Word)
  /-- Load the field of the next byte of `msg[16]`. -/
  | sendFetch (msg : List Byte)
  | sendTag (tag : Tag) (i : Fin 32)
  | sendReady
  | receiveStatus
  | receiveFetch (msg : List Byte)
  /-- Load `tag[i]` for the comparison with the tag of `msg`. -/
  | receiveCompare (msg : List Byte) (expected : Tag) (change : Byte) (i : Fin 32)
  | receiveSender
  | receiveType (sender : Word)
  | receiveData (sender msgType : Word)
  | receiveMark (d : Delivery)
  /-- Load `tag[i]` for the console. -/
  | receivePrint (d : Delivery) (i : Fin 32)
  /-- Load the status a second time, for the `else if`. -/
  | receiveRecheck
  | receiveReject
  | clearStatus
  | clearType

/-- One iteration of a loop over the 32 tag bytes is done. -/
def forNext (i : Fin 32) (more : Fin 32 → Local) (done : Local) : Local :=
  if h : i.val + 1 < 32 then more ⟨i.val + 1, h⟩ else done

/-- `hmac_tag_compute` has loaded one more field; after the last one it hashes. -/
def fetchNext (key : Key) (mb : Mailbox) (msg : List Byte) (more : List Byte → Local)
    (done : List Byte → Tag → Local) : Local :=
  let msg := msg ++ [mb.fetch msg.length]
  if msg.length < 16 then more msg else done msg (hmacDigest key msg)

/-- The access an operation makes next: the mailbox after it, and how the operation goes on or its
outcome. -/
def mailboxAccess (key : Key) (l : Local) (mb : Mailbox) : Mailbox × (Local ⊕ Outcome) :=
  match l with
  | .sendStatus mpidr msgType data =>
    (mb, if mb.status = 1 then .inr ⟨-1, none⟩
      else .inl (.sendSender (getCoreId mpidr) msgType data))
  | .sendSender sender msgType data => ({ mb with senderId := sender }, .inl (.sendType msgType data))
  | .sendType msgType data => ({ mb with msgType }, .inl (.sendData data))
  | .sendData data => ({ mb with msgData := data }, .inl .sendCounter)
  | .sendCounter => (mb, .inl (.sendIncrement mb.counter))
  | .sendIncrement counter => ({ mb with counter := counter + 1 }, .inl (.sendFetch []))
  | .sendFetch msg => (mb, .inl (fetchNext key mb msg .sendFetch fun _ tag => .sendTag tag 0))
  | .sendTag tag i => (mb.setTag (tag.get i) i, .inl (forNext i (.sendTag tag) .sendReady))
  | .sendReady => ({ mb with status := 1 }, .inr ⟨0, none⟩)
  | .receiveStatus => (mb, .inl (if mb.status = 1 then .receiveFetch [] else .receiveRecheck))
  | .receiveFetch msg =>
    (mb, .inl (fetchNext key mb msg .receiveFetch fun msg tag => .receiveCompare msg tag 0x00 0))
  | .receiveCompare msg expected change i =>
    let change := accumulate expected mb.tag change i
    (mb, .inl (forNext i (.receiveCompare msg expected change)
      (if change = 0x00 then .receiveSender else .receiveRecheck)))
  | .receiveSender => (mb, .inl (.receiveType mb.senderId))
  | .receiveType sender => (mb, .inl (.receiveData sender mb.msgType))
  | .receiveData sender msgType => (mb, .inl (.receiveMark ⟨sender, msgType, mb.msgData⟩))
  | .receiveMark d => ({ mb with status := 2 }, .inl (.receivePrint d 0))
  | .receivePrint d i =>
    (mb, if h : i.val + 1 < 32 then .inl (.receivePrint d ⟨i.val + 1, h⟩) else .inr ⟨1, some d⟩)
  | .receiveRecheck => (mb, if mb.status = 1 then .inl .receiveReject else .inr ⟨0, none⟩)
  | .receiveReject => ({ mb with status := 2 }, .inr ⟨0, none⟩)
  | .clearStatus => ({ mb with status := 0 }, .inl .clearType)
  | .clearType => ({ mb with msgType := msgNone }, .inr ⟨0, none⟩)

/-- A call on the mailbox of core `dest`. -/
structure MailboxOp where
  dest : Fin 4
  call : Call
  deriving DecidableEq

/-- Where a call starts once `spinlock_acquire` has returned. -/
def MailboxOp.start (mpidr : DWord) (op : MailboxOp) : Local :=
  match op.call with
  | .send msgType data => .sendStatus mpidr msgType data
  | .receive => .receiveStatus
  | .clear => .clearStatus

/-- The mailbox operations of the cores; `mpidr c` is `mpidr_el1` of core `c`. -/
def mailboxClient {Core : Type*} (key : Key) (mpidr : Core → DWord) :
    Client Core (Fin 4) MailboxOp Local Mailbox Outcome where
  lock op := op.dest
  start c op := op.start (mpidr c)
  access := mailboxAccess key

/-! ## Executed with nothing in between -/

section

variable {Core : Type*} {key : Key} {mpidr : Core → DWord} {mb : Mailbox}

/-- From `l` the accesses lead to `l'`; every message that they compare a tag for satisfies `P`. -/
abbrev Leads (mpidr : Core → DWord) (key : Key) (P : List Byte → Prop) (l : Local) (mb : Mailbox)
    (l' : Local) (mb' : Mailbox) : Prop :=
  Reaches (mailboxClient key mpidr)
    (fun l _ => ∀ msg expected change i, l = .receiveCompare msg expected change i → P msg) l mb l' mb'

/-- From `l` the accesses end with `x`. -/
abbrev Ends (mpidr : Core → DWord) (key : Key) (l : Local) (mb : Mailbox) (x : Mailbox × Outcome) :
    Prop := Completes (mailboxClient key mpidr) l mb x

variable {P : List Byte → Prop}

/-- The loads of `hmac_tag_compute` but for the last one. -/
theorem leads_fetch {more : List Byte → Local} {done : List Byte → Tag → Local}
    (hmore : ∀ msg, mailboxAccess key (more msg) mb = (mb, .inl (fetchNext key mb msg more done)))
    (hne : ∀ msg msg' expected change i, more msg ≠ .receiveCompare msg' expected change i) :
    Leads mpidr key P (more []) mb (more ((List.range 15).map mb.fetch)) mb := by
  have hloop : ∀ n k, k + n = 15 → Leads mpidr key P (more ((List.range k).map mb.fetch)) mb
      (more ((List.range 15).map mb.fetch)) mb := by
    intro n
    induction n with
    | zero =>
      intro k hk
      obtain rfl : k = 15 := hk
      exact .refl _ _
    | succ n ih =>
      intro k hk
      refine .next (fun _ _ _ _ h => absurd h (hne _ _ _ _ _)) (hmore _) ?_
      unfold fetchNext
      dsimp only
      rw [List.length_map, List.length_range, ← List.map_singleton, ← List.map_append,
        ← List.range_succ, List.length_map, List.length_range, if_pos (by omega)]
      exact ih (k + 1) (by omega)
  exact hloop 15 0 rfl

theorem leads_sendFetch (mb : Mailbox) : Leads mpidr key P (.sendFetch []) mb
    (.sendFetch ((List.range 15).map mb.fetch)) mb :=
  leads_fetch (fun _ => rfl) fun _ _ _ _ _ h => by cases h

theorem leads_receiveFetch (mb : Mailbox) : Leads mpidr key P (.receiveFetch []) mb
    (.receiveFetch ((List.range 15).map mb.fetch)) mb :=
  leads_fetch (fun _ => rfl) fun _ _ _ _ _ h => by cases h

/-- With the last load, `hmac_tag_compute` has the message of the mailbox. -/
theorem fetchNext_last (key : Key) (mb : Mailbox) (more : List Byte → Local)
    (done : List Byte → Tag → Local) :
    fetchNext key mb ((List.range 15).map mb.fetch) more done = done mb.msg (hmacTagCompute key mb) :=
  rfl

/-- The stores of `hmac_tag_compute` end with `tag` in the mailbox. -/
theorem leads_tag (tag : Tag) (mb : Mailbox) :
    Leads mpidr key P (.sendTag tag 0) mb .sendReady { mb with tag } := by
  have hloop : ∀ n (i : Fin 32) (t : Tag), i.val + n = 31 →
      (∀ j : Fin 32, j < i → t[j] = tag[j]) →
      Leads mpidr key P (.sendTag tag i) { mb with tag := t } .sendReady { mb with tag } := by
    intro n
    induction n with
    | zero =>
      intro i t hi ht
      have hset : t.set i tag[i] = tag := by
        refine Vector.ext fun j hj => ?_
        rw [Vector.getElem_set]
        split
        · next hij => subst hij; rfl
        · exact ht ⟨j, hj⟩ (Fin.lt_def.2 (by dsimp only; omega))
      refine .next (fun _ _ _ _ h => by cases h) rfl ?_
      rw [forNext, dif_neg (by omega)]
      show Leads mpidr key P .sendReady { mb with tag := t.set i tag[i] } _ _
      rw [hset]
      exact .refl _ _
    | succ n ih =>
      intro i t hi ht
      refine .next (fun _ _ _ _ h => by cases h) rfl ?_
      rw [forNext, dif_pos (by omega)]
      refine ih _ (t.set i tag[i]) (by dsimp only; omega) fun j hj => ?_
      have hj : j.val < i.val + 1 := hj
      show (t.set i tag[i])[j.val] = tag[j.val]
      rw [Vector.getElem_set]
      split
      · next hij => obtain rfl := Fin.ext hij; rfl
      · exact ht j (Fin.lt_def.2 (by omega))
  exact hloop 31 0 mb.tag rfl fun j hj => absurd hj (Nat.not_lt_zero _)

/-- The comparison loop ends with the verdict of `hmac_tag_verify`. -/
theorem leads_compare (mb : Mailbox) {msg : List Byte} (hP : P msg) :
    Leads mpidr key P (.receiveCompare msg (hmacTagCompute key mb) 0x00 0) mb
      (if hmacTagVerify key mb = true then .receiveSender else .receiveRecheck) mb := by
  have hloop : ∀ n (i : Fin 32) change, i.val + n = 31 →
      ((List.finRange 32).drop i.val).foldl (accumulate (hmacTagCompute key mb) mb.tag) change =
        (List.finRange 32).foldl (accumulate (hmacTagCompute key mb) mb.tag) 0x00 →
      Leads mpidr key P (.receiveCompare msg (hmacTagCompute key mb) change i) mb
        (if hmacTagVerify key mb = true then .receiveSender else .receiveRecheck) mb := by
    intro n
    induction n with
    | zero =>
      intro i change hi hfold
      obtain rfl : i = 31 := Fin.ext hi
      have hlast : accumulate (hmacTagCompute key mb) mb.tag change 31 =
          (List.finRange 32).foldl (accumulate (hmacTagCompute key mb) mb.tag) 0x00 := hfold
      refine .next (fun _ _ _ _ h => by obtain ⟨rfl, -⟩ := Local.receiveCompare.inj h; exact hP) rfl ?_
      rw [forNext, dif_neg (by omega), hlast]
      unfold hmacTagVerify
      simp only [beq_iff_eq]
      exact .refl _ _
    | succ n ih =>
      intro i change hi hfold
      refine .next (fun _ _ _ _ h => by obtain ⟨rfl, -⟩ := Local.receiveCompare.inj h; exact hP) rfl ?_
      rw [forNext, dif_pos (by omega)]
      refine ih _ _ (by dsimp only; omega) ?_
      rw [← hfold, List.drop_eq_getElem_cons (i := i.val) (by simp), List.foldl_cons]
      simp
  exact hloop 31 0 0x00 rfl rfl

/-- The loads for the console change nothing. -/
theorem leads_print (d : Delivery) (mb : Mailbox) :
    Leads mpidr key P (.receivePrint d 0) mb (.receivePrint d 31) mb := by
  have hloop : ∀ n (i : Fin 32), i.val + n = 31 →
      Leads mpidr key P (.receivePrint d i) mb (.receivePrint d 31) mb := by
    intro n
    induction n with
    | zero =>
      intro i hi
      obtain rfl : i = 31 := Fin.ext hi
      exact .refl _ _
    | succ n ih =>
      intro i hi
      have hi' : i.val + 1 < 32 := by omega
      have hnext : mailboxAccess key (.receivePrint d i) mb =
          (mb, .inl (.receivePrint d ⟨i.val + 1, hi'⟩)) := congrArg (Prod.mk mb) (dif_pos hi')
      exact .next (fun _ _ _ _ h => by cases h) hnext (ih _ (by dsimp only; omega))
  exact hloop 31 0 rfl

/-- A verified message is delivered. -/
theorem leads_deliver (mb : Mailbox) : Leads mpidr key P .receiveSender mb
    (.receivePrint mb.delivery 31) { mb with status := 2 } := by
  refine .next (fun _ _ _ _ h => by cases h) rfl (.next (fun _ _ _ _ h => by cases h) rfl ?_)
  refine .next (fun _ _ _ _ h => by cases h) rfl (.next (fun _ _ _ _ h => by cases h) rfl ?_)
  exact leads_print _ _

/-- The second load of the status. -/
theorem ends_recheck (mb : Mailbox) : Ends mpidr key .receiveRecheck mb
    (if mb.status = 1 then ({ mb with status := 2 }, ⟨0, none⟩) else (mb, ⟨0, none⟩)) := by
  by_cases h : mb.status = 1
  · rw [if_pos h]
    have hreject : mailboxAccess key .receiveRecheck mb = (mb, .inl .receiveReject) :=
      congrArg (Prod.mk mb) (if_pos h)
    exact .next hreject (.last rfl)
  · rw [if_neg h]
    exact .last (congrArg (Prod.mk mb) (if_neg h))

variable (key) in
/-- A send that is not refused, after its check of the status. -/
theorem access_sendStatus (h : mb.status ≠ 1) (mpidr : DWord) (msgType data : Word) :
    mailboxAccess key (.sendStatus mpidr msgType data) mb =
      (mb, .inl (.sendSender (getCoreId mpidr) msgType data)) := congrArg (Prod.mk mb) (if_neg h)

variable (key) in
/-- A receive that finds a ready mailbox goes on to verify it. -/
theorem access_receiveStatus (h : mb.status = 1) :
    mailboxAccess key .receiveStatus mb = (mb, .inl (.receiveFetch [])) :=
  congrArg (fun l => (mb, Sum.inl l)) (if_pos h)

theorem ends_send (c : Core) (dest : Fin 4) (msgType data : Word) (mb : Mailbox) :
    Ends mpidr key (MailboxOp.start (mpidr c) ⟨dest, .send msgType data⟩) mb
      (mailboxSend key (mpidr c) msgType data mb) := by
  unfold mailboxSend
  by_cases h : mb.status = 1
  · rw [if_pos h]
    exact .last (congrArg (Prod.mk mb) (if_pos h))
  · rw [if_neg h]
    refine .next (access_sendStatus key h (mpidr c) msgType data) ?_
    refine .next rfl (.next rfl (.next rfl (.next rfl (.next rfl ?_))))
    refine (leads_sendFetch (P := fun _ => True) _).completes (.next rfl ?_)
    exact (leads_tag (P := fun _ => True) _ _).completes (.last rfl)

theorem ends_receive (c : Core) (dest : Fin 4) (mb : Mailbox) :
    Ends mpidr key (MailboxOp.start (mpidr c) ⟨dest, .receive⟩) mb (mailboxReceive key mb) := by
  unfold mailboxReceive
  by_cases h : mb.status = 1
  · refine .next (access_receiveStatus key h) ?_
    refine (leads_receiveFetch (P := fun _ => True) mb).completes (.next rfl ?_)
    rw [fetchNext_last]
    refine (leads_compare (P := fun _ => True) mb trivial).completes ?_
    by_cases hv : hmacTagVerify key mb = true
    · rw [if_pos hv, if_pos ⟨h, hv⟩]
      exact (leads_deliver (P := fun _ => True) mb).completes (.last rfl)
    · rw [if_neg hv, if_neg fun hc => hv hc.2]
      exact ends_recheck mb
  · rw [if_neg fun hc => h hc.1]
    have hidle : mailboxAccess key .receiveStatus mb = (mb, .inl .receiveRecheck) :=
      congrArg (fun l => (mb, Sum.inl l)) (if_neg h)
    exact .next hidle (ends_recheck mb)

/-- **The accesses are the operations.** A call whose accesses nothing comes between does what
`Call.run` says. -/
theorem mailboxClient_completes (key : Key) (mpidr : Core → DWord) (c : Core) (op : MailboxOp)
    (mb : Mailbox) : Completes (mailboxClient key mpidr) ((mailboxClient key mpidr).start c op) mb
      (op.call.run key (mpidr c) mb) := by
  obtain ⟨dest, call⟩ := op
  cases call with
  | send msgType data => exact ends_send c dest msgType data mb
  | receive => exact ends_receive c dest mb
  | clear => exact .next rfl (.last rfl)

end

end Gateway
