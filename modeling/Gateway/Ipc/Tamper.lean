import Gateway.Ipc.Accesses

/-!
# Tampering between the accesses

An outside writer that takes no lock overwrites any word or tag byte of a mailbox, its lock word
included, between any two accesses of the cores. It cannot forge: when a comparison in
`mailbox_receive` ends well, the message was tagged in a `mailbox_send` (`Unforged`).

The tag is computed from the mailbox and not from the arguments of the call, and the delivered
fields are loaded again after they were verified. So a field changed between its store and its
fetch is signed, and one changed after the verification is delivered (`mailbox_delivers_tampered`).
Every delivered triple was sent by its sender if the writer leaves alone the fields on which an
operation under way relies (`Local.Relies`) and does not free a held lock (`mailbox_authentic`).
-/

namespace Gateway

open Runs CriticalSection

/-! ## The machine -/

/-- A word or tag byte of a mailbox, with the value that is written over it. -/
inductive Overwrite where
  | lock (v : Word)
  | msgType (v : Word)
  | msgData (v : Word)
  | senderId (v : Word)
  | status (v : Word)
  | counter (v : Word)
  | tag (i : Fin 32) (b : Byte)

def Mailbox.overwrite (mb : Mailbox) : Overwrite → Mailbox
  | .lock _ => mb
  | .msgType v => { mb with msgType := v }
  | .msgData v => { mb with msgData := v }
  | .senderId v => { mb with senderId := v }
  | .status v => { mb with status := v }
  | .counter v => { mb with counter := v }
  | .tag i b => mb.setTag b i

abbrev MailboxSystem (Core : Type*) := State Core (Fin 4) MailboxOp Local Mailbox Outcome

/-- The cores and mailboxes; the calls made, and the messages that `hmac_tag_compute` has tagged in
a `mailbox_send`. -/
structure TamperState (Core : Type*) where
  sys : MailboxSystem Core
  calls : List (Core × MailboxOp)
  signed : List (List Byte)

inductive TamperAct (Core : Type*) where
  /-- A core makes a call or an access. -/
  | core (a : Act Core MailboxOp)
  /-- The writer overwrites part of mailbox `d`. -/
  | write (d : Fin 4) (w : Overwrite)

/-- The message whose tag `mailbox_send` computes once it has made this access. -/
def Local.signs (l : Local) (mb : Mailbox) : Option (List Byte) :=
  match l with
  | .sendFetch msg => if msg.length < 15 then none else some (msg ++ [mb.fetch msg.length])
  | _ => none

/-- The message whose tag `hmac_tag_verify` accepts with this access. -/
def Local.accepts (l : Local) (mb : Mailbox) : Option (List Byte) :=
  match l with
  | .receiveCompare msg expected change i =>
    if i.val + 1 < 32 then none
    else if accumulate expected mb.tag change i = 0x00 then some msg else none
  | _ => none

/-- An operation that is about to make an access relies on a field if it has stored or loaded it
and will load it again. -/
def Local.Relies : Local → Field → Prop
  | _, .counter => False
  | .sendType .., f => f = .senderId
  | .sendData _, f => f ≠ .msgData
  | .sendCounter, _ | .sendIncrement _, _ => True
  | .sendFetch msg, f => ∃ i, fieldAt i = f ∧ msg.length ≤ i
  | .receiveFetch msg, f => ∃ i, fieldAt i = f ∧ i < msg.length
  | .receiveCompare .., _ | .receiveSender, _ => True
  | .receiveType _, f => f ≠ .senderId
  | .receiveData .., f => f = .msgData
  | _, _ => False

section

variable {Core : Type*} [DecidableEq Core] (key : Key) (mpidr : Core → DWord)

/-- After `mailbox_init`, with no call made. -/
def tamperInit (mb₀ : Fin 4 → Mailbox) : TamperState Core where
  sys := init fun d => mailboxInit (mb₀ d)
  calls := []
  signed := []

/-- The call that the action makes. -/
def calledIn : Act Core MailboxOp → List (Core × MailboxOp)
  | .call c op => [(c, op)]
  | .step .. => []

/-- The message that the action tags. -/
def signedIn (s : MailboxSystem Core) : Act Core MailboxOp → List (List Byte)
  | .call .. => []
  | .step c _ =>
    match s.phase c with
    | .inside op l => (l.signs (s.mem op.dest)).toList
    | _ => []

/-- The write: a store to the lock word clears the monitors on it. -/
def overwriteSystem (s : MailboxSystem Core) (d : Fin 4) : Overwrite → MailboxSystem Core
  | .lock v => s.storeWord d v
  | w => s.setMem d ((s.mem d).overwrite w)

def tamperStep (s : TamperState Core) : TamperAct Core → Option (TamperState Core)
  | .core a => (step (mailboxClient key mpidr) s.sys a).map fun sys =>
    { sys, calls := s.calls ++ calledIn a, signed := s.signed ++ signedIn s.sys a }
  | .write d w => some { s with sys := overwriteSystem s.sys d w }

/-- A comparison that ends well is for a message that a `mailbox_send` has tagged. -/
def Unforged (s : TamperState Core) : TamperAct Core → Prop
  | .core (.step c _) => ∀ op l msg, s.sys.phase c = .inside op l →
    l.accepts (s.sys.mem op.dest) = some msg → msg ∈ s.signed
  | _ => True

/-- The write does not free a held lock, and it changes no field on which an operation under way on
the mailbox relies. -/
def Untouched (s : TamperState Core) : TamperAct Core → Prop
  | .core _ => True
  | .write d w =>
    (∀ c v, Holds (mailboxClient key mpidr) s.sys c d → w = .lock v → v ≠ 0) ∧
      ∀ c op l f, s.sys.phase c = .inside op l → op.dest = d → l.Relies f →
        ((s.sys.mem d).overwrite w).get f = (s.sys.mem d).get f

/-- Some core with the sender's id has called `mailbox_send` with this type and data. -/
def WasSent (calls : List (Core × MailboxOp)) (d : Delivery) : Prop :=
  ∃ c dest, (c, ⟨dest, .send d.msgType d.data⟩) ∈ calls ∧ getCoreId (mpidr c) = d.sender

end

/-! ## The serialised triple -/

def Delivery.get (d : Delivery) : Field → Word
  | .senderId => d.sender
  | .msgType => d.msgType
  | .msgData => d.data
  | .counter => 0

/-- The bytes of `msg` before the counter are those of the triple. -/
def Serialises (d : Delivery) (msg : List Byte) : Prop :=
  ∀ i < 12, i < msg.length → msg[i]? = some (byteOf (d.get (fieldAt i)) (3 - i % 4))

theorem getLsbD_byteOf (w : Word) (k j : ℕ) (hj : j < 8) :
    (byteOf w k).getLsbD j = w.getLsbD (8 * k + j) := by
  unfold byteOf
  rw [BitVec.getLsbD_setWidth, BitVec.getLsbD_ushiftRight]
  simp [hj]

/-- A word is its four bytes. -/
theorem byteOf_inj {w w' : Word} (h : ∀ k < 4, byteOf w k = byteOf w' k) : w = w' := by
  refine BitVec.eq_of_getLsbD_eq fun j hj => ?_
  have hbyte := congrArg (·.getLsbD (j % 8)) (h (j / 8) (by omega))
  rw [getLsbD_byteOf _ _ _ (Nat.mod_lt _ (by decide)),
    getLsbD_byteOf _ _ _ (Nat.mod_lt _ (by decide)), Nat.div_add_mod] at hbyte
  exact hbyte

theorem fieldAt_ne_counter {i : ℕ} (hi : i < 12) : fieldAt i ≠ .counter := by
  unfold fieldAt
  split
  · exact Field.noConfusion
  split
  · exact Field.noConfusion
  · exact Field.noConfusion

/-- The four bytes of a word come from one field. -/
theorem fieldAt_div (i : ℕ) : fieldAt i = fieldAt (4 * (i / 4)) := by
  have h4 : 4 * (i / 4) < 4 ↔ i < 4 := by omega
  have h8 : 4 * (i / 4) < 8 ↔ i < 8 := by omega
  have h12 : 4 * (i / 4) < 12 ↔ i < 12 := by omega
  simp only [fieldAt, h4, h8, h12]

/-- A message holds one triple. -/
theorem Serialises.inj {d d' : Delivery} {msg : List Byte} (h : Serialises d msg)
    (h' : Serialises d' msg) (hlen : 12 ≤ msg.length) : d = d' := by
  have hword : ∀ k < 3, d.get (fieldAt (4 * k)) = d'.get (fieldAt (4 * k)) := by
    intro k hk
    refine byteOf_inj fun j hj => ?_
    have hi : 4 * k + (3 - j) < 12 := by omega
    have heq := Option.some.inj ((h _ hi (by omega)).symm.trans (h' _ hi (by omega)))
    have hfield : fieldAt (4 * k + (3 - j)) = fieldAt (4 * k) := by
      rw [fieldAt_div, show (4 * k + (3 - j)) / 4 = k by omega]
    have hpos : 3 - (4 * k + (3 - j)) % 4 = j := by omega
    rwa [hfield, hpos] at heq
  obtain ⟨s, t, a⟩ := d
  obtain ⟨s', t', a'⟩ := d'
  have h0 : s = s' := hword 0 (by decide)
  have h1 : t = t' := hword 1 (by decide)
  have h2 : a = a' := hword 2 (by decide)
  rw [h0, h1, h2]

theorem Serialises.append {d : Delivery} {msg : List Byte} {b : Byte} (h : Serialises d msg)
    (hb : msg.length < 12 → b = byteOf (d.get (fieldAt msg.length)) (3 - msg.length % 4)) :
    Serialises d (msg ++ [b]) := by
  intro i hi hlen
  rw [List.length_append, List.length_singleton] at hlen
  by_cases hlt : i < msg.length
  · rw [List.getElem?_append_left hlt]
    exact h i hi hlt
  · obtain rfl : i = msg.length := by omega
    rw [List.getElem?_concat_length, hb hi]

theorem Mailbox.get_delivery (mb : Mailbox) {f : Field} (hf : f ≠ .counter) :
    mb.delivery.get f = mb.get f := by
  cases f <;> first | rfl | exact absurd rfl hf

/-! ## What an operation under way knows -/

/-- The triple that an operation has in its registers and, where it relies on them, in the fields of
the mailbox, was sent. -/
def LocalInv (Sent : Delivery → Prop) (mb : Mailbox) : Local → Prop
  | .sendStatus mpidr msgType data => Sent ⟨getCoreId mpidr, msgType, data⟩
  | .sendSender sender msgType data => Sent ⟨sender, msgType, data⟩
  | .sendType msgType data => Sent ⟨mb.senderId, msgType, data⟩
  | .sendData data => Sent ⟨mb.senderId, mb.msgType, data⟩
  | .sendCounter | .sendIncrement _ | .receiveSender => Sent mb.delivery
  | .sendFetch msg => ∃ d, Sent d ∧ Serialises d msg ∧
      ∀ f, (Local.sendFetch msg).Relies f → mb.get f = d.get f
  | .receiveFetch msg => Serialises mb.delivery msg
  | .receiveCompare msg .. => Serialises mb.delivery msg ∧ 12 ≤ msg.length
  | .receiveType sender => Sent ⟨sender, mb.msgType, mb.msgData⟩
  | .receiveData sender msgType => Sent ⟨sender, msgType, mb.msgData⟩
  | .receiveMark d | .receivePrint d _ => Sent d
  | _ => True

/-- A message holds a triple that was sent. -/
def SentMessage (Sent : Delivery → Prop) (msg : List Byte) : Prop :=
  ∃ d, Sent d ∧ Serialises d msg ∧ 12 ≤ msg.length

section

variable {key : Key} {Sent Sent' : Delivery → Prop} {mb mb' : Mailbox} {l l' : Local}

theorem LocalInv.mono (h : ∀ d, Sent d → Sent' d) (hl : LocalInv Sent mb l) :
    LocalInv Sent' mb l := by
  cases l with
  | sendFetch msg =>
    obtain ⟨d, hd, hrest⟩ := hl
    exact ⟨d, h d hd, hrest⟩
  | receiveFetch | receiveCompare => exact hl
  | sendTag | sendReady | receiveStatus | receiveRecheck | receiveReject | clearStatus
  | clearType => trivial
  | _ => exact h _ hl

theorem Serialises.congr {d d' : Delivery} {msg : List Byte} (h : Serialises d msg)
    (hd : ∀ i < 12, i < msg.length → d.get (fieldAt i) = d'.get (fieldAt i)) : Serialises d' msg :=
  fun i hi hlen => (h i hi hlen).trans (by rw [hd i hi hlen])

theorem relies_sendFetch {msg : List Byte} {f : Field} (hf : f ≠ .counter)
    (h : ∃ i, fieldAt i = f ∧ msg.length ≤ i) : (Local.sendFetch msg).Relies f := by
  cases f with
  | counter => exact hf rfl
  | senderId | msgType | msgData => exact h

theorem relies_receiveFetch {msg : List Byte} {f : Field} (hf : f ≠ .counter)
    (h : ∃ i, fieldAt i = f ∧ i < msg.length) : (Local.receiveFetch msg).Relies f := by
  cases f with
  | counter => exact hf rfl
  | senderId | msgType | msgData => exact h

/-- A write that changes no field on which the operation relies changes nothing that it knows. -/
theorem LocalInv.untouched (hl : LocalInv Sent mb l)
    (h : ∀ f, l.Relies f → mb'.get f = mb.get f) : LocalInv Sent mb' l := by
  have hdel : (∀ f, f ≠ .counter → l.Relies f) → mb'.delivery = mb.delivery := fun hall => by
    have hs : mb'.senderId = mb.senderId := h .senderId (hall _ Field.noConfusion)
    have ht : mb'.msgType = mb.msgType := h .msgType (hall _ Field.noConfusion)
    have hd : mb'.msgData = mb.msgData := h .msgData (hall _ Field.noConfusion)
    unfold Mailbox.delivery
    rw [hs, ht, hd]
  cases l with
  | sendType msgType data =>
    have hs : mb'.senderId = mb.senderId := h .senderId rfl
    show Sent ⟨mb'.senderId, msgType, data⟩
    rwa [hs]
  | sendData data =>
    have hs : mb'.senderId = mb.senderId := h .senderId Field.noConfusion
    have ht : mb'.msgType = mb.msgType := h .msgType Field.noConfusion
    show Sent ⟨mb'.senderId, mb'.msgType, data⟩
    rwa [hs, ht]
  | sendCounter | sendIncrement | receiveSender =>
    show Sent mb'.delivery
    rw [hdel fun f hf => by cases f <;> trivial]
    exact hl
  | sendFetch msg =>
    obtain ⟨d, hd, hser, hrel⟩ := hl
    exact ⟨d, hd, hser, fun f hf => (h f hf).trans (hrel f hf)⟩
  | receiveFetch msg =>
    refine Serialises.congr hl fun i hi hlen => ?_
    have hf := fieldAt_ne_counter hi
    rw [Mailbox.get_delivery _ hf, Mailbox.get_delivery _ hf]
    exact (h _ (relies_receiveFetch hf ⟨i, rfl, hlen⟩)).symm
  | receiveCompare msg expected change i =>
    show Serialises mb'.delivery msg ∧ _
    rw [hdel fun f hf => by cases f <;> trivial]
    exact hl
  | receiveType sender =>
    have ht : mb'.msgType = mb.msgType := h .msgType Field.noConfusion
    have hd : mb'.msgData = mb.msgData := h .msgData Field.noConfusion
    show Sent ⟨sender, mb'.msgType, mb'.msgData⟩
    rwa [ht, hd]
  | receiveData sender msgType =>
    have hd : mb'.msgData = mb.msgData := h .msgData rfl
    show Sent ⟨sender, msgType, mb'.msgData⟩
    rwa [hd]
  | _ => exact hl

/-- The byte that a send loads next is the one of its triple. -/
theorem Serialises.fetch {d : Delivery} {msg : List Byte} (hser : Serialises d msg)
    (hrel : ∀ f, (Local.sendFetch msg).Relies f → mb.get f = d.get f) :
    Serialises d (msg ++ [mb.fetch msg.length]) := by
  refine hser.append fun hlt => ?_
  have hf := fieldAt_ne_counter hlt
  unfold Mailbox.fetch
  rw [hrel _ (relies_sendFetch hf ⟨msg.length, rfl, Nat.le_refl _⟩)]

/-- One more field is loaded by a send. -/
theorem LocalInv.sendFetch {msg : List Byte} (hl : LocalInv Sent mb (.sendFetch msg)) :
    LocalInv Sent mb (fetchNext key mb msg .sendFetch fun _ tag => .sendTag tag 0) := by
  obtain ⟨d, hd, hser, hrel⟩ := hl
  unfold fetchNext
  dsimp only
  split
  · refine ⟨d, hd, hser.fetch hrel, fun f hf => hrel f ?_⟩
    cases f with
    | counter => exact hf
    | _ =>
      obtain ⟨i, hi, hlen⟩ := hf
      rw [List.length_append] at hlen
      exact ⟨i, hi, by omega⟩
  · trivial

/-- What a send signs was sent. -/
theorem signs_inv {m : List Byte} (hl : LocalInv Sent mb l) (h : l.signs mb = some m) :
    SentMessage Sent m := by
  cases l with
  | sendFetch msg =>
    obtain ⟨d, hd, hser, hrel⟩ := hl
    obtain ⟨hlen, h⟩ := Option.ite_none_left_eq_some.1 h
    obtain rfl := Option.some.inj h
    refine ⟨d, hd, hser.fetch hrel, ?_⟩
    rw [List.length_append, List.length_singleton]
    omega
  | _ => cases h

/-- One more field is loaded by a receive. -/
theorem LocalInv.receiveFetch {msg : List Byte} (hl : LocalInv Sent mb (.receiveFetch msg)) :
    LocalInv Sent mb
      (fetchNext key mb msg .receiveFetch fun msg tag => .receiveCompare msg tag 0x00 0) := by
  have hser : Serialises mb.delivery (msg ++ [mb.fetch msg.length]) := by
    refine Serialises.append hl fun hlt => ?_
    rw [Mailbox.get_delivery _ (fieldAt_ne_counter hlt)]
    rfl
  unfold fetchNext
  dsimp only
  split
  · exact hser
  · exact ⟨hser, by omega⟩

/-- How an operation goes on, or what it delivers, is right. -/
def AfterAccess (Sent : Delivery → Prop) (mb : Mailbox) : Local ⊕ Outcome → Prop
  | .inl l => LocalInv Sent mb l
  | .inr r => ∀ d, r.out = some d → Sent d

theorem afterAccess_forNext {i : Fin 32} {more : Fin 32 → Local} {done : Local}
    (hmore : ∀ j, LocalInv Sent mb (more j)) (hdone : ¬ i.val + 1 < 32 → LocalInv Sent mb done) :
    LocalInv Sent mb (forNext i more done) := by
  unfold forNext
  split
  · exact hmore _
  · next h => exact hdone h

variable (key) in
/-- **One access.** If what the operation knows holds, and a message whose tag it accepts holds a
triple that was sent, then it still holds after the access, and a triple that it delivers was
sent. -/
theorem access_inv (hl : LocalInv Sent mb l)
    (hacc : ∀ msg, l.accepts mb = some msg → SentMessage Sent msg) :
    AfterAccess Sent (mailboxAccess key l mb).1 (mailboxAccess key l mb).2 := by
  have hnone : ∀ r : ℤ, AfterAccess Sent mb (.inr ⟨r, none⟩) := fun r d hd => by cases hd
  cases l with
  | sendStatus mpidr msgType data =>
    show AfterAccess Sent mb (if _ then _ else _)
    split
    · exact hnone _
    · exact hl
  | sendIncrement counter =>
    exact ⟨mb.delivery, hl, fun i _ hlen => absurd hlen (Nat.not_lt_zero _), fun f hf => by
      cases f <;> first | rfl | exact absurd hf id⟩
  | sendFetch msg => exact LocalInv.sendFetch hl
  | sendTag tag i => exact afterAccess_forNext (fun _ => trivial) fun _ => trivial
  | sendReady | receiveReject | clearType => exact fun d hd => by cases hd
  | receiveStatus =>
    show LocalInv Sent mb (if _ then _ else _)
    split
    · exact fun i _ hlen => absurd hlen (Nat.not_lt_zero _)
    · trivial
  | receiveFetch msg => exact LocalInv.receiveFetch hl
  | receiveCompare msg expected change i =>
    refine afterAccess_forNext (fun _ => hl) fun hlast => ?_
    split
    · next hz =>
      obtain ⟨d, hd, hser, hlen⟩ := hacc msg ((if_neg hlast).trans (if_pos hz))
      show Sent mb.delivery
      rwa [hl.1.inj hser hlen]
    · trivial
  | receivePrint d i =>
    show AfterAccess Sent mb (dite _ _ _)
    split
    · exact hl
    · intro d' hd'
      obtain rfl := Option.some.inj hd'
      exact hl
  | receiveRecheck =>
    show AfterAccess Sent mb (if _ then _ else _)
    split
    · trivial
    · exact hnone _
  | clearStatus => trivial
  | _ => exact hl

end

end Gateway
