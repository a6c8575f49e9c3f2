import Gateway.Lib.Interleave
import Gateway.Lib.Loops
import Gateway.Lib.MemoryView
import Gateway.Lib.OneMemory
import Gateway.Crypto.Rfc2104
import Gateway.Ipc.Accesses
import Gateway.RingBuffer.Bounds

/-!
# The shared memory

The mailboxes, the ring buffer and the key at their addresses in one byte-addressed memory. The
cores make the accesses of `Gateway.Ipc.Accesses` and `Gateway.RingBuffer.Ringbuf` as loads and
stores of this memory, in any interleaving with each other and with any stores of the program that
are apart from these objects.

`shared_memory_refines`: after the initialisation by `main`, from whatever the memory held, every run
is a run of the mailboxes and a run of the ring buffer on their own, and the key stays. This rests on
`Contained`: `data[i]` is not checked, and an index that is out of range would reach the key.
-/

namespace Gateway

open Runs ByteMemory CriticalSection CyclicQueue

/-! ## The addresses -/

/-- `SHARED_MEM_BASE`; the word there is that of `SPINLOCK_ADDR`. -/
def sharedMemBase : ℕ := 0x40220000

/-- `MAILBOX_BASE`. -/
def mailboxBase : ℕ := 0x40220100

/-- `sizeof(mailbox_t)`: the lock, five words and the tag. -/
def mailboxSize : ℕ := 56

/-- `GET_MAILBOX`. -/
def mailboxAddr (c : Fin 4) : ℕ := mailboxBase + c * mailboxSize

/-- `RING_BUFFER_BASE`. -/
def ringBufferBase : ℕ := 0x40220200

/-! ## The objects -/

/-- `mb->lock`. -/
def lockView (c : Fin 4) : View Word where
  base := mailboxAddr c
  size := 4
  load m := read 4 m (mailboxAddr c)
  load_congr _ _ h := read_agreeOn h (Nat.le_refl _) (Nat.le_refl _)

/-- The fields of `mailbox_t` behind the lock. -/
def mailboxFields (m : Memory) (a : ℕ) : Mailbox where
  msgType := read 4 m (a + 4)
  msgData := read 4 m (a + 8)
  senderId := read 4 m (a + 12)
  status := read 4 m (a + 16)
  counter := read 4 m (a + 20)
  tag := bytesAt 32 m (a + 24)

def mailboxView (c : Fin 4) : View Mailbox where
  base := mailboxAddr c + 4
  size := 52
  load m := mailboxFields m (mailboxAddr c)
  load_congr m m' h := by
    have hword {o : ℕ} (hlo : 4 ≤ o) (hhi : o + 4 ≤ 56) :
        read 4 m (mailboxAddr c + o) = read 4 m' (mailboxAddr c + o) :=
      read_agreeOn h (by omega) (by omega)
    unfold mailboxFields
    rw [hword (o := 4), hword (o := 8), hword (o := 12), hword (o := 16), hword (o := 20),
      bytesAt_agreeOn h]
    all_goals omega

/-- `ring_buffer_t`. -/
def ringView : View RingBuffer where
  base := ringBufferBase
  size := 264
  load m :=
    { head := read 4 m ringBufferBase
      tail := read 4 m (ringBufferBase + 4)
      data := fun i => if i < ringBufferSize then m (ringBufferBase + 8 + i) else 0 }
  load_congr m m' h := by
    rw [read_agreeOn h (Nat.le_refl _) (by omega), read_agreeOn h (by omega) (by omega)]
    congr 1
    funext i
    split
    · next hi =>
      unfold ringBufferSize at hi
      exact h _ (by omega) (by omega)
    · rfl

def keyView : View Key where
  base := hmacKeyAddr
  size := 32
  load := storedKey
  load_congr _ _ h := bytesAt_agreeOn h (Nat.le_refl _) (Nat.le_refl _)

/-! ## The mailboxes -/

/-- The store of the next access to the mailbox of core `c`. -/
def mailboxStore (c : Fin 4) (l : Local) (m : Memory) : Memory :=
  let a := mailboxAddr c
  match l with
  | .sendSender sender _ _ => write 4 m (a + 12) sender
  | .sendType msgType _ => write 4 m (a + 4) msgType
  | .sendData data => write 4 m (a + 8) data
  | .sendIncrement counter => write 4 m (a + 20) (counter + 1)
  | .sendTag tag i => write 1 m (a + 24 + i) (tag.get i)
  | .sendReady => write 4 m (a + 16) 1
  | .receiveMark _ | .receiveReject => write 4 m (a + 16) 2
  | .clearStatus => write 4 m (a + 16) 0
  | .clearType => write 4 m (a + 4) msgNone
  | .sendStatus .. | .sendCounter | .sendFetch _ | .receiveStatus | .receiveFetch _
  | .receiveCompare .. | .receiveSender | .receiveType _ | .receiveData .. | .receivePrint ..
  | .receiveRecheck => m

section Fields

variable (m : Memory) (a : ℕ)

theorem read_write_word {o o' : ℕ} (v : Word) (h : o + 4 ≤ o' ∨ o' + 4 ≤ o) :
    read 4 (write 4 m (a + o) v) (a + o') = read 4 m (a + o') :=
  read_write_of_apart (by unfold Apart; omega)

theorem tag_write_word {o : ℕ} (v : Word) (h : o + 4 ≤ 24) :
    bytesAt 32 (write 4 m (a + o) v) (a + 24) = bytesAt 32 m (a + 24) := by
  have hagree : AgreeOn (a + 24) 32 (write 4 m (a + o) v) m :=
    agreeOn_write (n := 4) (by unfold Apart; omega) m v
  exact bytesAt_agreeOn hagree (Nat.le_refl _) (Nat.le_refl _)

theorem mailboxFields_msgType (v : Word) :
    mailboxFields (write 4 m (a + 4) v) a = { mailboxFields m a with msgType := v } := by
  simp (disch := omega) only [mailboxFields, read_write, read_write_word, tag_write_word]

theorem mailboxFields_msgData (v : Word) :
    mailboxFields (write 4 m (a + 8) v) a = { mailboxFields m a with msgData := v } := by
  simp (disch := omega) only [mailboxFields, read_write, read_write_word, tag_write_word]

theorem mailboxFields_senderId (v : Word) :
    mailboxFields (write 4 m (a + 12) v) a = { mailboxFields m a with senderId := v } := by
  simp (disch := omega) only [mailboxFields, read_write, read_write_word, tag_write_word]

theorem mailboxFields_status (v : Word) :
    mailboxFields (write 4 m (a + 16) v) a = { mailboxFields m a with status := v } := by
  simp (disch := omega) only [mailboxFields, read_write, read_write_word, tag_write_word]

theorem mailboxFields_counter (v : Word) :
    mailboxFields (write 4 m (a + 20) v) a = { mailboxFields m a with counter := v } := by
  simp (disch := omega) only [mailboxFields, read_write, read_write_word, tag_write_word]

theorem mailboxFields_tag (b : Byte) (i : Fin 32) :
    mailboxFields (write 1 m (a + 24 + i) b) a = (mailboxFields m a).setTag b i := by
  have hword {o : ℕ} (ho : o + 4 ≤ 24) :
      read 4 (write 1 m (a + 24 + i) b) (a + o) = read 4 m (a + o) :=
    read_write_of_apart (by unfold Apart; omega)
  obtain ⟨i, hi⟩ := i
  unfold mailboxFields Mailbox.setTag
  rw [hword (o := 4), hword (o := 8), hword (o := 12), hword (o := 16), hword (o := 20),
    bytesAt_write_one m (a + 24) hi]
  all_goals omega

/-- The stores behind the lock. -/
theorem fields_mailboxStore (key : Key) (c : Fin 4) (l : Local) :
    (mailboxView c).load (mailboxStore c l m) =
      (mailboxAccess key l ((mailboxView c).load m)).1 := by
  cases l with
  | sendSender => exact mailboxFields_senderId ..
  | sendType | clearType => exact mailboxFields_msgType ..
  | sendData => exact mailboxFields_msgData ..
  | sendIncrement => exact mailboxFields_counter ..
  | sendTag => exact mailboxFields_tag ..
  | sendReady | receiveMark | receiveReject | clearStatus => exact mailboxFields_status ..
  | _ => rfl

end Fields

/-- A store of `mailbox_send`, `mailbox_receive` or `mailbox_clear` stays behind the lock word. -/
theorem mailboxStore_agreeOn (c : Fin 4) (l : Local) (m : Memory) {base size : ℕ}
    (h : Apart (mailboxAddr c + 4) 52 base size) : AgreeOn base size (mailboxStore c l m) m := by
  unfold Apart at h
  cases l with
  | sendTag tag i => exact agreeOn_write (by unfold Apart; omega) _ _
  | sendSender | sendType | sendData | sendIncrement | sendReady | receiveMark | receiveReject
  | clearStatus | clearType => exact agreeOn_write (by unfold Apart; omega) _ _
  | _ => exact fun _ _ _ => rfl

/-! ### The four mailboxes do not overlap -/

theorem mailboxAddr_apart {c d : Fin 4} (h : c ≠ d) :
    Apart (mailboxAddr c) mailboxSize (mailboxAddr d) mailboxSize := by
  have hne : (c : ℕ) ≠ d := fun he => h (Fin.ext he)
  unfold Apart mailboxAddr mailboxSize
  omega

theorem lockView_setWord (c : Fin 4) (v : Word) (m : Memory) :
    (fun d => (lockView d).load (write 4 m (mailboxAddr c) v)) =
      Function.update (fun d => (lockView d).load m) c v := by
  refine load_write_update lockView (fun i j hij => ?_) (Nat.le_refl _) (Nat.le_refl _) m v ?_
  · have := mailboxAddr_apart hij
    unfold Apart mailboxSize at this
    show Apart (mailboxAddr i) 4 (mailboxAddr j) 4
    unfold Apart
    omega
  · exact read_write ..

theorem mailboxView_setWord (c d : Fin 4) (v : Word) (m : Memory) :
    (mailboxView d).load (write 4 m (mailboxAddr c) v) = (mailboxView d).load m := by
  refine (mailboxView d).load_write (n := 4) ?_ m v
  show Apart (mailboxAddr c) 4 (mailboxAddr d + 4) 52
  unfold Apart mailboxAddr mailboxSize
  omega

theorem lockView_mailboxStore (c d : Fin 4) (l : Local) (m : Memory) :
    (lockView d).load (mailboxStore c l m) = (lockView d).load m := by
  refine (lockView d).load_congr _ _ (mailboxStore_agreeOn c l m ?_)
  show Apart (mailboxAddr c + 4) 52 (mailboxAddr d) 4
  unfold Apart mailboxAddr mailboxSize
  omega

theorem mailboxView_mailboxStore (key : Key) (c : Fin 4) (l : Local) (m : Memory) :
    (fun d => (mailboxView d).load (mailboxStore c l m)) =
      Function.update (fun d => (mailboxView d).load m) c
        (mailboxAccess key l ((mailboxView c).load m)).1 := by
  funext d
  by_cases hdc : d = c
  · subst hdc
    rw [Function.update_self]
    exact fields_mailboxStore m key d l
  · rw [Function.update_of_ne hdc]
    refine (mailboxView d).load_congr _ _ (mailboxStore_agreeOn c l m ?_)
    have := mailboxAddr_apart (Ne.symm hdc)
    show Apart (mailboxAddr c + 4) 52 (mailboxAddr d + 4) 52
    unfold Apart mailboxSize at *
    omega

/-- The mailboxes in the memory of the cores. -/
def mailboxLayout (key : Key) (mpidr : Fin 4 → DWord) : Layout (mailboxClient key mpidr) Memory where
  word m c := (lockView c).load m
  mem m c := (mailboxView c).load m
  setWord c v m := write 4 m (mailboxAddr c) v
  store op l m := mailboxStore op.dest l m
  word_setWord c v m := lockView_setWord c v m
  mem_setWord c v m := funext fun d => mailboxView_setWord c d v m
  word_store op l m := funext fun d => lockView_mailboxStore op.dest d l m
  mem_store op l m := mailboxView_mailboxStore key op.dest l m

/-! ## The ring buffer -/

/-- The next access of a call: the memory after it, and how the call goes on or what it is in the
log. -/
def ringAccess (m : Memory) : Pc → Option (Memory × (Pc ⊕ Event Byte))
  | .idle => none
  | .putHead c => some (m, .inl (.putTail c (nextIndex (read 4 m ringBufferBase))))
  | .putTail c nextHead =>
    some (m, if nextHead = read 4 m (ringBufferBase + 4) then .inr (.full c)
      else .inl (.putIndex c nextHead))
  | .putIndex c nextHead => some (m, .inl (.putData c nextHead (read 4 m ringBufferBase)))
  | .putData c nextHead i =>
    some (write 1 m (ringBufferBase + 8 + i.toNat) c, .inl (.putPublish c nextHead))
  | .putPublish c nextHead => some (write 4 m ringBufferBase nextHead, .inr (.put c))
  | .getHead => some (m, .inl (.getTail (read 4 m ringBufferBase)))
  | .getTail h => some (m, if h = read 4 m (ringBufferBase + 4) then .inr .empty else .inl .getIndex)
  | .getIndex => some (m, .inl (.getData (read 4 m (ringBufferBase + 4))))
  | .getData i => some (m, .inl (.getReload (m (ringBufferBase + 8 + i.toNat))))
  | .getReload c => some (m, .inl (.getPublish c (nextIndex (read 4 m (ringBufferBase + 4)))))
  | .getPublish c nextTail => some (write 4 m (ringBufferBase + 4) nextTail, .inr (.get c))

theorem ringView_head (m : Memory) (v : Word) :
    ringView.load (write 4 m ringBufferBase v) = { ringView.load m with head := v } := by
  have htail : read 4 (write 4 m ringBufferBase v) (ringBufferBase + 4) =
      read 4 m (ringBufferBase + 4) := read_write_of_apart (by unfold Apart; omega)
  have hdata (i : ℕ) : write 4 m ringBufferBase v (ringBufferBase + 8 + i) =
      m (ringBufferBase + 8 + i) := write_of_lt (by omega)
  simp only [ringView, read_write, htail, hdata]

theorem ringView_tail (m : Memory) (v : Word) :
    ringView.load (write 4 m (ringBufferBase + 4) v) = { ringView.load m with tail := v } := by
  have hhead : read 4 (write 4 m (ringBufferBase + 4) v) ringBufferBase =
      read 4 m ringBufferBase := read_write_of_apart (by unfold Apart; omega)
  have hdata (i : ℕ) : write 4 m (ringBufferBase + 4) v (ringBufferBase + 8 + i) =
      m (ringBufferBase + 8 + i) := write_of_lt (by omega)
  simp only [ringView, read_write, hhead, hdata]

/-- An index that is in range. -/
theorem ringView_data (m : Memory) {i : ℕ} (hi : i < ringBufferSize) (c : Byte) :
    ringView.load (write 1 m (ringBufferBase + 8 + i) c) =
      { ringView.load m with data := Function.update (ringView.load m).data i c } := by
  have hhead : read 4 (write 1 m (ringBufferBase + 8 + i) c) ringBufferBase =
      read 4 m ringBufferBase := read_write_of_apart (by unfold Apart; omega)
  have htail : read 4 (write 1 m (ringBufferBase + 8 + i) c) (ringBufferBase + 4) =
      read 4 m (ringBufferBase + 4) := read_write_of_apart (by unfold Apart; omega)
  unfold ringView
  dsimp only
  rw [hhead, htail]
  congr 1
  funext j
  rw [write_one]
  by_cases hji : j = i
  · subst hji
    rw [if_pos hi, Function.update_self, Function.update_self]
  · rw [Function.update_of_ne hji, Function.update_of_ne (by omega)]

/-- A store of `ring_buffer_put` or `ring_buffer_get` stays in the ring buffer. -/
theorem ringAccess_agreeOn {B : Byte → Prop} {m m' : Memory} {pc : Pc} {x : Pc ⊕ Event Byte}
    (hpc : pc.Contained B) (h : ringAccess m pc = some (m', x)) {base size : ℕ}
    (hapart : Apart ringBufferBase 264 base size) : AgreeOn base size m' m := by
  cases pc with
  | idle => cases h
  | putData c nextHead i =>
    have hi : i.toNat < 256 := hpc.2.2
    obtain rfl := congrArg Prod.fst (Option.some.inj h)
    have hdata : Apart (ringBufferBase + 8) 256 base size := hapart.part (by decide)
    exact agreeOn_write (n := 1) (hdata.part (o := i.toNat) (by omega)) m c
  | putPublish c nextIndex =>
    obtain rfl := congrArg Prod.fst (Option.some.inj h)
    exact agreeOn_write (n := 4) (hapart.part (o := 0) (by decide)) m nextIndex
  | getPublish c nextIndex =>
    obtain rfl := congrArg Prod.fst (Option.some.inj h)
    exact agreeOn_write (n := 4) (hapart.part (o := 4) (by decide)) m nextIndex
  | _ =>
    obtain rfl := congrArg Prod.fst (Option.some.inj h)
    exact fun _ _ _ => rfl

/-- The access of a call whose indices are in range is its access to the buffer. -/
theorem access_ringView {T : Type*} [DecidableEq T] {B : Byte → Prop} (m : Memory) (pc : T → Pc)
    (log : List (T × Event Byte)) {t : T} (hpc : (pc t).Contained B) :
    RingState.access ⟨ringView.load m, pc, log⟩ t = (ringAccess m (pc t)).map fun x =>
      match x.2 with
      | .inl pc' => RingState.goto ⟨ringView.load m, pc, log⟩ t (ringView.load x.1) pc'
      | .inr e => RingState.ret ⟨ringView.load m, pc, log⟩ t (ringView.load x.1) e := by
  have htail : (ringView.load m).tail = read 4 m (ringBufferBase + 4) := rfl
  unfold RingState.access
  dsimp only
  cases hat : pc t with
  | idle | putHead | putIndex | getHead | getIndex | getReload => rfl
  | putTail c i | getTail i =>
    simp only [ringAccess, Option.map_some, htail]
    split <;> rfl
  | putData c nextHead i =>
    rw [hat] at hpc
    simp only [ringAccess, Option.map_some]
    rw [ringView_data m hpc.2.2]
  | putPublish c nextHead =>
    simp only [ringAccess, Option.map_some]
    rw [ringView_head]
  | getPublish c nextTail =>
    simp only [ringAccess, Option.map_some]
    rw [ringView_tail]
  | getData i =>
    rw [hat] at hpc
    have hdata : (ringView.load m).data i.toNat = m (ringBufferBase + 8 + i.toNat) := if_pos hpc
    dsimp only
    rw [hdata]
    rfl

/-! ## The cores on the shared memory -/

/-- The cores inside the mailbox operations, and the threads inside the calls on the ring buffer. -/
structure SharedState (T : Type*) extends
    Packed (Fin 4) (Fin 4) MailboxOp Local Outcome Memory where
  ringPc : T → Pc
  ringLog : List (T × Event Byte)

inductive SharedAct (T : Type*) where
  | mailbox (a : Act (Fin 4) MailboxOp)
  | ring (a : RingAct T)
  /-- Any other code of the program stores a byte. -/
  | other (addr : ℕ) (v : Byte)
  deriving DecidableEq

/-- The address is not in a mailbox, the ring buffer or the key. -/
def Outside (addr : ℕ) : Prop :=
  Apart addr 1 mailboxBase (4 * mailboxSize) ∧ Apart addr 1 ringBufferBase 264 ∧
    Apart addr 1 hmacKeyAddr 32

instance instDecidableOutside (addr : ℕ) : Decidable (Outside addr) :=
  inferInstanceAs (Decidable (Apart addr 1 mailboxBase (4 * mailboxSize) ∧
    Apart addr 1 ringBufferBase 264 ∧ Apart addr 1 hmacKeyAddr 32))

section Machine

variable {T : Type*} [DecidableEq T]

def SharedState.mailboxes (s : SharedState T) :
    State (Fin 4) (Fin 4) MailboxOp Local Mailbox Outcome :=
  ⟨fun c => (lockView c).load s.ram, s.monitor, fun c => (mailboxView c).load s.ram, s.phase, s.hist⟩

def SharedState.ring (s : SharedState T) : RingState T := ⟨ringView.load s.ram, s.ringPc, s.ringLog⟩

/-- The next access of thread `t` to the ring buffer. -/
def SharedState.ringAccess (s : SharedState T) (t : T) : Option (SharedState T) :=
  (Gateway.ringAccess s.ram (s.ringPc t)).map fun x =>
    match x.2 with
    | .inl pc => { s with ram := x.1, ringPc := Function.update s.ringPc t pc }
    | .inr e =>
      { s with
        ram := x.1
        ringPc := Function.update s.ringPc t .idle
        ringLog := s.ringLog ++ [(t, e)] }

/-- A step of the program; `hmac_tag_compute` finds the key in the memory. -/
def sharedStep (mpidr : Fin 4 → DWord) (s : SharedState T) : SharedAct T → Option (SharedState T)
  | .mailbox a =>
    ((mailboxLayout (keyView.load s.ram) mpidr).step s.toPacked a).map fun p =>
      { s with toPacked := p }
  | .ring (.put t c) =>
    if s.ringPc t = .idle then
      some { s with ringPc := Function.update s.ringPc t (.putHead c) }
    else none
  | .ring (.get t) =>
    if s.ringPc t = .idle then some { s with ringPc := Function.update s.ringPc t .getHead }
    else none
  | .ring (.access t) => s.ringAccess t
  | .other addr v => if Outside addr then some { s with ram := write 1 s.ram addr v } else none

/-- What an action is for the mailboxes or for the ring buffer. -/
def SharedAct.owner : SharedAct T → Option (Act (Fin 4) MailboxOp ⊕ RingAct T)
  | .mailbox a => some (.inl a)
  | .ring a => some (.inr a)
  | .other _ _ => none

end Machine

/-! ## The initialisation -/

/-- `mailbox_init`. -/
def mailboxInitAt (c : Fin 4) (m : Memory) : Memory :=
  let a := mailboxAddr c
  let m := write 4 m a (0 : Word)
  let m := write 4 m (a + 4) msgNone
  let m := write 4 m (a + 8) (0 : Word)
  let m := write 4 m (a + 12) (0xFF : Word)
  let m := write 4 m (a + 16) (0 : Word)
  write 4 m (a + 20) (0 : Word)

/-- The loop of `main` over the mailboxes. -/
def mailboxesInit (m : Memory) : Memory := (List.finRange 4).foldl (fun m c => mailboxInitAt c m) m

/-- What `main` does before it starts the secondary cores: `spinlock_init`, `ring_buffer_init`,
`hmac_key_init`, and `mailbox_init` for each core. -/
def sharedInit (key : Key) (m : Memory) : Memory :=
  let m := write 4 m sharedMemBase (0 : Word)
  let m := write 4 m ringBufferBase (0 : Word)
  let m := write 4 m (ringBufferBase + 4) (0 : Word)
  let m := hmacKeyInit key m
  mailboxesInit m

/-- The stores of `mailbox_init` stay in the mailbox. -/
theorem mailboxInitAt_agreeOn (c : Fin 4) (m : Memory) {base size : ℕ}
    (h : Apart (mailboxAddr c) mailboxSize base size) :
    AgreeOn base size (mailboxInitAt c m) m := by
  have hstore (o : ℕ) (v : Word) (m : Memory) (ho : o + 4 ≤ mailboxSize) :
      AgreeOn base size (write 4 m (mailboxAddr c + o) v) m :=
    agreeOn_write (n := 4) (h.part (o := o) ho) m v
  intro a hlo hhi
  unfold mailboxInitAt
  rw [hstore 20 _ _ (by decide) a hlo hhi, hstore 16 _ _ (by decide) a hlo hhi,
    hstore 12 _ _ (by decide) a hlo hhi, hstore 8 _ _ (by decide) a hlo hhi,
    hstore 4 _ _ (by decide) a hlo hhi]
  exact hstore 0 _ _ (by decide) a hlo hhi

theorem mailboxView_mailboxInitAt (c d : Fin 4) (m : Memory) :
    (mailboxView d).load (mailboxInitAt c m) =
      if d = c then mailboxInit ((mailboxView d).load m) else (mailboxView d).load m := by
  by_cases hdc : d = c
  · subst hdc
    rw [if_pos rfl]
    have hlock : mailboxFields (write 4 m (mailboxAddr d) (0 : Word)) (mailboxAddr d) =
        mailboxFields m (mailboxAddr d) := mailboxView_setWord d d 0 m
    show mailboxFields (mailboxInitAt d m) (mailboxAddr d) = mailboxInit (mailboxFields m _)
    unfold mailboxInitAt
    rw [mailboxFields_counter, mailboxFields_status, mailboxFields_senderId, mailboxFields_msgData,
      mailboxFields_msgType, hlock]
    rfl
  · rw [if_neg hdc]
    refine (mailboxView d).load_congr _ _ (mailboxInitAt_agreeOn c m ?_)
    have := mailboxAddr_apart (Ne.symm hdc)
    show Apart (mailboxAddr c) mailboxSize (mailboxAddr d + 4) 52
    unfold Apart mailboxSize at *
    omega

theorem lockView_mailboxInitAt (c d : Fin 4) (m : Memory) :
    (lockView d).load (mailboxInitAt c m) = if d = c then 0 else (lockView d).load m := by
  by_cases hdc : d = c
  · subst hdc
    rw [if_pos rfl]
    have hlock (o : ℕ) (v : Word) (m : Memory) (ho : 4 ≤ o) :
        read 4 (write 4 m (mailboxAddr d + o) v) (mailboxAddr d) = read 4 m (mailboxAddr d) :=
      read_write_of_apart (by unfold Apart; omega)
    show read 4 (mailboxInitAt d m) (mailboxAddr d) = 0
    unfold mailboxInitAt
    rw [hlock 20 _ _ (by decide), hlock 16 _ _ (by decide), hlock 12 _ _ (by decide),
      hlock 8 _ _ (by decide), hlock 4 _ _ (by decide)]
    exact read_write ..
  · rw [if_neg hdc]
    refine (lockView d).load_congr _ _ (mailboxInitAt_agreeOn c m ?_)
    have := mailboxAddr_apart (Ne.symm hdc)
    show Apart (mailboxAddr c) mailboxSize (mailboxAddr d) 4
    unfold Apart mailboxSize at *
    omega

theorem mailbox_apart_ring (c : Fin 4) : Apart (mailboxAddr c) mailboxSize ringBufferBase 264 := by
  unfold Apart mailboxAddr mailboxBase mailboxSize ringBufferBase
  omega

theorem mailbox_apart_key (c : Fin 4) : Apart (mailboxAddr c) mailboxSize hmacKeyAddr 32 := by
  unfold Apart mailboxAddr mailboxBase mailboxSize hmacKeyAddr
  omega

theorem ring_apart_key : Apart ringBufferBase 264 hmacKeyAddr 32 := by
  decide

theorem agreeOn_trans {base size : ℕ} {m₁ m₂ m₃ : Memory} (h : AgreeOn base size m₁ m₂)
    (h' : AgreeOn base size m₂ m₃) : AgreeOn base size m₁ m₃ :=
  fun a hlo hhi => (h a hlo hhi).trans (h' a hlo hhi)

/-- `hmac_key_init` stays in the 32 bytes of the key. -/
theorem hmacKeyInit_agreeOn (key : Key) (m : Memory) {base size : ℕ}
    (h : Apart hmacKeyAddr 32 base size) : AgreeOn base size (hmacKeyInit key m) m := by
  refine Loops.foldl_finRange_inv (I := fun _ m' => AgreeOn base size m' m) (fun i m' hm' => ?_)
    fun _ _ _ => rfl
  refine agreeOn_trans ?_ hm'
  rw [storeKeyByte, ← write_one]
  exact agreeOn_write (n := 1) (h.part (o := i.val) (by omega)) m' _

theorem mailboxesInit_agreeOn (m : Memory) {base size : ℕ}
    (h : ∀ c, Apart (mailboxAddr c) mailboxSize base size) :
    AgreeOn base size (mailboxesInit m) m :=
  Loops.foldl_finRange_inv (I := fun _ m' => AgreeOn base size m' m)
    (fun c m' hm' => agreeOn_trans (mailboxInitAt_agreeOn c m' (h c)) hm') fun _ _ _ => rfl

theorem views_mailboxesInit (m : Memory) (d : Fin 4) :
    (lockView d).load (mailboxesInit m) = 0 ∧
      (mailboxView d).load (mailboxesInit m) = mailboxInit ((mailboxView d).load m) := by
  have hloop : (d.val < 4 → (lockView d).load (mailboxesInit m) = 0) ∧
      (mailboxView d).load (mailboxesInit m) =
        if d.val < 4 then mailboxInit ((mailboxView d).load m) else (mailboxView d).load m := by
    refine Loops.foldl_finRange_inv (I := fun k m' => (d.val < k → (lockView d).load m' = 0) ∧
      (mailboxView d).load m' =
        if d.val < k then mailboxInit ((mailboxView d).load m) else (mailboxView d).load m)
      (fun c m' hm' => ?_) ⟨fun h => absurd h (Nat.not_lt_zero _), rfl⟩
    rw [lockView_mailboxInitAt, mailboxView_mailboxInitAt]
    by_cases hdc : d = c
    · subst hdc
      have hlt := hm'.2
      rw [if_neg (Nat.lt_irrefl _)] at hlt
      rw [if_pos rfl, if_pos rfl, if_pos (Nat.lt_succ_self _), hlt]
      exact ⟨fun _ => rfl, rfl⟩
    · have hne : d.val ≠ c.val := fun he => hdc (Fin.ext he)
      have hiff : d.val < c.val + 1 ↔ d.val < c.val := by omega
      rw [if_neg hdc, if_neg hdc, if_congr hiff rfl rfl]
      exact ⟨fun hlt => hm'.1 (hiff.1 hlt), hm'.2⟩
  rw [if_pos d.isLt] at hloop
  exact ⟨hloop.1 d.isLt, hloop.2⟩

theorem lockView_congr {c : Fin 4} {m m' : Memory} (h : AgreeOn (mailboxAddr c) mailboxSize m m') :
    (lockView c).load m = (lockView c).load m' := by
  refine (lockView c).load_congr _ _ fun a hlo hhi => h a hlo ?_
  have hhi : a < mailboxAddr c + 4 := hhi
  unfold mailboxSize
  omega

theorem mailboxView_congr {c : Fin 4} {m m' : Memory}
    (h : AgreeOn (mailboxAddr c) mailboxSize m m') :
    (mailboxView c).load m = (mailboxView c).load m' := by
  refine (mailboxView c).load_congr _ _ fun a hlo hhi => ?_
  have hlo : mailboxAddr c + 4 ≤ a := hlo
  have hhi : a < mailboxAddr c + 4 + 52 := hhi
  unfold mailboxSize at h
  exact h a (by omega) (by omega)

theorem apart_symm {a n b k : ℕ} (h : Apart a n b k) : Apart b k a n := Or.symm h

/-- From whatever the memory held, the objects are as the models of the mailboxes and of the ring
buffer take them to be. -/
theorem views_sharedInit (key : Key) (m : Memory) :
    (∀ c, (lockView c).load (sharedInit key m) = 0 ∧
      (mailboxView c).load (sharedInit key m) = mailboxInit ((mailboxView c).load m)) ∧
    ringView.load (sharedInit key m) = ringBufferInit (ringView.load m) ∧
    keyView.load (sharedInit key m) = key := by
  have hspin : Apart sharedMemBase 4 ringBufferBase 264 := by decide
  refine ⟨fun c => ?_, ?_, ?_⟩
  · have hbefore : AgreeOn (mailboxAddr c) mailboxSize (hmacKeyInit key (write 4
        (write 4 (write 4 m sharedMemBase (0 : Word)) ringBufferBase (0 : Word))
        (ringBufferBase + 4) (0 : Word))) m := by
      have hring := apart_symm (mailbox_apart_ring c)
      have hbase : Apart sharedMemBase 4 (mailboxAddr c) mailboxSize := by
        unfold Apart sharedMemBase mailboxAddr mailboxBase
        omega
      refine agreeOn_trans (hmacKeyInit_agreeOn key _ (apart_symm (mailbox_apart_key c))) ?_
      refine agreeOn_trans (agreeOn_write (n := 4) (hring.part (o := 4) (by decide)) _ _) ?_
      refine agreeOn_trans (agreeOn_write (n := 4) (hring.part (o := 0) (by decide)) _ _) ?_
      exact agreeOn_write (n := 4) hbase _ _
    obtain ⟨hlock, hbox⟩ := views_mailboxesInit (hmacKeyInit key (write 4
      (write 4 (write 4 m sharedMemBase (0 : Word)) ringBufferBase (0 : Word))
      (ringBufferBase + 4) (0 : Word))) c
    rw [mailboxView_congr hbefore] at hbox
    exact ⟨hlock, hbox⟩
  · unfold sharedInit
    rw [ringView.load_congr _ _ (mailboxesInit_agreeOn _ mailbox_apart_ring),
      ringView.load_congr _ _ (hmacKeyInit_agreeOn key _ (apart_symm ring_apart_key)),
      ringView_tail, ringView_head, ringView.load_write (n := 4) hspin]
    rfl
  · unfold sharedInit
    rw [keyView.load_congr _ _ (mailboxesInit_agreeOn _ mailbox_apart_key)]
    exact storedKey_hmacKeyInit key _

/-! ## Refinement -/

section Refinement

variable {T : Type*} [DecidableEq T] {mpidr : Fin 4 → DWord} {key : Key}

/-- After `main` has initialised the shared memory, with all cores outside the operations. -/
def sharedStart (key : Key) (m : Memory) : SharedState T where
  ram := sharedInit key m
  monitor _ := none
  phase _ := .idle
  hist := []
  ringPc _ := .idle
  ringLog := []

/-- The key is in place, and the calls on the ring buffer have their indices in range. -/
structure SharedInv (key : Key) (s : SharedState T) : Prop where
  key : keyView.load s.ram = key
  ring : Contained (fun _ => True) s.ring

omit [DecidableEq T] in
/-- What a step of the mailbox operations leaves alone. -/
theorem mailboxes_agreeOn {s : SharedState T} {p : Packed (Fin 4) (Fin 4) MailboxOp Local Outcome Memory}
    {a : Act (Fin 4) MailboxOp} (hs : (mailboxLayout key mpidr).step s.toPacked a = some p)
    {base size : ℕ} (h : ∀ c, Apart (mailboxAddr c) mailboxSize base size) :
    AgreeOn base size p.ram s.ram := by
  rcases Layout.ram_cases hs with hram | ⟨c, v, hram⟩ | ⟨op, l, hram⟩
  · rw [hram]
    exact fun _ _ _ => rfl
  · rw [hram]
    exact agreeOn_write (n := 4) ((h c).part (o := 0) (by decide)) _ v
  · rw [hram]
    exact mailboxStore_agreeOn op.dest l _ ((h op.dest).part (o := 4) (by decide))

/-- The systems of the mailboxes and of the ring buffer side by side. -/
abbrev separateStep (key : Key) (mpidr : Fin 4 → DWord) :=
  parStep (step (mailboxClient key mpidr)) (ringStep (T := T))

theorem sim_mailbox {s s' : SharedState T} {a : Act (Fin 4) MailboxOp} (hI : SharedInv key s)
    (hs : sharedStep mpidr s (.mailbox a) = some s') :
    SharedInv key s' ∧ separateStep key mpidr (s.mailboxes, s.ring) (some (.inl a)) =
      some (s'.mailboxes, s'.ring) := by
  obtain ⟨p, hp, rfl⟩ := Option.map_eq_some_iff.1 hs
  rw [hI.key] at hp
  have hring : ringView.load p.ram = ringView.load s.ram :=
    ringView.load_congr _ _ (mailboxes_agreeOn hp mailbox_apart_ring)
  have hkey : keyView.load p.ram = keyView.load s.ram :=
    keyView.load_congr _ _ (mailboxes_agreeOn hp mailbox_apart_key)
  have hsame : SharedState.ring { s with toPacked := p } = s.ring := by
    unfold SharedState.ring
    rw [hring]
  refine ⟨⟨hkey.trans hI.key, hsame ▸ hI.ring⟩, ?_⟩
  have hsim := Layout.sim hp
  show (step (mailboxClient key mpidr) s.mailboxes a).map _ = _
  rw [show step (mailboxClient key mpidr) s.mailboxes a = some _ from hsim, hsame]
  rfl

omit [DecidableEq T] in
theorem mailboxes_congr {s s' : SharedState T}
    (hram : ∀ c, AgreeOn (mailboxAddr c) mailboxSize s'.ram s.ram) (hmonitor : s'.monitor = s.monitor)
    (hphase : s'.phase = s.phase) (hhist : s'.hist = s.hist) : s'.mailboxes = s.mailboxes := by
  have hlock : (fun c => (lockView c).load s'.ram) = fun c => (lockView c).load s.ram :=
    funext fun c => lockView_congr (hram c)
  have hbox : (fun c => (mailboxView c).load s'.ram) = fun c => (mailboxView c).load s.ram :=
    funext fun c => mailboxView_congr (hram c)
  unfold SharedState.mailboxes
  rw [hlock, hbox, hmonitor, hphase, hhist]

theorem sim_ring {s s' : SharedState T} {a : RingAct T} (hI : SharedInv key s)
    (hs : sharedStep mpidr s (.ring a) = some s') :
    SharedInv key s' ∧ separateStep key mpidr (s.mailboxes, s.ring) (some (.inr a)) =
      some (s'.mailboxes, s'.ring) := by
  -- the calls on the ring buffer leave the mailboxes and the key alone
  have hstep : ringStep s.ring a = some s'.ring ∧ s'.mailboxes = s.mailboxes ∧
      keyView.load s'.ram = keyView.load s.ram := by
    cases a with
    | put t c =>
      have hs : (if s.ringPc t = .idle then
        some { s with ringPc := Function.update s.ringPc t (.putHead c) } else none) = some s' := hs
      split at hs
      · next hidle =>
        obtain rfl := Option.some.inj hs
        exact ⟨if_pos hidle, rfl, rfl⟩
      · cases hs
    | get t =>
      have hs : (if s.ringPc t = .idle then
        some { s with ringPc := Function.update s.ringPc t .getHead } else none) = some s' := hs
      split at hs
      · next hidle =>
        obtain rfl := Option.some.inj hs
        exact ⟨if_pos hidle, rfl, rfl⟩
      · cases hs
    | access t =>
      have hpc := hI.ring.calls t
      obtain ⟨⟨m', x⟩, hx, rfl⟩ := Option.map_eq_some_iff.1 hs
      refine ⟨?_, mailboxes_congr (fun c => ?_) ?_ ?_ ?_, ?_⟩
      · show RingState.access ⟨ringView.load s.ram, s.ringPc, s.ringLog⟩ t = _
        rw [access_ringView s.ram s.ringPc s.ringLog hpc, hx]
        cases x <;> rfl
      · have hagree := ringAccess_agreeOn hpc hx (apart_symm (mailbox_apart_ring c))
        cases x <;> exact hagree
      · cases x <;> rfl
      · cases x <;> rfl
      · cases x <;> rfl
      · have hagree := keyView.load_congr _ _ (ringAccess_agreeOn hpc hx ring_apart_key)
        cases x <;> exact hagree
  obtain ⟨hring, hboxes, hkey⟩ := hstep
  refine ⟨⟨hkey.trans hI.key, hI.ring.step (fun _ _ _ => trivial) hring⟩, ?_⟩
  show (ringStep s.ring a).map _ = _
  rw [hring, hboxes]
  rfl

/-- A store of other code changes none of the objects. -/
theorem sim_other {s s' : SharedState T} {addr : ℕ} {v : Byte} (hI : SharedInv key s)
    (hs : sharedStep mpidr s (.other addr v) = some s') :
    SharedInv key s' ∧ separateStep key mpidr (s.mailboxes, s.ring) none =
      some (s'.mailboxes, s'.ring) := by
  have hs : (if Outside addr then some { s with ram := write 1 s.ram addr v } else none) = some s' :=
    hs
  split at hs
  · next hout =>
    obtain ⟨hboxes, hring, hkey⟩ := hout
    obtain rfl := Option.some.inj hs
    have hbox (c : Fin 4) : Apart addr 1 (mailboxAddr c) mailboxSize := by
      unfold Apart mailboxAddr mailboxSize at *
      omega
    have hsame : SharedState.ring { s with ram := write 1 s.ram addr v } = s.ring := by
      unfold SharedState.ring
      rw [ringView.load_write (n := 1) hring]
    refine ⟨⟨(keyView.load_write (n := 1) hkey _ _).trans hI.key, hsame ▸ hI.ring⟩, ?_⟩
    have hboxes : SharedState.mailboxes { s with ram := write 1 s.ram addr v } = s.mailboxes :=
      mailboxes_congr (fun c => agreeOn_write (n := 1) (hbox c) _ _) rfl rfl rfl
    rw [hsame, hboxes]
    rfl
  · cases hs

omit [DecidableEq T] in
theorem sharedInv_start (key : Key) (m : Memory) : SharedInv key (sharedStart (T := T) key m) where
  key := (views_sharedInit key m).2.2
  ring := by
    show Contained _ (⟨ringView.load (sharedInit key m), _, _⟩ : RingState T)
    rw [(views_sharedInit key m).2.1]
    exact contained_start fun _ _ => trivial

omit [DecidableEq T] in
theorem mailboxes_sharedStart (key : Key) (m : Memory) :
    (sharedStart (T := T) key m).mailboxes = init fun c => mailboxInit ((mailboxView c).load m) := by
  obtain ⟨hviews, -, -⟩ := views_sharedInit key m
  unfold SharedState.mailboxes init
  rw [show (fun c => (lockView c).load (sharedStart (T := T) key m).ram) = fun _ => 0 from
      funext fun c => (hviews c).1,
    show (fun c => (mailboxView c).load (sharedStart (T := T) key m).ram) =
      fun c => mailboxInit ((mailboxView c).load m) from funext fun c => (hviews c).2]
  rfl

omit [DecidableEq T] in
theorem ring_sharedStart (key : Key) (m : Memory) :
    (sharedStart (T := T) key m).ring = ringStart (ringView.load m) := by
  unfold SharedState.ring ringStart
  rw [← (views_sharedInit key m).2.1]
  rfl

/-- The actions of the mailbox operations, and those of the calls on the ring buffer. -/
def mailboxActs (acts : List (SharedAct T)) : List (Act (Fin 4) MailboxOp) :=
  lefts (acts.map SharedAct.owner)

def ringActs (acts : List (SharedAct T)) : List (RingAct T) := rights (acts.map SharedAct.owner)

/-- **The shared memory.** In every run of the cores on one memory that `main` has initialised, the
mailboxes and the ring buffer are as if each were alone in memories of its own, and the key does not
change. -/
theorem shared_memory_refines (key : Key) (mpidr : Fin 4 → DWord) (m : Memory)
    (acts : List (SharedAct T)) (s : SharedState T)
    (h : exec (sharedStep mpidr) (sharedStart key m) acts = some s) :
    exec (step (mailboxClient key mpidr)) (init fun c => mailboxInit ((mailboxView c).load m))
      (mailboxActs acts) = some s.mailboxes ∧
    exec ringStep (ringStart (ringView.load m)) (ringActs acts) = some s.ring ∧
    keyView.load s.ram = key := by
  have hsim : Lockstep (sharedStep mpidr) (separateStep key mpidr) (SharedInv key)
      (fun s : SharedState T => (s.mailboxes, s.ring)) fun _ a => a.owner := by
    refine ⟨fun s a s' hI hs => ?_, fun s a s' hI hs => ?_⟩
    · cases a with
      | mailbox a => exact (sim_mailbox hI hs).1
      | ring a => exact (sim_ring hI hs).1
      | other addr v => exact (sim_other hI hs).1
    · cases a with
      | mailbox a => exact (sim_mailbox hI hs).2
      | ring a => exact (sim_ring hI hs).2
      | other addr v => exact (sim_other hI hs).2
  obtain ⟨hI, hrun⟩ := hsim.exec (sharedInv_start key m) h
  rw [labels_eq_map SharedAct.owner h, exec_par_iff, mailboxes_sharedStart, ring_sharedStart] at hrun
  exact ⟨hrun.1, hrun.2, hI.key⟩

/-- Core 0 clears mailbox 3 while a thread puts a byte, access by access in turn. Then the console
lock is taken. -/
def mixedAccesses : List (SharedAct (Fin 2)) :=
  [.mailbox (.call 0 ⟨3, .clear⟩), .ring (.put 1 0x41)] ++
    (List.replicate 5 [.mailbox (.step 0 true), .ring (.access 1)]).flatten ++
      [.other sharedMemBase 1]

theorem shared_memory_refines_mixedAccesses : ∃ s : SharedState (Fin 2),
    exec (step (mailboxClient secretKey fun c : Fin 4 => BitVec.ofNat 64 c))
      (init fun c => mailboxInit ((mailboxView c).load fun _ => 0xAA)) (mailboxActs mixedAccesses) =
        some s.mailboxes ∧
    exec ringStep (ringStart (ringView.load fun _ => 0xAA)) (ringActs mixedAccesses) =
      some s.ring ∧
    keyView.load s.ram = secretKey ∧ s.hist = [(0, ⟨3, .clear⟩, ⟨0, none⟩)] ∧
      s.ringLog = [(1, .put 0x41)] := by
  have hrun : (exec (sharedStep fun c => BitVec.ofNat 64 c)
      (sharedStart secretKey fun _ => 0xAA) mixedAccesses).map (fun s => (s.hist, s.ringLog)) =
        some ([(0, ⟨3, .clear⟩, ⟨0, none⟩)], [(1, .put 0x41)]) := by decide +kernel
  obtain ⟨s, hs, hlogs⟩ := Option.map_eq_some_iff.1 hrun
  obtain ⟨hhist, hlog⟩ := Prod.mk.inj hlogs
  obtain ⟨hmailboxes, hring, hkey⟩ :=
    shared_memory_refines secretKey (fun c => BitVec.ofNat 64 c) (fun _ => 0xAA) mixedAccesses s hs
  exact ⟨s, hmailboxes, hring, hkey, hhist, hlog⟩

end Refinement

end Gateway
