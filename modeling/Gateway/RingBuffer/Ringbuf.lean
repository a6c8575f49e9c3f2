import Gateway.Basic
import Gateway.Lib.CyclicQueue

/-!
# The ring buffer

`include/ringbuffer/ringbuf.c`, one memory access a step. Any number of threads call
`ring_buffer_put` and `ring_buffer_get` on one buffer; a thread between calls is `idle`, and a
`Pc` holds what its call has read so far. A completed call is appended to the log in the step of
its last access.
-/

namespace Gateway

open CyclicQueue (Event)

/-- `RING_BUFFER_SIZE`. -/
def ringBufferSize : ℕ := 256

/-- `ring_buffer_t`. The index into `data` is not checked. -/
structure RingBuffer where
  head : Word
  tail : Word
  data : ℕ → Byte

/-- `(i + 1) & (RING_BUFFER_SIZE - 1)`. -/
def nextIndex (i : Word) : Word := (i + 1) &&& (BitVec.ofNat 32 ringBufferSize - 1)

/-- `ring_buffer_init`. -/
def ringBufferInit (rb : RingBuffer) : RingBuffer := { rb with head := 0, tail := 0 }

/-- The bytes in the buffer, oldest first. -/
def RingBuffer.queue (rb : RingBuffer) : List Byte :=
  CyclicQueue.queue ringBufferSize rb.data rb.head.toNat rb.tail.toNat

/-- Where a thread is, named by the access it makes next. -/
inductive Pc where
  | idle
  /-- `ring_buffer_put(c)`: load `head` for `next_head`. -/
  | putHead (c : Byte)
  /-- Load `tail` for the comparison. -/
  | putTail (c : Byte) (nextHead : Word)
  /-- Load `head` for the index. -/
  | putIndex (c : Byte) (nextHead : Word)
  /-- Store `data[i]`. -/
  | putData (c : Byte) (nextHead i : Word)
  /-- Store `head`. -/
  | putPublish (c : Byte) (nextHead : Word)
  /-- `ring_buffer_get`: load `head` for the comparison. -/
  | getHead
  /-- Load `tail` for the comparison. -/
  | getTail (h : Word)
  /-- Load `tail` for the index. -/
  | getIndex
  /-- Load `data[i]`. -/
  | getData (i : Word)
  /-- Load `tail` for the increment. -/
  | getReload (c : Byte)
  /-- Store `tail`. -/
  | getPublish (c : Byte) (nextTail : Word)
  deriving DecidableEq

/-- The thread has read `head` in a `ring_buffer_put` that has not returned. -/
def Pc.inPut : Pc → Bool
  | .putTail .. | .putIndex .. | .putData .. | .putPublish .. => true
  | _ => false

/-- The thread has read `head` in a `ring_buffer_get` that has not returned. -/
def Pc.inGet : Pc → Bool
  | .getTail _ | .getIndex | .getData _ | .getReload _ | .getPublish .. => true
  | _ => false

/-- The buffer, its threads, and the completed calls: `put` and `get` returned 0, `full` is a
`ring_buffer_put` and `empty` a `ring_buffer_get` that returned -1. -/
structure RingState (T : Type*) where
  rb : RingBuffer
  pc : T → Pc
  log : List (T × Event Byte)

inductive RingAct (T : Type*) where
  /-- Thread `t` calls `ring_buffer_put`. -/
  | put (t : T) (c : Byte)
  /-- Thread `t` calls `ring_buffer_get`. -/
  | get (t : T)
  /-- Thread `t` makes the next access of its call. -/
  | access (t : T)
  deriving DecidableEq

section

variable {T : Type*} [DecidableEq T]

/-- After `ring_buffer_init`, with no call under way. -/
def ringStart (rb₀ : RingBuffer) : RingState T := ⟨ringBufferInit rb₀, fun _ => .idle, []⟩

/-- Thread `t` continues at `pc`; its access has left `rb`. -/
def RingState.goto (s : RingState T) (t : T) (rb : RingBuffer) (pc : Pc) : RingState T :=
  { s with rb, pc := Function.update s.pc t pc }

/-- The call of thread `t` returns; its last access has left `rb`. -/
def RingState.ret (s : RingState T) (t : T) (rb : RingBuffer) (e : Event Byte) : RingState T :=
  { s.goto t rb .idle with log := s.log ++ [(t, e)] }

/-- The next access of thread `t`. -/
def RingState.access (s : RingState T) (t : T) : Option (RingState T) :=
  let rb := s.rb
  match s.pc t with
  | .idle => none
  | .putHead c => some (s.goto t rb (.putTail c (nextIndex rb.head)))
  | .putTail c nextHead =>
    some (if nextHead = rb.tail then s.ret t rb (.full c) else s.goto t rb (.putIndex c nextHead))
  | .putIndex c nextHead => some (s.goto t rb (.putData c nextHead rb.head))
  | .putData c nextHead i =>
    some (s.goto t { rb with data := Function.update rb.data i.toNat c } (.putPublish c nextHead))
  | .putPublish c nextHead => some (s.ret t { rb with head := nextHead } (.put c))
  | .getHead => some (s.goto t rb (.getTail rb.head))
  | .getTail h => some (if h = rb.tail then s.ret t rb .empty else s.goto t rb .getIndex)
  | .getIndex => some (s.goto t rb (.getData rb.tail))
  | .getData i => some (s.goto t rb (.getReload (rb.data i.toNat)))
  | .getReload c => some (s.goto t rb (.getPublish c (nextIndex rb.tail)))
  | .getPublish c nextTail => some (s.ret t { rb with tail := nextTail } (.get c))

def ringStep (s : RingState T) : RingAct T → Option (RingState T)
  | .put t c => if s.pc t = .idle then some (s.goto t s.rb (.putHead c)) else none
  | .get t => if s.pc t = .idle then some (s.goto t s.rb .getHead) else none
  | .access t => s.access t

/-- The bytes for which `ring_buffer_put` returned 0, in order. -/
def RingState.accepted (s : RingState T) : List Byte := CyclicQueue.puts (CyclicQueue.events s.log)

/-- The bytes that a `ring_buffer_get` that returned 0 has stored, in order. -/
def RingState.returned (s : RingState T) : List Byte := CyclicQueue.gets (CyclicQueue.events s.log)

section

variable (s : RingState T) (t u : T) (rb : RingBuffer) (pc : Pc) (e : Event Byte)

@[simp] theorem goto_rb : (s.goto t rb pc).rb = rb := rfl

@[simp] theorem goto_log : (s.goto t rb pc).log = s.log := rfl

@[simp] theorem goto_pc_self : (s.goto t rb pc).pc t = pc := Function.update_self ..

@[simp] theorem ret_rb : (s.ret t rb e).rb = rb := rfl

@[simp] theorem ret_log : (s.ret t rb e).log = s.log ++ [(t, e)] := rfl

@[simp] theorem ret_pc_self : (s.ret t rb e).pc t = .idle := Function.update_self ..

variable {t u}

theorem goto_pc_of_ne (h : u ≠ t) : (s.goto t rb pc).pc u = s.pc u := Function.update_of_ne h ..

theorem ret_pc_of_ne (h : u ≠ t) : (s.ret t rb e).pc u = s.pc u := Function.update_of_ne h ..

end

/-! ## What an access does -/

/-- The thread is inside a `ring_buffer_put`. -/
def Pc.isPut : Pc → Bool
  | .putHead _ => true
  | pc => pc.inPut

/-- The thread is inside a `ring_buffer_get`. -/
def Pc.isGet : Pc → Bool
  | .getHead => true
  | pc => pc.inGet

/-- The results that a call can return from `pc`. -/
def Pc.MayReturn (rb : RingBuffer) (pc : Pc) : Event Byte → Prop
  | .put c => ∃ nextHead, pc = .putPublish c nextHead
  | .full c => pc = .putTail c rb.tail
  | .get c => ∃ nextTail, pc = .getPublish c nextTail
  | .empty => pc = .getTail rb.tail

/-- An access goes on with the call or ends it. Only gets change `tail`. -/
theorem access_cases {s s' : RingState T} {t : T} (h : s.access t = some s') :
    (∃ rb pc, s' = s.goto t rb pc ∧ rb.tail = s.rb.tail ∧ pc.isPut = (s.pc t).isPut ∧
      pc.isGet = (s.pc t).isGet) ∨
    (∃ rb e, s' = s.ret t rb e ∧ (rb.tail = s.rb.tail ∨ (s.pc t).isGet = true) ∧
      (s.pc t).MayReturn s.rb e) := by
  unfold RingState.access at h
  dsimp only at h
  cases hpc : s.pc t with
  | idle => rw [hpc] at h; cases h
  | putTail c nextHead | getTail nextHead =>
    rw [hpc] at h
    obtain rfl := Option.some.inj h
    by_cases he : nextHead = s.rb.tail
    · exact Or.inr ⟨_, _, if_pos he, Or.inl rfl, by rw [he]; rfl⟩
    · exact Or.inl ⟨_, _, if_neg he, rfl, rfl, rfl⟩
  | putPublish c nextHead =>
    rw [hpc] at h
    exact Or.inr ⟨_, _, (Option.some.inj h).symm, Or.inl rfl, nextHead, rfl⟩
  | getPublish c nextTail =>
    rw [hpc] at h
    exact Or.inr ⟨_, _, (Option.some.inj h).symm, Or.inr rfl, nextTail, rfl⟩
  | _ =>
    rw [hpc] at h
    exact Or.inl ⟨_, _, (Option.some.inj h).symm, rfl, rfl, rfl⟩

/-! ## Indices -/

/-- An index below the size wraps to the next cell. -/
theorem nextIndex_toNat (i : Word) :
    (nextIndex i).toNat = CyclicQueue.next ringBufferSize i.toNat := by
  have hmask : (BitVec.ofNat 32 ringBufferSize - 1).toNat = 2 ^ 8 - 1 := rfl
  unfold nextIndex CyclicQueue.next
  rw [BitVec.toNat_and, hmask, Nat.and_two_pow_sub_one_eq_mod, BitVec.toNat_add]
  show (i.toNat + 1) % 2 ^ 32 % 2 ^ 8 = (i.toNat + 1) % 256
  omega

theorem nextIndex_lt (i : Word) : (nextIndex i).toNat < ringBufferSize := by
  rw [nextIndex_toNat]
  exact Nat.mod_lt _ (by decide)

end

end Gateway
