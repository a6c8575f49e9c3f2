import Gateway.RingBuffer.Linearization

/-!
# Whole calls on the ring buffer

`ring_buffer_put` and `ring_buffer_get` as functions, for a user that nothing disturbs, with what
they do to the queue. A thread that makes the accesses of a call one after the other does what the
function says (`exec_put`, `exec_get`).
-/

namespace Gateway

open Runs CyclicQueue

/-- `ring_buffer_put`: the buffer afterwards and the result. -/
def ringBufferPut (rb : RingBuffer) (c : Byte) : RingBuffer × ℤ :=
  if nextIndex rb.head = rb.tail then (rb, -1)
  else ((rb.store c).push, 0)

/-- `ring_buffer_get`: the buffer afterwards, and the byte that is stored if the result is 0; `none`
is the result -1. -/
def ringBufferGet (rb : RingBuffer) : RingBuffer × Option Byte :=
  if rb.head = rb.tail then (rb, none)
  else (rb.pop, some (rb.data rb.tail.toNat))

section Queue

variable {rb : RingBuffer}

theorem RingBuffer.InRange.put (h : rb.InRange) (c : Byte) : (ringBufferPut rb c).1.InRange := by
  unfold ringBufferPut
  split
  · exact h
  · exact ⟨nextIndex_lt rb.head, h.tail⟩

theorem RingBuffer.InRange.get (h : rb.InRange) : (ringBufferGet rb).1.InRange := by
  unfold ringBufferGet
  split
  · exact h
  · exact ⟨h.head, nextIndex_lt rb.tail⟩

/-- A put into a buffer that is not full appends the byte. -/
theorem ringBufferPut_of_lt (h : rb.InRange) (c : Byte) (hlt : rb.queue.length < 255) :
    (ringBufferPut rb c).2 = 0 ∧ (ringBufferPut rb c).1.queue = rb.queue ++ [c] := by
  have hroom : nextIndex rb.head ≠ rb.tail := fun heq => by
    have := (RingBuffer.length_queue_full h).2 heq
    omega
  have hstored : (rb.store c).InRange := ⟨h.head, h.tail⟩
  unfold ringBufferPut
  rw [if_neg hroom]
  refine ⟨rfl, ?_⟩
  show (rb.store c).push.queue = _
  rw [RingBuffer.queue_push hstored hroom, RingBuffer.queue_store h]
  exact congrArg (rb.queue ++ [·]) (Function.update_self ..)

/-- A get takes the oldest byte, if there is one. -/
theorem ringBufferGet_queue (h : rb.InRange) :
    rb.queue = (ringBufferGet rb).2.toList ++ (ringBufferGet rb).1.queue := by
  unfold ringBufferGet
  split
  · rfl
  · next hne => exact RingBuffer.queue_pop h hne

theorem ringBufferGet_eq_none (h : rb.InRange) : (ringBufferGet rb).2 = none ↔ rb.queue = [] := by
  rw [RingBuffer.queue_eq_nil h]
  unfold ringBufferGet
  split <;> simp [*]

end Queue

/-! ## The accesses of a call -/

section Accesses

variable {T : Type*} [DecidableEq T] {s : RingState T} {t : T}

theorem ret_goto (rb rb' : RingBuffer) (pc : Pc) (e : Event Byte) :
    (s.goto t rb pc).ret t rb' e = s.ret t rb' e := by
  unfold RingState.ret RingState.goto
  simp

theorem goto_goto (rb rb' : RingBuffer) (pc pc' : Pc) :
    (s.goto t rb pc).goto t rb' pc' = s.goto t rb' pc' := by
  unfold RingState.goto
  simp

/-- The accesses of an undisturbed put. -/
theorem exec_put (h : s.pc t = .idle) (c : Byte) :
    ∃ k, exec ringStep s (.put t c :: List.replicate k (.access t)) =
      some (s.ret t (ringBufferPut s.rb c).1
        (if (ringBufferPut s.rb c).2 = 0 then .put c else .full c)) := by
  unfold ringBufferPut
  by_cases hfull : nextIndex s.rb.head = s.rb.tail
  · refine ⟨2, ?_⟩
    simp [ringStep, h, RingState.access, List.replicate, goto_goto, ret_goto, hfull]
  · refine ⟨5, ?_⟩
    simp [ringStep, h, RingState.access, List.replicate, goto_goto, ret_goto, hfull,
      RingBuffer.store, RingBuffer.push]

/-- The accesses of an undisturbed get. -/
theorem exec_get (h : s.pc t = .idle) :
    ∃ k, exec ringStep s (.get t :: List.replicate k (.access t)) =
      some (s.ret t (ringBufferGet s.rb).1
        ((ringBufferGet s.rb).2.elim .empty .get)) := by
  unfold ringBufferGet
  by_cases hempty : s.rb.head = s.rb.tail
  · refine ⟨2, ?_⟩
    simp [ringStep, h, RingState.access, List.replicate, goto_goto, ret_goto, hempty]
  · refine ⟨6, ?_⟩
    simp [ringStep, h, RingState.access, List.replicate, goto_goto, ret_goto, hempty,
      RingBuffer.pop]

end Accesses

end Gateway
