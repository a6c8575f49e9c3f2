import Gateway.Basic
import Gateway.Lib.ByteMemory

/-!
# Task control blocks

The types and constants of `scheduler.h` and `dispatcher.h` that the scheduler uses, and the stack
frame that `sched_add_task` builds for a new task.

`tcb_t` is laid out as C does for AArch64: `sp` at 0, `id` at 8, `stack` at 10, `state` at 2060,
`wake_tick` at 2064, `entry` at 2072, `name` at 2080. Pointers are addresses.
-/

namespace Gateway

open ByteMemory

/-- `MAX_TASKS`. -/
def maxTasks : ℕ := 8

/-- `TASK_STACK_SIZE`. -/
def taskStackSize : ℕ := 2048

/-- `task_state_t`. -/
inductive TaskState where
  | ready
  | running
  | sleeping
  | dead
  deriving DecidableEq

/-- `tcb_t`. -/
structure Tcb where
  sp : DWord
  id : BitVec 16
  stack : Memory
  state : TaskState
  wakeTick : DWord
  entry : DWord
  name : DWord

/-- `jobContext_t`, without the `core_id`, which the scheduler does not read. -/
structure JobContext where
  id : BitVec 16
  taskName : DWord
  entry : DWord
  deriving DecidableEq

/-- `sizeof(tcb_t)`. -/
def tcbSize : ℕ := 2088

/-- `offsetof(tcb_t, stack)`. -/
def stackOffset : ℕ := 10

/-- The bytes of the saved frame: the pairs x19 to x30. -/
def frameSize : ℕ := 96

/-- `&task_pool[core][i]`, with the pool at `base`. The pool is one array of `CORE_COUNT` rows, so
the index runs on into the next row. -/
def slot (core : Fin 4) (i : ℕ) : ℕ := core * maxTasks + i

def tcbAddr (base n : ℕ) : ℕ := base + tcbSize * n

/-- The initial frame at `stackTop`: twelve words of zeros, of which the second, x30, is then set to
the entry point. -/
def buildFrame (m : Memory) (stackTop : ℕ) (entry : DWord) : Memory :=
  let zeroed := (List.range 12).foldl (fun m i => write 8 m (stackTop + 8 * i) 0) m
  write 8 zeroed (stackTop + 8 * 1) entry

/-- `(cur + i) % count` on `uint32_t`. -/
def candidate (count cur i : ℕ) : ℕ := (cur + i) % 2 ^ 32 % count

theorem candidate_eq {count cur i : ℕ} (h : cur + i < 2 ^ 32) :
    candidate count cur i = (cur + i) % count := by
  rw [candidate, Nat.mod_eq_of_lt h]

end Gateway
