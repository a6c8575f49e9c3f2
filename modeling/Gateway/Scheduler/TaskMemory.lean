import Gateway.Lib.RoundRobin
import Gateway.Scheduler.ContextSwitch

/-!
# The scheduler of one core, in memory

The functions of `scheduler.c` on the bytes of `task_pool` and on the registers of the core, with
`sched_context_switch` run instruction by instruction. Between two calls of the scheduler the running
task may leave any registers and any memory behind. `Machine.log` records every execution of
`sched_context_switch`, with the state in which it was called and the state in which it returned.
-/

namespace Gateway

open ByteMemory AArch64

/-- Where the linker puts the scheduler's arrays. -/
structure Layout where
  /-- `task_pool`. -/
  pool : ℕ
  /-- `boot_temp`. -/
  bootTemp : ℕ
  pool_fits : pool + coreCount * maxTasks * tcbSize < 2 ^ 64
  bootTemp_fits : bootTemp + coreCount * tcbSize < 2 ^ 64
  apart : Apart bootTemp (coreCount * tcbSize) pool (coreCount * maxTasks * tcbSize)

/-- `&task_pool[core][i]`. -/
def Layout.tcb (L : Layout) (core : Fin 4) (i : ℕ) : ℕ := tcbAddr L.pool (slot core i)

/-- `&boot_temp[core]`. -/
def Layout.bootTcb (L : Layout) (core : Fin 4) : ℕ := L.bootTemp + tcbSize * core

/-- The value of `task_state_t` in memory. -/
def TaskState.code : TaskState → Word
  | .ready => 0
  | .running => 1
  | .sleeping => 2
  | .dead => 3

/-! ## The fields of a TCB at the address `t` -/

def stateOffset : ℕ := 2060

def wakeTickOffset : ℕ := 2064

def setId (m : Memory) (t : ℕ) (id : BitVec 16) : Memory := write 2 m (t + 8) id

def setState (m : Memory) (t : ℕ) (s : TaskState) : Memory := write 4 m (t + stateOffset) s.code

def setWakeTick (m : Memory) (t : ℕ) (tick : DWord) : Memory := write 8 m (t + wakeTickOffset) tick

def setEntry (m : Memory) (t : ℕ) (entry : DWord) : Memory := write 8 m (t + 2072) entry

def setName (m : Memory) (t : ℕ) (name : DWord) : Memory := write 8 m (t + 2080) name

def hasState (m : Memory) (t : ℕ) (s : TaskState) : Bool := read 4 m (t + stateOffset) = s.code

/-- The saved stack pointer. -/
def savedSp (m : Memory) (t : ℕ) : ℕ := (read 8 m t).toNat

/-- The end of the stack, where it starts to grow. -/
def stackTop (t : ℕ) : ℕ := t + stackOffset + taskStackSize

/-! ## The functions -/

/-- The core's entries of `task_count`, `current_task` and `tick_count`. -/
structure SchedVars where
  taskCount : ℕ
  currentTask : ℕ
  tickCount : DWord

/-- An execution of `sched_context_switch`. -/
structure Dispatch where
  /-- The task that called it; `none` is `sched_run`. -/
  old : Option ℕ
  /-- The task that it switched to. -/
  new : ℕ
  call : Cpu
  ret : Cpu

structure Machine where
  cpu : Cpu
  vars : SchedVars
  log : List Dispatch

def Machine.setMem (m : Machine) (mem : Memory) : Machine := { m with cpu := { m.cpu with mem } }

variable (L : Layout) (core : Fin 4)

/-- `sched_add_task`. -/
def schedAddTask (m : Machine) (job : JobContext) : Machine :=
  let t := L.tcb core m.vars.taskCount
  let mem := setId m.cpu.mem t job.id
  let mem := setEntry mem t job.entry
  let mem := setName mem t job.taskName
  let mem := setState mem t .ready
  let mem := setWakeTick mem t 0
  let mem := buildFrame mem (stackTop t - frameSize) job.entry
  let mem := write 8 mem t (BitVec.ofNat 64 (stackTop t - frameSize))
  { m.setMem mem with
    vars := { m.vars with taskCount := (m.vars.taskCount + 1) % 2 ^ 32 } }

/-- Round `i` of the loop of `sched_tick`. -/
def tickRound (tick : DWord) (mem : Memory) (i : ℕ) : Memory :=
  let t := L.tcb core i
  if hasState mem t .sleeping ∧ read 8 mem (t + wakeTickOffset) ≤ tick then setState mem t .ready
  else mem

/-- `sched_tick`. -/
def schedTick (m : Machine) : Machine :=
  let tick := m.vars.tickCount + 1
  let mem := (List.range m.vars.taskCount).foldl (tickRound L core tick) m.cpu.mem
  { m.setMem mem with vars := { m.vars with tickCount := tick } }

/-- The loop of `pick_next` from round `i` on, with `k` rounds to go. -/
def pickLoop (ready : ℕ → Bool) (count cur : ℕ) : ℕ → ℕ → ℕ
  | 0, _ => cur
  | k + 1, i =>
    if ready (candidate count cur i) then candidate count cur i
    else pickLoop ready count cur k (i + 1)

/-- `pick_next` is the scan of the round robin. -/
theorem pickLoop_eq {ready : ℕ → Bool} {count cur k i : ℕ} (h : cur + i + k ≤ 2 ^ 32) :
    pickLoop ready count cur k i = RoundRobin.scan ready count cur k i := by
  induction k generalizing i with
  | zero => rfl
  | succ k ih =>
    unfold pickLoop RoundRobin.scan
    rw [candidate_eq (by omega), ih (by omega)]

/-- `pick_next`. -/
def pickNext (mem : Memory) (v : SchedVars) : ℕ :=
  pickLoop (fun i => hasState mem (L.tcb core i) .ready) v.taskCount v.currentTask v.taskCount 1

/-- The call `sched_context_switch(oldTcb, &task_pool[core][new])`. -/
def switchTo (m : Machine) (old : Option ℕ) (oldTcb new : ℕ) : Machine :=
  let x := Function.update m.cpu.x 0 (BitVec.ofNat 64 oldTcb)
  let x := Function.update x 1 (BitVec.ofNat 64 (L.tcb core new))
  let call := { m.cpu with x }
  let ret := run schedContextSwitch call
  { m with cpu := ret, log := m.log ++ [⟨old, new, call, ret⟩] }

/-- `task_yield`. -/
def taskYield (m : Machine) : Machine :=
  let old := m.vars.currentTask
  let new := pickNext L core m.cpu.mem m.vars
  if old = new then m
  else
    let mem := setState m.cpu.mem (L.tcb core old) .ready
    let mem := setState mem (L.tcb core new) .running
    let m := { m.setMem mem with vars := { m.vars with currentTask := new } }
    switchTo L core m (some old) (L.tcb core old) new

/-- `task_sleep_ms`. -/
def taskSleepMs (m : Machine) (ms : Word) : Machine :=
  let t := L.tcb core m.vars.currentTask
  let mem := setState m.cpu.mem t .sleeping
  let mem := setWakeTick mem t (m.vars.tickCount + ms.setWidth 64)
  taskYield L core (m.setMem mem)

/-- `sched_run`, up to the first task; `none` if there is no task to run. -/
def schedRun (m : Machine) : Option Machine :=
  if m.vars.taskCount = 0 then none
  else
    let m := { m with vars := { m.vars with currentTask := 0 } }
    let m := m.setMem (setState m.cpu.mem (L.tcb core 0) .running)
    some (switchTo L core m none (L.bootTcb core) 0)

inductive TaskAct where
  /-- The running task executes, and leaves these registers, this memory and these values of the
  scheduler's variables behind. -/
  | execute (cpu : Cpu) (vars : SchedVars)
  | yield
  | sleepMs (ms : Word)
  /-- An interrupt calls `sched_tick`. -/
  | tick

/-- One step of the core once the first task runs. -/
def taskStep (m : Machine) : TaskAct → Option Machine
  | .execute cpu vars => some { m with cpu, vars }
  | .yield => some (taskYield L core m)
  | .sleepMs ms => some (taskSleepMs L core m ms)
  | .tick => some (schedTick L core m)

/-- The core when `sched_run` is called: `boot` has registered the jobs in this order. -/
def registered (boot : Cpu) (tick : DWord) (jobs : List JobContext) : Machine :=
  jobs.foldl (schedAddTask L core) ⟨boot, ⟨0, 0, tick⟩, []⟩

end Gateway
