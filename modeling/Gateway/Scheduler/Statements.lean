import Gateway.Lib.Exec
import Gateway.Lib.RoundRobin
import Gateway.Scheduler.Tcb

/-!
# The scheduler, statement by statement

The four cores run the functions of `scheduler.c` over one `task_pool`; a step is one statement of
one core. A core that is outside the scheduler makes a call, and `sched_tick` may interrupt it before
any statement: the handler then runs to its end before the interrupted code goes on. A call is made
together with its first store.

`sched_context_switch` is one step here: it leaves the saved `sp` and the pushed frame, whatever
they are, in the TCB of the task that gives up the core. A task that is switched to goes on outside
the scheduler, at its entry point or behind its own call. The console output is left out.
-/

namespace Gateway

open Runs ByteMemory

inductive SchedCall where
  | addTask (job : JobContext)
  | run
  | yield
  | sleepMs (ms : Word)
  deriving DecidableEq

/-- The statement a core executes next. -/
inductive SchedPc where
  /-- In a task, or in `main` before `sched_run`. -/
  | outside
  /-- In a `wfe` loop of `sched_run`. -/
  | wfe
  /-- `sched_add_task` at its `k`-th statement about the TCB. -/
  | add (job : JobContext) (idx k : ℕ)
  /-- `pick_next` before round `i` of its loop. -/
  | pick (old count cur i : ℕ)
  | oldReady (old new : ℕ)
  | newRunning (old new : ℕ)
  | setCurrent (old new : ℕ)
  | switch (old new : ℕ)
  | sleepWake (cur : ℕ) (ms : Word)
  | runState
  | runSwitch
  deriving DecidableEq

/-- The variables of one core. -/
structure Core where
  taskCount : ℕ
  currentTask : ℕ
  tickCount : DWord
  bootTemp : Tcb
  pc : SchedPc
  /-- The loop index of the `sched_tick` that has interrupted the core, if one has. -/
  irq : Option ℕ
  /-- The task whose code the core executes; `none` is `main`. -/
  running : Option ℕ

inductive SchedAct where
  | call (f : SchedCall)
  | tick
  | next
  /-- The context switch, which leaves this `sp` and this stack in the old TCB. -/
  | switch (sp : DWord) (stack : Memory)

/-- What a statement does to the core's row, of which it stores at most one TCB, and to the core's
variables. -/
abbrev Effect := Option (ℕ × Tcb) × Core

/-- The statements of `sched_add_task` about the TCB `t` at the address `addr`. -/
def addStatement (addr : ℕ) (job : JobContext) (t : Tcb) : ℕ → Tcb
  | 0 => { t with id := job.id }
  | 1 => { t with entry := job.entry }
  | 2 => { t with name := job.taskName }
  | 3 => { t with state := .ready }
  | 4 => { t with wakeTick := 0 }
  | 5 => { t with stack := buildFrame t.stack (taskStackSize - frameSize) job.entry }
  | _ => { t with sp := BitVec.ofNat 64 (addr + stackOffset + taskStackSize - frameSize) }

/-- `task_yield` up to the loop of `pick_next`. -/
def Core.beginYield (v : Core) : Core :=
  { v with pc := .pick v.currentTask v.taskCount v.currentTask 1 }

/-- `task_yield` after `pick_next`. -/
def afterPick (old new : ℕ) : SchedPc := if old = new then .outside else .oldReady old new

section Core

variable (addr : ℕ → ℕ) (row : ℕ → Tcb) (v : Core)

/-- A call up to its first store. -/
def Core.call : SchedCall → Effect
  | .addTask job =>
    (some (v.taskCount, addStatement (addr v.taskCount) job (row v.taskCount) 0),
      { v with pc := .add job v.taskCount 1 })
  | .run =>
    if v.taskCount = 0 then (none, { v with pc := .wfe })
    else (none, { v with currentTask := 0, pc := .runState })
  | .yield => (none, v.beginYield)
  | .sleepMs ms =>
    (some (v.currentTask, { row v.currentTask with state := .sleeping }),
      { v with pc := .sleepWake v.currentTask ms })

/-- The next statement. -/
def Core.statement : Option Effect :=
  match v.pc with
  | .add job idx k =>
    if k < 7 then
      some (some (idx, addStatement (addr idx) job (row idx) k), { v with pc := .add job idx (k + 1) })
    else some (none, { v with taskCount := (v.taskCount + 1) % 2 ^ 32, pc := .outside })
  | .pick old count cur i =>
    if i ≤ count then
      if (row (candidate count cur i)).state = .ready then
        some (none, { v with pc := afterPick old (candidate count cur i) })
      else some (none, { v with pc := .pick old count cur ((i + 1) % 2 ^ 32) })
    else some (none, { v with pc := afterPick old cur })
  | .oldReady old new =>
    some (some (old, { row old with state := .ready }), { v with pc := .newRunning old new })
  | .newRunning old new =>
    some (some (new, { row new with state := .running }), { v with pc := .setCurrent old new })
  | .setCurrent old new => some (none, { v with currentTask := new, pc := .switch old new })
  | .sleepWake cur ms =>
    some (some (cur, { row cur with wakeTick := v.tickCount + ms.setWidth 64 }), v.beginYield)
  | .runState => some (some (0, { row 0 with state := .running }), { v with pc := .runSwitch })
  | .outside | .wfe | .switch .. | .runSwitch => none

/-- `sched_context_switch`. From `sched_run` it leaves `boot_temp` and the stack of `main` behind. -/
def Core.contextSwitch (sp : DWord) (stack : Memory) : Option Effect :=
  match v.pc with
  | .switch old new =>
    some (some (old, { row old with sp, stack }), { v with pc := .outside, running := some new })
  | .runSwitch =>
    some (none, { v with bootTemp := { v.bootTemp with sp }, pc := .outside, running := some 0 })
  | _ => none

/-- Round `i` of the loop of `sched_tick`. -/
def Core.tickRound (i : ℕ) : Effect :=
  if i < v.taskCount then
    (if (row i).state = .sleeping ∧ (row i).wakeTick ≤ v.tickCount
      then some (i, { row i with state := .ready }) else none,
      { v with irq := some (i + 1) })
  else (none, { v with irq := none })

def Core.step : SchedAct → Option Effect
  | .call f =>
    if v.irq = none ∧ v.pc = .outside then some (v.call addr row f) else none
  | .tick =>
    if v.irq = none then some (none, { v with tickCount := v.tickCount + 1, irq := some 0 })
    else none
  | .next =>
    match v.irq with
    | some i => some (v.tickRound row i)
    | none => v.statement addr row
  | .switch sp stack => if v.irq = none then v.contextSwitch row sp stack else none

end Core

/-! ## The four cores -/

structure Sched where
  pool : ℕ → Tcb
  core : Fin 4 → Core

/-- The TCBs from the start of the core's row on. -/
def Sched.row (s : Sched) (c : Fin 4) (i : ℕ) : Tcb := s.pool (slot c i)

/-- The state after a statement of the core `c`. -/
def Sched.apply (s : Sched) (c : Fin 4) (e : Effect) : Sched where
  pool := match e.1 with
    | none => s.pool
    | some (i, t) => Function.update s.pool (slot c i) t
  core := Function.update s.core c e.2

/-- One statement of one core, with `task_pool` at `base`. -/
def schedStep (base : ℕ) (s : Sched) (a : Fin 4 × SchedAct) : Option Sched :=
  ((s.core a.1).step (fun i => tcbAddr base (slot a.1 i)) (s.row a.1) a.2).map (s.apply a.1)

/-- A zeroed TCB, as the statics of C start out. -/
def Tcb.zero : Tcb := ⟨0, 0, fun _ => 0, .ready, 0, 0, 0⟩

def Core.start : Core := ⟨0, 0, 0, .zero, .outside, none, none⟩

def schedStart : Sched := ⟨fun _ => .zero, fun _ => .start⟩

end Gateway
