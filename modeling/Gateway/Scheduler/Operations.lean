import Mathlib.Logic.Function.Iterate
import Gateway.Lib.Exec
import Gateway.Scheduler.TaskMemory

/-!
# The scheduler, operation by operation

The functions of `scheduler.c` on the variables of one core and on the two fields of its TCBs that
they read again, `state` and `wake_tick`. Each is one step: an operation that has begun is completed
before the next one begins. `task_yield` comes back here when the switch is made, in the task that
goes on.
-/

namespace Gateway

open RoundRobin

structure TaskTable where
  taskCount : ℕ
  currentTask : ℕ
  tickCount : DWord
  state : ℕ → TaskState
  wakeTick : ℕ → DWord

namespace TaskTable

def setState (t : TaskTable) (i : ℕ) (s : TaskState) : TaskTable :=
  { t with state := Function.update t.state i s }

def setWakeTick (t : TaskTable) (i : ℕ) (tick : DWord) : TaskTable :=
  { t with wakeTick := Function.update t.wakeTick i tick }

/-- `sched_add_task`. -/
def addTask (t : TaskTable) : TaskTable :=
  { (t.setState t.taskCount .ready).setWakeTick t.taskCount 0 with
    taskCount := (t.taskCount + 1) % 2 ^ 32 }

/-- Round `i` of the loop of `sched_tick`. -/
def tickRound (t : TaskTable) (i : ℕ) : TaskTable :=
  if t.state i = .sleeping ∧ t.wakeTick i ≤ t.tickCount then t.setState i .ready else t

/-- `sched_tick`. -/
def tick (t : TaskTable) : TaskTable :=
  (List.range t.taskCount).foldl tickRound { t with tickCount := t.tickCount + 1 }

def isReady (t : TaskTable) (i : ℕ) : Bool := t.state i = .ready

/-- `pick_next`. -/
def pickNext (t : TaskTable) : ℕ := pickLoop t.isReady t.taskCount t.currentTask t.taskCount 1

/-- `task_yield` once it has picked another task. -/
def switch (t : TaskTable) (new : ℕ) : TaskTable :=
  { (t.setState t.currentTask .ready).setState new .running with currentTask := new }

/-- `task_yield`. -/
def yield (t : TaskTable) : TaskTable :=
  if t.currentTask = t.pickNext then t else t.switch t.pickNext

/-- `task_sleep_ms` up to its `task_yield`. -/
def markSleeping (t : TaskTable) (ms : Word) : TaskTable :=
  (t.setState t.currentTask .sleeping).setWakeTick t.currentTask (t.tickCount + ms.setWidth 64)

/-- `task_sleep_ms`. -/
def sleepMs (t : TaskTable) (ms : Word) : TaskTable := (t.markSleeping ms).yield

/-- `sched_run`, up to the first task; `none` if there is no task to run. -/
def run (t : TaskTable) : Option TaskTable :=
  if t.taskCount = 0 then none else some { t.setState 0 .running with currentTask := 0 }

end TaskTable

inductive TaskOp where
  | addTask
  | yield
  | sleepMs (ms : Word)
  | tick
  deriving DecidableEq

/-- One completed operation; `sched_add_task` within capacity only. -/
def TaskTable.step (t : TaskTable) : TaskOp → Option TaskTable
  | .addTask => if t.taskCount < maxTasks then some t.addTask else none
  | .yield => some t.yield
  | .sleepMs ms => some (t.sleepMs ms)
  | .tick => some t.tick

/-- The statics of C, when the tick counter is at `tick`. -/
def TaskTable.zero (tick : DWord) : TaskTable := ⟨0, 0, tick, fun _ => .ready, fun _ => 0⟩

/-- The core after `sched_run`, with `n` tasks registered. -/
def TaskTable.started (n : ℕ) (tick : DWord) : Option TaskTable :=
  (addTask^[n] (zero tick)).run

namespace TaskTable

variable {t t' : TaskTable} {op : TaskOp} {n i j : ℕ} {tick : DWord}

section Fields

variable (t i) (s : TaskState) (new : ℕ) (ms : Word)

@[simp] theorem setState_state : (t.setState i s).state j = if j = i then s else t.state j :=
  Function.update_apply ..

@[simp] theorem setState_taskCount : (t.setState i s).taskCount = t.taskCount := rfl
@[simp] theorem setState_currentTask : (t.setState i s).currentTask = t.currentTask := rfl

@[simp] theorem setWakeTick_state : (t.setWakeTick i tick).state = t.state := rfl
@[simp] theorem setWakeTick_taskCount : (t.setWakeTick i tick).taskCount = t.taskCount := rfl
@[simp] theorem setWakeTick_currentTask : (t.setWakeTick i tick).currentTask = t.currentTask := rfl

@[simp] theorem switch_taskCount : (t.switch new).taskCount = t.taskCount := rfl
@[simp] theorem switch_currentTask : (t.switch new).currentTask = new := rfl

@[simp] theorem switch_state : (t.switch new).state j =
    if j = new then .running else if j = t.currentTask then .ready else t.state j := by
  unfold switch
  simp

@[simp] theorem markSleeping_taskCount : (t.markSleeping ms).taskCount = t.taskCount := rfl
@[simp] theorem markSleeping_currentTask : (t.markSleeping ms).currentTask = t.currentTask := rfl

@[simp] theorem markSleeping_state : (t.markSleeping ms).state j =
    if j = t.currentTask then .sleeping else t.state j := by
  unfold markSleeping
  simp

@[simp] theorem addTask_currentTask : t.addTask.currentTask = t.currentTask := rfl

@[simp] theorem addTask_state : t.addTask.state j = if j = t.taskCount then .ready else t.state j :=
  t.setState_state t.taskCount .ready

end Fields

theorem isReady_iff : t.isReady i = true ↔ t.state i = .ready := decide_eq_true_iff

theorem addTask_taskCount (h : t.taskCount < maxTasks) : t.addTask.taskCount = t.taskCount + 1 := by
  unfold maxTasks at h
  exact Nat.mod_eq_of_lt (by omega)

/-! ## `sched_tick` -/

/-- What the rounds of `sched_tick` may change: sleeping tasks become ready. -/
structure Ticked (t t' : TaskTable) : Prop where
  taskCount : t'.taskCount = t.taskCount
  currentTask : t'.currentTask = t.currentTask
  state : ∀ i, t'.state i = t.state i ∨ t.state i = .sleeping ∧ t'.state i = .ready

theorem ticked_tickRound (h : Ticked t t') (i : ℕ) : Ticked t (t'.tickRound i) := by
  unfold tickRound
  split
  · next hsleep =>
    refine ⟨h.taskCount, h.currentTask, fun j => ?_⟩
    rw [setState_state]
    split
    · next hj =>
      subst hj
      obtain heq | ⟨-, heq⟩ := h.state j
      · exact .inr ⟨heq ▸ hsleep.1, rfl⟩
      · rw [heq] at hsleep
        cases hsleep.1
    · exact h.state j
  · exact h

theorem ticked_tick (t : TaskTable) : Ticked t t.tick := by
  have hrounds : ∀ (is : List ℕ) t', Ticked t t' → Ticked t (is.foldl tickRound t') := by
    intro is
    induction is with
    | nil => exact fun t' h => h
    | cons i is ih => exact fun t' h => ih _ (ticked_tickRound h i)
  exact hrounds _ _ ⟨rfl, rfl, fun i => .inl rfl⟩

/-! ## `task_yield` -/

/-- The current task is one of at most `MAX_TASKS` tasks. -/
structure InBounds (t : TaskTable) : Prop where
  count : t.taskCount ≤ maxTasks
  current : t.currentTask < t.taskCount

theorem InBounds.pickNext_eq (h : t.InBounds) :
    t.pickNext = next t.isReady t.taskCount t.currentTask := by
  have hcount := h.count
  have hcurrent := h.current
  unfold maxTasks at hcount
  exact pickLoop_eq (by omega)

theorem InBounds.pickNext_lt (h : t.InBounds) : t.pickNext < t.taskCount := by
  rw [h.pickNext_eq]
  exact next_lt _ h.current

theorem InBounds.switch (h : t.InBounds) {new : ℕ} (hnew : new < t.taskCount) :
    (t.switch new).InBounds := ⟨h.count, hnew⟩

theorem InBounds.markSleeping (h : t.InBounds) (ms : Word) : (t.markSleeping ms).InBounds :=
  ⟨h.count, h.current⟩

/-- `task_yield` switches to another READY task, or it changes nothing. -/
theorem InBounds.yield_cases (h : t.InBounds) :
    t.pickNext = t.currentTask ∧ t.yield = t ∨
      t.pickNext ≠ t.currentTask ∧ t.state t.pickNext = .ready ∧ t.yield = t.switch t.pickNext := by
  by_cases hne : t.currentTask = t.pickNext
  · exact .inl ⟨hne.symm, if_pos hne⟩
  · refine .inr ⟨Ne.symm hne, ?_, if_neg hne⟩
    rw [h.pickNext_eq] at hne ⊢
    exact isReady_iff.1 (ready_next (Ne.symm hne))

/-- `task_yield` comes nearer to every other READY task. -/
theorem InBounds.pickNext_closer (h : t.InBounds) (hj : j < t.taskCount) (hne : j ≠ t.currentTask)
    (hready : t.state j = .ready) :
    distance t.taskCount t.pickNext j < distance t.taskCount t.currentTask j := by
  rw [h.pickNext_eq]
  exact next_closer h.current hj (isReady_iff.2 hready) hne

/-- With another task READY, `task_yield` switches. -/
theorem InBounds.yield_eq_switch (h : t.InBounds) (hj : j < t.taskCount)
    (hne : j ≠ t.currentTask) (hready : t.state j = .ready) :
    t.pickNext ≠ t.currentTask ∧ t.state t.pickNext = .ready ∧ t.yield = t.switch t.pickNext := by
  obtain ⟨heq, -⟩ | h' := h.yield_cases
  · have hlt := h.pickNext_closer hj hne hready
    rw [heq] at hlt
    exact absurd hlt (Nat.lt_irrefl _)
  · exact h'

theorem InBounds.step (h : t.InBounds) (hs : t.step op = some t') : t'.InBounds := by
  have hyield : ∀ {u : TaskTable}, u.InBounds → u.yield.InBounds := by
    intro u hu
    obtain ⟨-, heq⟩ | ⟨-, -, heq⟩ := hu.yield_cases
    · rwa [heq]
    · rw [heq]
      exact hu.switch hu.pickNext_lt
  cases op with
  | addTask =>
    obtain ⟨hlt, hs⟩ := Option.ite_none_right_eq_some.1 hs
    obtain rfl := Option.some.inj hs
    have hcount := addTask_taskCount hlt
    have hcurrent := h.current
    constructor
    · omega
    · rw [addTask_currentTask]
      omega
  | yield =>
    obtain rfl := Option.some.inj hs
    exact hyield h
  | sleepMs ms =>
    obtain rfl := Option.some.inj hs
    exact hyield (h.markSleeping ms)
  | tick =>
    obtain rfl := Option.some.inj hs
    obtain ⟨hcount, hcurrent, -⟩ := ticked_tick t
    constructor
    · rw [hcount]
      exact h.count
    · rw [hcount, hcurrent]
      exact h.current

/-- Only `sched_add_task` changes the number of tasks. -/
theorem InBounds.step_taskCount (h : t.InBounds) (hop : op ≠ .addTask) (hs : t.step op = some t') :
    t'.taskCount = t.taskCount := by
  have hyield : ∀ {u : TaskTable}, u.InBounds → u.yield.taskCount = u.taskCount := by
    intro u hu
    obtain ⟨-, heq⟩ | ⟨-, -, heq⟩ := hu.yield_cases
    · rw [heq]
    · rw [heq, switch_taskCount]
  cases op with
  | addTask => exact absurd rfl hop
  | yield =>
    obtain rfl := Option.some.inj hs
    exact hyield h
  | sleepMs ms =>
    obtain rfl := Option.some.inj hs
    exact hyield (h.markSleeping ms)
  | tick =>
    obtain rfl := Option.some.inj hs
    exact (ticked_tick t).taskCount

/-! ## `sched_run` -/

theorem iterate_addTask (tick : DWord) (hn : n ≤ maxTasks) :
    (addTask^[n] (zero tick)).taskCount = n ∧ ∀ i, (addTask^[n] (zero tick)).state i = .ready := by
  induction n with
  | zero => exact ⟨rfl, fun i => rfl⟩
  | succ n ih =>
    obtain ⟨hcount, hstate⟩ := ih (by omega)
    rw [Function.iterate_succ_apply']
    refine ⟨?_, fun i => ?_⟩
    · rw [addTask_taskCount (by omega), hcount]
    · rw [addTask_state, hstate i, ite_self]

/-- The core after `sched_run`. -/
structure Started (n : ℕ) (t : TaskTable) : Prop where
  count : t.taskCount = n
  pos : 0 < n
  current : t.currentTask = 0
  state : ∀ i, t.state i = if i = 0 then .running else .ready

theorem started_spec (hn : n ≤ maxTasks) (h : started n tick = some t) : Started n t := by
  obtain ⟨hcount, hstate⟩ := iterate_addTask tick hn
  unfold started run at h
  generalize addTask^[n] (zero tick) = t₀ at hcount hstate h
  obtain ⟨hpos, h⟩ := Option.ite_none_left_eq_some.1 h
  obtain rfl := Option.some.inj h
  refine ⟨hcount, by omega, rfl, fun i => ?_⟩
  show (t₀.setState 0 .running).state i = _
  rw [setState_state, hstate]

theorem Started.inBounds (h : Started n t) (hn : n ≤ maxTasks) : t.InBounds := by
  constructor
  · rw [h.count]
    exact hn
  · rw [h.current, h.count]
    exact h.pos

end TaskTable

end Gateway
