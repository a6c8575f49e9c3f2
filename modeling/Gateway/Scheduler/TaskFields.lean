import Gateway.Scheduler.Context
import Gateway.Scheduler.Operations

/-!
# The operations are what the machine computes

In a run in which the tasks behave as in `Context`, the `state` and the `wake_tick` fields in the
bytes of `task_pool` and the core's variables go through the operations of a `TaskTable`
(`machine_refines`). What the tasks execute between their calls does not show, and neither do the
frames that `sched_context_switch` pushes: they stay in the stacks (`SwitchInv.apart_fields`).
-/

namespace Gateway

open Runs ByteMemory

/-- The operation of a step. -/
def TaskAct.op : TaskAct → Option TaskOp
  | .execute .. => none
  | .yield => some .yield
  | .sleepMs ms => some (.sleepMs ms)
  | .tick => some .tick

/-- The table is in memory, as far as tasks are registered. -/
structure Shows (L : Layout) (core : Fin 4) (mem : Memory) (v : SchedVars) (t : TaskTable) :
    Prop where
  taskCount : v.taskCount = t.taskCount
  currentTask : v.currentTask = t.currentTask
  tickCount : v.tickCount = t.tickCount
  state : ∀ i < t.taskCount, read 4 mem (L.tcb core i + stateOffset) = (t.state i).code
  wakeTick : ∀ i < t.taskCount, read 8 mem (L.tcb core i + wakeTickOffset) = t.wakeTick i

theorem code_inj {s s' : TaskState} : s.code = s'.code ↔ s = s' := by
  cases s <;> cases s' <;> decide

section Fields

variable {L : Layout} {core : Fin 4} {mem mem' : Memory} {v : SchedVars} {t : TaskTable} {i : ℕ}

theorem Shows.hasState_iff (h : Shows L core mem v t) (hi : i < t.taskCount) (s : TaskState) :
    hasState mem (L.tcb core i) s = true ↔ t.state i = s := by
  unfold hasState
  rw [h.state i hi, decide_eq_true_iff, code_inj]

/-- The table is in the fields behind the stacks. -/
theorem Shows.congr (h : Shows L core mem v t)
    (hmem : ∀ i < t.taskCount, ∀ k, stateOffset ≤ k → k < tcbSize →
      mem' (L.tcb core i + k) = mem (L.tcb core i + k)) : Shows L core mem' v t where
  taskCount := h.taskCount
  currentTask := h.currentTask
  tickCount := h.tickCount
  state i hi := by
    rw [← h.state i hi]
    refine read_congr fun b h₁ h₂ => ?_
    obtain ⟨k, rfl⟩ := Nat.exists_eq_add_of_le (Nat.le_trans (Nat.le_add_right _ _) h₁)
    exact hmem i hi k (by omega) (by unfold stateOffset at h₂; unfold tcbSize; omega)
  wakeTick i hi := by
    rw [← h.wakeTick i hi]
    have hoff : stateOffset ≤ wakeTickOffset := by decide
    refine read_congr fun b h₁ h₂ => ?_
    obtain ⟨k, rfl⟩ := Nat.exists_eq_add_of_le (Nat.le_trans (Nat.le_add_right _ _) h₁)
    exact hmem i hi k (by omega) (by unfold wakeTickOffset at h₂; unfold tcbSize; omega)

/-- Two fields, of one task or of two. -/
theorem fields_apart (L : Layout) (core : Fin 4) {i j k n k' n' : ℕ} (h : i = j → Apart k n k' n')
    (hk : k + n ≤ tcbSize) (hk' : k' + n' ≤ tcbSize) :
    Apart (L.tcb core i + k) n (L.tcb core j + k') n' := by
  by_cases hij : i = j
  · subst hij
    have := h rfl
    unfold Apart at *
    omega
  · have := tcb_apart L core hij
    unfold Apart at *
    omega

theorem Shows.setState (h : Shows L core mem v t) (j : ℕ) (s : TaskState) :
    Shows L core (setState mem (L.tcb core j) s) v (t.setState j s) where
  taskCount := h.taskCount
  currentTask := h.currentTask
  tickCount := h.tickCount
  state i hi := by
    unfold Gateway.setState
    rw [TaskTable.setState_state]
    by_cases hij : i = j
    · subst hij
      rw [if_pos rfl, read_write]
    · rw [if_neg hij, read_write_of_apart
        (fields_apart L core (fun heq => absurd heq hij) (by decide) (by decide))]
      exact h.state i hi
  wakeTick i hi := by
    unfold Gateway.setState
    rw [read_write_of_apart
      (fields_apart L core (fun _ => .inr (by decide)) (by decide) (by decide))]
    exact h.wakeTick i hi

theorem Shows.setWakeTick (h : Shows L core mem v t) (j : ℕ) (tick : DWord) :
    Shows L core (setWakeTick mem (L.tcb core j) tick) v (t.setWakeTick j tick) where
  taskCount := h.taskCount
  currentTask := h.currentTask
  tickCount := h.tickCount
  state i hi := by
    unfold Gateway.setWakeTick
    rw [read_write_of_apart
      (fields_apart L core (fun _ => .inl (by decide)) (by decide) (by decide))]
    exact h.state i hi
  wakeTick i hi := by
    unfold Gateway.setWakeTick TaskTable.setWakeTick
    dsimp only
    rw [Function.update_apply]
    by_cases hij : i = j
    · subst hij
      rw [if_pos rfl, read_write]
    · rw [if_neg hij, read_write_of_apart
        (fields_apart L core (fun heq => absurd heq hij) (by decide) (by decide))]
      exact h.wakeTick i hi

variable (L core) in
/-- The fields of the new task after `sched_add_task`. -/
theorem read_schedAddTask (m : Machine) (job : JobContext) :
    read 4 (schedAddTask L core m job).cpu.mem (L.tcb core m.vars.taskCount + stateOffset) =
        TaskState.ready.code ∧
      read 8 (schedAddTask L core m job).cpu.mem (L.tcb core m.vars.taskCount + wakeTickOffset) =
        0 := by
  unfold schedAddTask Machine.setMem Gateway.setState Gateway.setWakeTick
  dsimp only
  generalize L.tcb core m.vars.taskCount = a
  have htop : stackTop a = a + 2058 := rfl
  have hframe : frameSize = 96 := rfl
  have hstate : stateOffset = 2060 := rfl
  have hwake : wakeTickOffset = 2064 := rfl
  constructor
  · rw [read_write_of_apart (by unfold Apart; omega),
      read_congr fun b h₁ h₂ => buildFrame_of_lt _ _ (by omega),
      read_write_of_apart (by unfold Apart; omega), read_write]
  · rw [read_write_of_apart (by unfold Apart; omega),
      read_congr fun b h₁ h₂ => buildFrame_of_lt _ _ (by omega), read_write]

/-- `sched_add_task` fills the fields of the new task and leaves those of the others. -/
theorem Shows.schedAddTask {m : Machine} (h : Shows L core m.cpu.mem m.vars t) (job : JobContext) :
    Shows L core (schedAddTask L core m job).cpu.mem (schedAddTask L core m job).vars
      t.addTask := by
  have hcount := h.taskCount
  have hnew := read_schedAddTask L core m job
  rw [hcount] at hnew
  have hle : ∀ i, i < t.addTask.taskCount → i ≠ t.taskCount → i < t.taskCount := by
    intro i hi hne
    have hmod : i < (t.taskCount + 1) % 2 ^ 32 := hi
    have := Nat.mod_le (t.taskCount + 1) (2 ^ 32)
    omega
  have hothers : ∀ i, i ≠ t.taskCount → ∀ n k, k + n ≤ tcbSize →
      read n (Gateway.schedAddTask L core m job).cpu.mem (L.tcb core i + k) =
        read n m.cpu.mem (L.tcb core i + k) := by
    intro i hne n k hk
    have hdisj := tcb_apart L core hne
    rw [← hcount] at hdisj
    unfold Apart at hdisj
    exact read_congr fun b h₁ h₂ => mem_schedAddTask_of_lt m job (by omega)
  constructor
  · show (m.vars.taskCount + 1) % 2 ^ 32 = _
    rw [hcount]
    rfl
  · exact h.currentTask
  · exact h.tickCount
  · intro i hi
    rw [TaskTable.addTask_state]
    by_cases hne : i = t.taskCount
    · subst hne
      rw [if_pos rfl]
      exact hnew.1
    · rw [if_neg hne, hothers i hne 4 _ (by decide)]
      exact h.state i (hle i hi hne)
  · intro i hi
    show _ = Function.update t.wakeTick t.taskCount 0 i
    rw [Function.update_apply]
    by_cases hne : i = t.taskCount
    · subst hne
      rw [if_pos rfl]
      exact hnew.2
    · rw [if_neg hne, hothers i hne 8 _ (by decide)]
      exact h.wakeTick i (hle i hi hne)

/-! ## `sched_tick` -/

theorem Shows.tickRound (h : Shows L core mem v t) (hi : i < t.taskCount) :
    Shows L core (tickRound L core v.tickCount mem i) v (t.tickRound i) := by
  have hcond : (hasState mem (L.tcb core i) .sleeping = true ∧
      read 8 mem (L.tcb core i + wakeTickOffset) ≤ v.tickCount) ↔
        (t.state i = .sleeping ∧ t.wakeTick i ≤ t.tickCount) := by
    rw [h.hasState_iff hi, h.wakeTick i hi, h.tickCount]
  unfold Gateway.tickRound TaskTable.tickRound
  dsimp only
  by_cases hwake : t.state i = .sleeping ∧ t.wakeTick i ≤ t.tickCount
  · rw [if_pos (hcond.2 hwake), if_pos hwake]
    exact h.setState i .ready
  · rw [if_neg (mt hcond.1 hwake), if_neg hwake]
    exact h

theorem Shows.tickRounds (h : Shows L core mem v t) {n : ℕ} (hn : n ≤ t.taskCount) :
    Shows L core ((List.range n).foldl (Gateway.tickRound L core v.tickCount) mem) v
      ((List.range n).foldl TaskTable.tickRound t) := by
  induction n with
  | zero => exact h
  | succ n ih =>
    have hrounds := ih (by omega)
    have hlt : n < ((List.range n).foldl TaskTable.tickRound t).taskCount := by
      rw [← hrounds.taskCount, h.taskCount]
      exact hn
    rw [List.range_succ, List.foldl_append, List.foldl_append]
    exact hrounds.tickRound hlt

theorem Shows.schedTick {m : Machine} (h : Shows L core m.cpu.mem m.vars t) :
    Shows L core (schedTick L core m).cpu.mem (schedTick L core m).vars t.tick := by
  have hcounted : Shows L core m.cpu.mem { m.vars with tickCount := m.vars.tickCount + 1 }
      { t with tickCount := t.tickCount + 1 } :=
    ⟨h.taskCount, h.currentTask, congrArg (· + 1) h.tickCount, h.state, h.wakeTick⟩
  have hrounds := hcounted.tickRounds (Nat.le_of_eq h.taskCount)
  have htick : t.tick = (List.range m.vars.taskCount).foldl TaskTable.tickRound
      { t with tickCount := t.tickCount + 1 } := by
    rw [h.taskCount]
    rfl
  rw [htick]
  exact hrounds

/-! ## `pick_next` -/

theorem pickLoop_congr {ready ready' : ℕ → Bool} {count cur k i : ℕ} (hcount : 0 < count)
    (h : ∀ j < count, ready j = ready' j) :
    pickLoop ready count cur k i = pickLoop ready' count cur k i := by
  induction k generalizing i with
  | zero => rfl
  | succ k ih =>
    have hlt : candidate count cur i < count := Nat.mod_lt _ hcount
    unfold pickLoop
    rw [h _ hlt, ih]

theorem Shows.pickNext (h : Shows L core mem v t) : pickNext L core mem v = t.pickNext := by
  unfold Gateway.pickNext TaskTable.pickNext
  rw [h.taskCount, h.currentTask]
  rcases Nat.eq_zero_or_pos t.taskCount with hzero | hpos
  · rw [hzero]
    rfl
  · refine pickLoop_congr hpos fun j hj => ?_
    rw [Bool.eq_iff_iff, h.hasState_iff hj, TaskTable.isReady_iff]

end Fields

/-! ## The context switch -/

section Switch

variable {L : Layout} {core : Fin 4} {jobs : List JobContext} {m : Machine} {t : TaskTable}

/-- The frame goes into a stack, and the `sp` in front of it: the fields behind the stacks stay. -/
theorem SwitchedTo.shows {m' : Machine} {call : AArch64.Cpu} {a : ℕ} {c : Context}
    (h : SwitchedTo m m' call a c) (hshows : Shows L core m.cpu.mem m.vars t)
    (hvars : m'.vars = m.vars)
    (hapart : ∀ i < t.taskCount,
      Apart (m.cpu.sp.toNat - frameSize) frameSize (L.tcb core i + stateOffset)
          (tcbSize - stateOffset) ∧
        Apart a 8 (L.tcb core i + stateOffset) (tcbSize - stateOffset))
    (hroom : frameSize ≤ m.cpu.sp.toNat) : Shows L core m'.cpu.mem m'.vars t := by
  rw [hvars]
  refine hshows.congr fun i hi k hk hlt => ?_
  obtain ⟨hstack, htcb⟩ := hapart i hi
  unfold Apart at hstack htcb
  exact h.frame _ (by omega) (by omega)

/-- The frame that the running task pushes, and its `sp`, are apart from the TCBs of the others. -/
theorem SwitchInv.apart_others (h : SwitchInv L core jobs m) {i : ℕ}
    (hi : m.vars.currentTask ≠ i) :
    Apart (m.cpu.sp.toNat - frameSize) frameSize (L.tcb core i) tcbSize ∧
      Apart (L.tcb core m.vars.currentTask) 8 (L.tcb core i) tcbSize := by
  have hlow := h.room
  have htop := h.top
  have hdisj := tcb_apart L core hi
  have hsize : tcbSize = 2088 := rfl
  have hfsize : frameSize = 96 := rfl
  unfold stackTop stackOffset taskStackSize at *
  unfold Apart at *
  omega

/-- They are apart from the fields of all tasks. -/
theorem SwitchInv.apart_fields (h : SwitchInv L core jobs m) (i : ℕ) :
    Apart (m.cpu.sp.toNat - frameSize) frameSize (L.tcb core i + stateOffset)
        (tcbSize - stateOffset) ∧
      Apart (L.tcb core m.vars.currentTask) 8 (L.tcb core i + stateOffset)
        (tcbSize - stateOffset) := by
  have hsize : tcbSize = 2088 := rfl
  have hstate : stateOffset = 2060 := rfl
  by_cases hi : m.vars.currentTask = i
  · subst hi
    have hlow := h.room
    have htop := h.top
    unfold stackTop stackOffset taskStackSize frameSize at *
    unfold Apart
    omega
  · obtain ⟨hstack, htcb⟩ := h.apart_others hi
    unfold Apart at *
    omega

/-- `task_yield` marks the two tasks and switches. -/
theorem SwitchInv.shows_taskYield (h : SwitchInv L core jobs m) (hjobs : jobs.length ≤ maxTasks)
    (hshows : Shows L core m.cpu.mem m.vars t) :
    Shows L core (Gateway.taskYield L core m).cpu.mem (Gateway.taskYield L core m).vars
      t.yield := by
  have hlt := h.pickNext_lt hjobs
  have hpick := hshows.pickNext
  unfold Gateway.taskYield TaskTable.yield
  dsimp only
  rw [← hpick, ← hshows.currentTask]
  generalize pickNext L core m.cpu.mem m.vars = new at hlt ⊢
  by_cases heq : m.vars.currentTask = new
  · rw [if_pos heq, if_pos heq]
    exact hshows
  · rw [if_neg heq, if_neg heq]
    obtain ⟨job, hjob⟩ : ∃ job, jobs[new]? = some job := ⟨_, List.getElem?_eq_getElem hlt⟩
    have hmarked := (hshows.setState m.vars.currentTask .ready).setState new .running
    let marked : Machine := { m.setMem (Gateway.setState (Gateway.setState m.cpu.mem
      (L.tcb core m.vars.currentTask) .ready) (L.tcb core new) .running) with
        vars := { m.vars with currentTask := new } }
    have hcalled : Shows L core marked.cpu.mem marked.vars (t.switch new) := by
      unfold TaskTable.switch
      rw [← hshows.currentTask]
      exact ⟨hmarked.taskCount, rfl, hmarked.tickCount, hmarked.state, hmarked.wakeTick⟩
    have hsaved : Saved marked.cpu.mem (L.tcb core new) (contextOf L core m.log new job.entry) :=
      ((h.saved new job hjob (Ne.symm heq)).setState _ _).setState _ _
    obtain ⟨hstack, hold⟩ := h.apart_others heq
    have htcb := tcb_lt L core (Nat.lt_of_lt_of_le h.current hjobs)
    have hlow := h.room
    have hsize : tcbSize = 2088 := rfl
    have hoff : stackOffset = 10 := rfl
    have hroom : frameSize ≤ m.cpu.sp.toNat := by omega
    have hframe : Apart (L.tcb core m.vars.currentTask) 8 (m.cpu.sp.toNat - frameSize)
        frameSize := .inl (by omega)
    have hsw : SwitchedTo marked
        (switchTo L core marked (some m.vars.currentTask) (L.tcb core m.vars.currentTask) new)
        (marked.callState L core (L.tcb core m.vars.currentTask) new) _ _ :=
      switchTo_spec hroom (by omega) (Nat.lt_of_lt_of_le hlt hjobs) hsaved hstack hold hframe
    exact hsw.shows hcalled rfl (fun i _ => h.apart_fields i) hroom

theorem SwitchInv.shows_taskSleepMs (h : SwitchInv L core jobs m) (hjobs : jobs.length ≤ maxTasks)
    (hshows : Shows L core m.cpu.mem m.vars t) (ms : Word) :
    Shows L core (Gateway.taskSleepMs L core m ms).cpu.mem (Gateway.taskSleepMs L core m ms).vars
      (t.sleepMs ms) := by
  have hmarked := (hshows.setState m.vars.currentTask .sleeping).setWakeTick m.vars.currentTask
    (m.vars.tickCount + ms.setWidth 64)
  unfold TaskTable.sleepMs TaskTable.markSleeping
  rw [← hshows.currentTask, ← hshows.tickCount]
  refine SwitchInv.shows_taskYield (h.setMem fun i c _ hs => ?_) hjobs hmarked
  exact (hs.setState _ _).setWakeTick _ _

/-- `sched_run` marks the first task and switches to it. -/
theorem shows_schedRun {boot : AArch64.Cpu} {m₀ : Machine} (hjobs : jobs.length ≤ maxTasks)
    (hboot : BootStack L boot.sp) (h : Registered L core boot jobs m)
    (hshows : Shows L core m.cpu.mem m.vars t) (hrun : schedRun L core m = some m₀) :
    ∃ t₀, t.run = some t₀ ∧ Shows L core m₀.cpu.mem m₀.vars t₀ := by
  obtain ⟨hcount, hrun⟩ := Option.ite_none_left_eq_some.1 hrun
  obtain rfl := Option.some.inj hrun
  have hpos : 0 < jobs.length := by
    rw [← h.count]
    exact Nat.pos_of_ne_zero hcount
  have hrun' : t.run = some { t.setState 0 .running with currentTask := 0 } :=
    if_neg (by rwa [← hshows.taskCount])
  refine ⟨_, hrun', ?_⟩
  obtain ⟨job, hjob⟩ : ∃ job, jobs[0]? = some job := ⟨_, List.getElem?_eq_getElem hpos⟩
  have hmarked := hshows.setState 0 .running
  let marked : Machine := { m.setMem (Gateway.setState m.cpu.mem (L.tcb core 0) .running) with
    vars := { m.vars with currentTask := 0 } }
  have hcalled : Shows L core marked.cpu.mem marked.vars
      { t.setState 0 .running with currentTask := 0 } :=
    ⟨hmarked.taskCount, rfl, hmarked.tickCount, hmarked.state, hmarked.wakeTick⟩
  have hsaved : Saved marked.cpu.mem (L.tcb core 0) (startContext (L.tcb core 0) job.entry) :=
    (h.saved 0 job hjob).setState _ _
  -- where `boot_temp` and the stack of `main` are
  have hsize : tcbSize = 2088 := rfl
  have hstate : stateOffset = 2060 := rfl
  have hapart := L.apart
  have hboot' := hboot.bootTemp
  have hpool := hboot.pool
  have hfits := L.bootTemp_fits
  have hroom := hboot.room
  have htcb := bootTcb_mem L core
  have hmem : ∀ i < maxTasks, L.pool ≤ L.tcb core i ∧
      L.tcb core i + tcbSize ≤ L.pool + coreCount * maxTasks * tcbSize := fun i hi =>
    tcb_mem_pool L core hi
  rw [← h.sp] at hboot' hpool hroom
  unfold Apart at hapart hboot' hpool
  have hfirst := hmem 0 (by decide)
  have hstack : Apart (m.cpu.sp.toNat - frameSize) frameSize (L.tcb core 0) tcbSize := by
    unfold Apart
    omega
  have hold : Apart (L.bootTcb core) 8 (L.tcb core 0) tcbSize := by
    unfold Apart
    omega
  have hframe : Apart (L.bootTcb core) 8 (m.cpu.sp.toNat - frameSize) frameSize := by
    unfold Apart
    omega
  have hsw : SwitchedTo marked (switchTo L core marked none (L.bootTcb core) 0)
      (marked.callState L core (L.bootTcb core) 0) _ _ :=
    switchTo_spec hroom (by omega) (by decide) hsaved hstack hold hframe
  refine hsw.shows hcalled rfl (fun i hi => ?_) hroom
  have hlt : i < t.taskCount := hi
  rw [← hshows.taskCount, h.count] at hlt
  have hi' := hmem i (Nat.lt_of_lt_of_le hlt hjobs)
  show Apart (m.cpu.sp.toNat - frameSize) _ _ _ ∧ _
  unfold Apart
  omega

end Switch

/-! ## Runs -/

/-- The table after the registrations. -/
theorem shows_registered (L : Layout) (core : Fin 4) (boot : AArch64.Cpu) (tick : DWord)
    (jobs : List JobContext) :
    Shows L core (registered L core boot tick jobs).cpu.mem (registered L core boot tick jobs).vars
      (TaskTable.addTask^[jobs.length] (.zero tick)) := by
  induction jobs using List.reverseRecOn with
  | nil => exact ⟨rfl, rfl, rfl, fun i hi => absurd hi (Nat.not_lt_zero i), fun i hi =>
      absurd hi (Nat.not_lt_zero i)⟩
  | append_singleton jobs job ih =>
    rw [List.length_append, List.length_singleton, Function.iterate_succ_apply']
    unfold registered at *
    rw [List.foldl_append]
    exact ih.schedAddTask job

/-- The running task leaves `tick_count` alone. -/
def KeepsTick (m : Machine) : TaskAct → Prop
  | .execute _ vars => vars.tickCount = m.vars.tickCount
  | _ => True

theorem vars_eq_of_keeps {m : Machine} {cpu : AArch64.Cpu} {vars : SchedVars}
    (hvars : KeepsVars m (.execute cpu vars)) (htick : KeepsTick m (.execute cpu vars)) :
    vars = m.vars := by
  obtain ⟨taskCount, currentTask, tickCount⟩ := vars
  obtain ⟨rfl, rfl⟩ := hvars
  obtain rfl := htick
  rfl

/-- **Refinement.** In every run of a core from `sched_run` on in which the tasks keep to their own
memory and their stacks have room for the frame, the fields in `task_pool` are the table that the
operations compute. -/
theorem machine_refines {L : Layout} {core : Fin 4} {jobs : List JobContext} {boot : AArch64.Cpu}
    {tick : DWord} {m₀ m : Machine} {acts : List TaskAct} (hjobs : jobs.length ≤ maxTasks)
    (hboot : BootStack L boot.sp)
    (hrun : schedRun L core (registered L core boot tick jobs) = some m₀)
    (hacts : Along (taskStep L core)
      (fun m a => Allowed L core m a ∧ HasRoom L core m a ∧ KeepsVars m a ∧ KeepsTick m a)
      m₀ acts)
    (hexec : exec (taskStep L core) m₀ acts = some m) :
    ∃ t₀ t, TaskTable.started jobs.length tick = some t₀ ∧
      exec TaskTable.step t₀ (acts.filterMap TaskAct.op) = some t ∧
        Shows L core m.cpu.mem m.vars t := by
  have hregistered : Registered L core boot jobs (registered L core boot tick jobs) :=
    registered_spec boot tick hjobs
  have h₀ := switchInv_schedRun hjobs hboot hregistered hrun
  obtain ⟨t₀, ht₀, hshows₀⟩ := shows_schedRun hjobs hboot hregistered
    (shows_registered L core boot tick jobs) hrun
  suffices hsim : ∃ t, exec TaskTable.step t₀ (acts.filterMap TaskAct.op) = some t ∧
      SwitchInv L core jobs m ∧ Shows L core m.cpu.mem m.vars t by
    obtain ⟨t, ht, -, hshows⟩ := hsim
    exact ⟨t₀, t, ht₀, ht, hshows⟩
  refine exec_filterMap
    (R := fun m t => SwitchInv L core jobs m ∧ Shows L core m.cpu.mem m.vars t) ?_ ?_ hacts
    ⟨h₀, hshows₀⟩ hexec
  · rintro m a m' t op - ⟨h, hshows⟩ hs hop
    cases a with
    | execute cpu vars => cases hop
    | yield =>
      obtain rfl := Option.some.inj hs
      obtain rfl := Option.some.inj hop
      exact ⟨_, rfl, h.taskYield hjobs, h.shows_taskYield hjobs hshows⟩
    | sleepMs ms =>
      obtain rfl := Option.some.inj hs
      obtain rfl := Option.some.inj hop
      exact ⟨_, rfl, h.taskSleepMs hjobs ms, h.shows_taskSleepMs hjobs hshows ms⟩
    | tick =>
      obtain rfl := Option.some.inj hs
      obtain rfl := Option.some.inj hop
      exact ⟨_, rfl, h.schedTick, hshows.schedTick⟩
  · rintro m a m' t hG ⟨h, hshows⟩ hs hop
    cases a with
    | execute cpu vars =>
      obtain rfl := Option.some.inj hs
      obtain ⟨⟨hwrites, -, htop⟩, hroom, hvars, htick⟩ := hG
      obtain rfl := vars_eq_of_keeps hvars htick
      refine ⟨h.execute hwrites hroom htop, hshows.congr fun i hi k hk hlt => ?_⟩
      exact hwrites.fields i (by rwa [hshows.taskCount]) k hlt (.inr hk)
    | yield | sleepMs | tick => cases hop

/-- Two tasks, of which the first uses part of its stack, as they may. -/
theorem exists_oneRound : ∃ m₀ m, startedWith 2 = some m₀ ∧
    exec (taskStep someLayout 0) m₀ (oneRound (m₀.numbered 0x40110700) m₀.vars) = some m ∧
    Along (taskStep someLayout 0)
      (fun m a => Allowed someLayout 0 m a ∧ HasRoom someLayout 0 m a ∧ KeepsVars m a ∧
        KeepsTick m a) m₀
      (oneRound (m₀.numbered 0x40110700) m₀.vars) := by
  have heval : ((startedWith 2).bind fun m₀ =>
      (exec (taskStep someLayout 0) m₀ (oneRound (m₀.numbered 0x40110700) m₀.vars)).map fun _ =>
        m₀.vars.currentTask) = some 0 := by decide +kernel
  obtain ⟨m₀, h₀, heval⟩ := Option.bind_eq_some_iff.1 heval
  obtain ⟨m, hm, hcur⟩ := Option.map_eq_some_iff.1 heval
  have hsp : (m₀.numbered 0x40110700).sp = 0x40110700 := rfl
  refine ⟨m₀, m, h₀, hm, along_oneRound ⟨?_, ?_, ⟨rfl, rfl⟩, rfl⟩
    fun _ => ⟨trivial, trivial, trivial, trivial⟩⟩
  · exact allowed_execute _ hcur rfl (by rw [hsp]; decide) (by rw [hsp]; decide)
  · exact hasRoom_execute _ hcur (by rw [hsp]; decide)

theorem machine_refines_oneRound : ∃ m₀ m t₀ t, startedWith 2 = some m₀ ∧
    exec (taskStep someLayout 0) m₀ (oneRound (m₀.numbered 0x40110700) m₀.vars) = some m ∧
    TaskTable.started 2 0 = some t₀ ∧ exec TaskTable.step t₀ [.yield, .yield] = some t ∧
    Shows someLayout 0 m.cpu.mem m.vars t := by
  obtain ⟨m₀, m, h₀, hm, hacts⟩ := exists_oneRound
  obtain ⟨t₀, t, ht₀, ht, hshows⟩ := machine_refines (by decide) bootStack_someBoot h₀ hacts hm
  exact ⟨m₀, m, t₀, t, h₀, hm, ht₀, ht, hshows⟩

end Gateway
