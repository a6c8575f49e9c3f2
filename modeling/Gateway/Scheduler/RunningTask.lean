import Gateway.Scheduler.Refinement
import Gateway.Scheduler.Sleep
import Gateway.Scheduler.TaskFields
import Gateway.Scheduler.TaskStates

/-!
# The running task

What is proved about the operations holds of the statements and of the bytes. If a core starts with
two tasks or more, or none of its tasks sleeps, the task that executes is RUNNING and all others are
READY: in `task_pool` while four cores run (`running_task`), and in the bytes of the TCBs
(`running_in_memory`).
-/

namespace Gateway

open Runs ByteMemory

namespace TaskTable

variable {t t' t₀ : TaskTable} {n : ℕ} {tick : DWord} {op : TaskOp} {setup ops : List TaskOp}

/-- From `sched_run` on the turns are handed on, and no task is lost. -/
theorem turns_of_started (hn : n ≤ maxTasks) (hstarted : Started n t₀)
    (hsleep : 2 ≤ n ∨ ∀ ms, TaskOp.sleepMs ms ∉ ops) (h : exec step t₀ ops = some t) :
    t.Turns ∧ n ≤ t.taskCount := by
  have hkeep : ∀ (u : TaskTable) op u', u.Turns ∧ n ≤ u.taskCount →
      (2 ≤ n ∨ ∀ ms, op ≠ .sleepMs ms) → u.step op = some u' → u'.Turns ∧ n ≤ u'.taskCount := by
    rintro u op u' ⟨hu, hcount⟩ hop hs
    have halone : u.NotAlone op := by
      intro ms heq
      rcases hop with htwo | hnone
      · omega
      · exact absurd heq (hnone ms)
    refine ⟨hu.step halone hs, ?_⟩
    by_cases hadd : op = .addTask
    · subst hadd
      obtain ⟨hlt, hs⟩ := Option.ite_none_right_eq_some.1 hs
      obtain rfl := Option.some.inj hs
      rw [addTask_taskCount hlt]
      omega
    · rwa [hu.toInBounds.step_taskCount hadd hs]
  have hops : Along step (fun _ op => 2 ≤ n ∨ ∀ ms, op ≠ .sleepMs ms) t₀ ops := by
    refine along_of_forall fun op hop => hsleep.imp_right fun hnone ms heq => ?_
    subst heq
    exact hnone ms hop
  exact exec_invariant_along hkeep ⟨hstarted.turns hn, Nat.le_of_eq hstarted.count.symm⟩ hops h

/-! ## Before `sched_run` -/

/-- `n` tasks are registered, none of which has run. -/
structure Waiting (n : ℕ) (t : TaskTable) : Prop where
  count : t.taskCount = n
  le : n ≤ maxTasks
  state : ∀ i, t.state i = .ready

theorem waiting_zero (tick : DWord) : Waiting 0 (zero tick) := ⟨rfl, Nat.zero_le _, fun _ => rfl⟩

theorem Waiting.addTask (h : Waiting n t) (hs : t.step .addTask = some t') : Waiting (n + 1) t' := by
  obtain ⟨hlt, hs⟩ := Option.ite_none_right_eq_some.1 hs
  obtain rfl := Option.some.inj hs
  have hcount := h.count
  refine ⟨by rw [addTask_taskCount hlt, hcount], by omega, fun i => ?_⟩
  rw [addTask_state, h.state i, ite_self]

/-- No task sleeps that `sched_tick` could wake. -/
theorem Waiting.schedTick (h : Waiting n t) : Waiting n t.tick := by
  obtain ⟨hcount, -, hstate⟩ := ticked_tick t
  refine ⟨hcount.trans h.count, h.le, fun i => ?_⟩
  obtain hi | ⟨hi, -⟩ := hstate i
  · exact hi.trans (h.state i)
  · rw [h.state i] at hi
    cases hi

theorem Waiting.started (h : Waiting n t) (hpos : 0 < n) (hrun : t.run = some t₀) :
    Started n t₀ := by
  obtain ⟨-, hrun⟩ := Option.ite_none_left_eq_some.1 hrun
  obtain rfl := Option.some.inj hrun
  refine ⟨h.count, hpos, rfl, fun i => ?_⟩
  show (t.setState 0 .running).state i = _
  rw [setState_state, h.state]

/-- The registrations, which `sched_tick` may interrupt. -/
theorem Waiting.registers (h : Waiting n t) (hsetup : ∀ op ∈ setup, op = .addTask ∨ op = .tick)
    (hexec : exec step t setup = some t') : Waiting (n + setup.count .addTask) t' := by
  induction setup generalizing n t with
  | nil =>
    obtain rfl := Option.some.inj hexec
    exact h
  | cons op setup ih =>
    obtain ⟨t₁, hs, hnext⟩ := exec_cons_eq_some.1 hexec
    have hrest : ∀ op ∈ setup, op = .addTask ∨ op = .tick :=
      fun op hop => hsetup op (List.mem_cons_of_mem _ hop)
    obtain rfl | rfl := hsetup op List.mem_cons_self
    · rw [List.count_cons_self, Nat.add_comm (setup.count _), ← Nat.add_assoc]
      exact ih (h.addTask hs) hrest hnext
    · obtain rfl := Option.some.inj hs
      rw [List.count_cons_of_ne (by decide)]
      exact ih h.schedTick hrest hnext

theorem exec_map_op : exec coreStep t (ops.map .op) = exec step t ops := by
  induction ops generalizing t with
  | nil => rfl
  | cons op ops ih => exact Option.bind_congr fun u _ => ih

/-- The registrations, `sched_run` and what the tasks call. -/
theorem exec_started (hsetup : ∀ op ∈ setup, op = .addTask ∨ op = .tick)
    (hadd : .addTask ∈ setup)
    (h : exec coreStep (zero tick) (setup.map .op ++ .run :: ops.map .op) = some t) :
    setup.count .addTask ≤ maxTasks ∧
      ∃ t₀, Started (setup.count .addTask) t₀ ∧ exec step t₀ ops = some t := by
  obtain ⟨u, hu, h⟩ := exec_append_eq_some.1 h
  obtain ⟨t₀, hrun, hrest⟩ := exec_cons_eq_some.1 h
  rw [exec_map_op] at hu hrest
  have hwaiting : Waiting (setup.count .addTask) u := by
    have hu' := (waiting_zero tick).registers hsetup hu
    rwa [Nat.zero_add] at hu'
  have hpos : 0 < setup.count .addTask := List.count_pos_iff.2 hadd
  have hrun' : u.run = some t₀ := by
    have hcount := hwaiting.count
    have hsome : u.run = some { u.setState 0 .running with currentTask := 0 } := if_neg (by omega)
    have hget : some (u.run.getD u) = some t₀ := hrun
    rw [hsome] at hget ⊢
    exact hget
  exact ⟨hwaiting.le, t₀, hwaiting.started hpos hrun', hrest⟩

end TaskTable

/-- **The running task, among four cores.** Once a core has registered its tasks, with `sched_tick`
between the registrations or not, and called `sched_run`, the task that it executes is RUNNING and
its other tasks are READY, whatever the other cores do. -/
theorem running_task {base : ℕ} {as : List (Fin 4 × SchedAct)} {s : Sched} {c : Fin 4} {i : ℕ}
    {setup ops : List TaskOp} (h : exec (schedStep base) schedStart as = some s)
    (hn : ∀ c, adds c as ≤ maxTasks)
    (hticks : Along (schedStep base) (NotInterrupted c) schedStart as)
    (hops : opsOf c as = setup.map .op ++ .run :: ops.map .op)
    (hsetup : ∀ op ∈ setup, op = .addTask ∨ op = .tick) (hadd : .addTask ∈ setup)
    (hsleep : 2 ≤ setup.count .addTask ∨ ∀ ms, TaskOp.sleepMs ms ∉ ops)
    (hexecutes : s.Executes c i) :
    ∀ j < (s.core c).taskCount, (s.row c j).state = if j = i then .running else .ready := by
  obtain ⟨hrunning, hpc, hirq⟩ := hexecutes
  have htable := core_refines h hn hticks ⟨hirq, .inl hpc⟩
  rw [hops] at htable
  obtain ⟨hn', t₀, hstart, hexec⟩ := TaskTable.exec_started hsetup hadd htable
  obtain ⟨hturns, -⟩ := TaskTable.turns_of_started hn' hstart hsleep hexec
  have hle := hn c
  have hinv := core_inv c h (by unfold maxTasks at hle; omega)
  have hcurrent : (s.core c).currentTask = i := by
    have hok := hinv.pc
    unfold Core.PcOk at hok
    rw [hpc] at hok
    exact (hok i hrunning).1
  intro j hj
  have hlt : j < maxTasks := Nat.lt_of_lt_of_le hj (hinv.taskCount_le hle)
  have hstate := hturns.state j hj
  rw [table_state hlt] at hstate
  rw [hstate, ← hcurrent]
  rfl

/-- `sched_tick` on Core 0 first. -/
def tickFirst : List (Fin 4 × SchedAct) := [(0, .tick), (0, .next)] ++ twoCores

theorem running_task_tickFirst : ∃ s, exec (schedStep 0x40110000) schedStart tickFirst = some s ∧
    ∀ j < (s.core 0).taskCount, (s.row 0 j).state = if j = 1 then .running else .ready := by
  have hrun : (exec (schedStep 0x40110000) schedStart tickFirst).map
      (fun s => decide (s.Executes 0 1)) = some true := by decide +kernel
  obtain ⟨s, hs, hexecutes⟩ := Option.map_eq_some_iff.1 hrun
  have hops : opsOf 0 tickFirst =
      [TaskOp.tick, .addTask, .addTask].map .op ++ .run :: [TaskOp.sleepMs 5, .tick].map .op := rfl
  exact ⟨s, hs, running_task hs (by decide) (by decide +kernel) hops (by decide) (by decide)
    (.inl (by decide)) (of_decide_eq_true hexecutes)⟩

/-- **The running task, in memory.** -/
theorem running_in_memory {L : Layout} {core : Fin 4} {jobs : List JobContext}
    {boot : AArch64.Cpu} {tick : DWord} {m₀ m : Machine} {acts : List TaskAct}
    (hjobs : jobs.length ≤ maxTasks) (hboot : BootStack L boot.sp)
    (hrun : schedRun L core (registered L core boot tick jobs) = some m₀)
    (hacts : Along (taskStep L core)
      (fun m a => Allowed L core m a ∧ HasRoom L core m a ∧ KeepsVars m a ∧ KeepsTick m a)
      m₀ acts)
    (hsleep : 2 ≤ jobs.length ∨ ∀ ms, TaskAct.sleepMs ms ∉ acts)
    (hexec : exec (taskStep L core) m₀ acts = some m) :
    ∀ i < jobs.length,
      hasState m.cpu.mem (L.tcb core i) (if i = m.vars.currentTask then .running else .ready) := by
  obtain ⟨t₀, t, hstart, ht, hshows⟩ := machine_refines hjobs hboot hrun hacts hexec
  have hops : 2 ≤ jobs.length ∨ ∀ ms, TaskOp.sleepMs ms ∉ acts.filterMap TaskAct.op := by
    refine hsleep.imp_right fun hnone ms hmem => ?_
    obtain ⟨a, ha, hop⟩ := List.mem_filterMap.1 hmem
    cases a with
    | sleepMs ms' => exact hnone ms' ha
    | execute | yield | tick => cases hop
  have hstarted := TaskTable.started_spec hjobs hstart
  obtain ⟨hturns, hcount⟩ := TaskTable.turns_of_started hjobs hstarted hops ht
  intro i hi
  have hlt := Nat.lt_of_lt_of_le hi hcount
  rw [hshows.hasState_iff hlt, hshows.currentTask]
  exact hturns.state i hlt

theorem running_in_memory_oneRound : ∃ m₀ m, startedWith 2 = some m₀ ∧
    exec (taskStep someLayout 0) m₀ (oneRound (m₀.numbered 0x40110700) m₀.vars) = some m ∧
    ∀ i < 2, hasState m.cpu.mem (someLayout.tcb 0 i)
      (if i = m.vars.currentTask then .running else .ready) := by
  obtain ⟨m₀, m, h₀, hm, hacts⟩ := exists_oneRound
  exact ⟨m₀, m, h₀, hm,
    running_in_memory (by decide) bootStack_someBoot h₀ hacts (.inl (by decide)) hm⟩

end Gateway
