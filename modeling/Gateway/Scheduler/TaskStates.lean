import Gateway.Scheduler.Operations

/-!
# The states of the tasks

While at least two tasks are registered whenever one of them sleeps, the current task is RUNNING and
all others are READY (`Turns`). A task that calls `task_sleep_ms` while it is the only one stays
current and is marked SLEEPING, and then no task is RUNNING. So exactly one task is RUNNING in every
state of a run if and only if no task sleeps alone (`one_running_iff`).
-/

namespace Gateway.TaskTable

open Runs

variable {t t' : TaskTable} {op : TaskOp} {n : ℕ}

/-- Exactly one task is RUNNING, the current one. -/
structure OneRunning (t : TaskTable) : Prop where
  current : t.currentTask < t.taskCount
  running : ∀ i < t.taskCount, t.state i = .running ↔ i = t.currentTask

/-- The operation is not a `task_sleep_ms` of the only task. -/
def NotAlone (t : TaskTable) (op : TaskOp) : Prop := ∀ ms, op = .sleepMs ms → t.taskCount ≠ 1

/-- The current task is RUNNING and the others are READY. -/
structure Turns (t : TaskTable) : Prop extends t.InBounds where
  state : ∀ i < t.taskCount, t.state i = if i = t.currentTask then .running else .ready

theorem Turns.oneRunning (h : t.Turns) : t.OneRunning := by
  refine ⟨h.current, fun i hi => ?_⟩
  rw [h.state i hi]
  split
  · next hi => exact iff_of_true rfl hi
  · next hi => exact iff_of_false (fun h => nomatch h) hi

theorem Turns.ready (h : t.Turns) {i : ℕ} (hi : i < t.taskCount) (hne : i ≠ t.currentTask) :
    t.state i = .ready := by
  rw [h.state i hi, if_neg hne]

/-- A switch hands the turn on, whether the old task is RUNNING or was marked SLEEPING. -/
theorem Turns.switch {u : TaskTable} (h : t.Turns) (hcount : u.taskCount = t.taskCount)
    (hcurrent : u.currentTask = t.currentTask)
    (hstate : ∀ i, i ≠ t.currentTask → u.state i = t.state i) {new : ℕ}
    (hnew : new < t.taskCount) : (u.switch new).Turns where
  count := by
    rw [switch_taskCount, hcount]
    exact h.count
  current := by
    rw [switch_taskCount, switch_currentTask, hcount]
    exact hnew
  state i hi := by
    rw [switch_taskCount, hcount] at hi
    rw [switch_state, switch_currentTask, hcurrent]
    split
    · rfl
    split
    · rfl
    · next hne =>
      rw [hstate i hne]
      exact h.ready hi hne

theorem Turns.yield (h : t.Turns) : t.yield.Turns := by
  obtain ⟨-, heq⟩ | ⟨-, -, heq⟩ := h.yield_cases
  · rwa [heq]
  · rw [heq]
    exact h.switch rfl rfl (fun i _ => rfl) h.pickNext_lt

/-- A sleeping task gives up the core to another one. -/
theorem Turns.sleepMs (h : t.Turns) (hother : t.taskCount ≠ 1) (ms : Word) :
    (t.sleepMs ms).Turns := by
  have hcurrent := h.current
  obtain ⟨j, hj, hne⟩ : ∃ j < t.taskCount, j ≠ t.currentTask := by
    by_cases hzero : t.currentTask = 0
    · exact ⟨1, by omega, by omega⟩
    · exact ⟨0, by omega, by omega⟩
  have hready : (t.markSleeping ms).state j = .ready := by
    rw [markSleeping_state, if_neg hne]
    exact h.ready hj hne
  have hmarked := h.markSleeping ms
  obtain ⟨-, -, heq⟩ := hmarked.yield_eq_switch hj hne hready
  unfold TaskTable.sleepMs
  rw [heq]
  have hstate : ∀ i, i ≠ t.currentTask → (t.markSleeping ms).state i = t.state i := by
    intro i hi
    rw [markSleeping_state, if_neg hi]
  exact h.switch (u := t.markSleeping ms) rfl rfl hstate hmarked.pickNext_lt

/-- No task sleeps, so a tick wakes none. -/
theorem Turns.tick (h : t.Turns) : t.tick.Turns := by
  obtain ⟨hcount, hcurrent, hstate⟩ := ticked_tick t
  constructor
  · constructor
    · rw [hcount]
      exact h.count
    · rw [hcount, hcurrent]
      exact h.current
  · intro i hi
    rw [hcount] at hi
    rw [hcurrent, ← h.state i hi]
    obtain heq | ⟨hsleep, -⟩ := hstate i
    · exact heq
    · rw [h.state i hi] at hsleep
      split at hsleep <;> cases hsleep

theorem Turns.addTask (h : t.Turns) (hlt : t.taskCount < maxTasks) : t.addTask.Turns := by
  have hcurrent := h.current
  have hcount := addTask_taskCount hlt
  constructor
  · constructor
    · omega
    · rw [hcount, addTask_currentTask]
      omega
  · intro i hi
    rw [addTask_state, addTask_currentTask]
    split
    · next heq => rw [if_neg (by omega)]
    · exact h.state i (by omega)

/-- One operation hands the turns on, if no task sleeps alone. -/
theorem Turns.step (h : t.Turns) (halone : t.NotAlone op) (hs : t.step op = some t') :
    t'.Turns := by
  cases op with
  | addTask =>
    obtain ⟨hlt, hs⟩ := Option.ite_none_right_eq_some.1 hs
    obtain rfl := Option.some.inj hs
    exact h.addTask hlt
  | yield =>
    obtain rfl := Option.some.inj hs
    exact h.yield
  | sleepMs ms =>
    obtain rfl := Option.some.inj hs
    exact h.sleepMs (halone ms rfl) ms
  | tick =>
    obtain rfl := Option.some.inj hs
    exact h.tick

theorem Started.turns (h : Started n t) (hn : n ≤ maxTasks) : t.Turns where
  toInBounds := h.inBounds hn
  state i _ := by rw [h.state i, h.current]

/-- The only task sleeps: it stays current, and SLEEPING. -/
theorem sleepMs_alone (hcount : t.taskCount = 1) (hcurrent : t.currentTask = 0) (ms : Word) :
    (t.sleepMs ms).taskCount = 1 ∧ (t.sleepMs ms).state 0 = .sleeping := by
  have hbounds : (t.markSleeping ms).InBounds :=
    ⟨by rw [markSleeping_taskCount, hcount]; decide, by
      rw [markSleeping_taskCount, markSleeping_currentTask]; omega⟩
  have hlt := hbounds.pickNext_lt
  rw [markSleeping_taskCount, hcount] at hlt
  unfold sleepMs
  obtain ⟨-, heq⟩ | ⟨hne, -⟩ := hbounds.yield_cases
  · rw [heq, markSleeping_taskCount, markSleeping_state, hcurrent]
    exact ⟨hcount, rfl⟩
  · rw [markSleeping_currentTask] at hne
    omega

/-- **Exactly one task is RUNNING.** In every run from `sched_run` on with at least one and at most
`MAX_TASKS` tasks, exactly the current task is RUNNING in all states if and only if no task sleeps
while it is the only one. -/
theorem one_running_iff {tick₀ : DWord} {t₀ : TaskTable} (ops : List TaskOp) (hn : n ≤ maxTasks)
    (hstart : started n tick₀ = some t₀) :
    (∀ pre u, pre <+: ops → exec step t₀ pre = some u → u.OneRunning) ↔
      Along step NotAlone t₀ ops := by
  have h₀ := (started_spec hn hstart).turns hn
  have hstep : ∀ (u : TaskTable) op u', u.Turns → u.NotAlone op → u.step op = some u' → u'.Turns :=
    fun u op u' h halone hs => h.step halone hs
  have hturns : ∀ {pre u}, Along step NotAlone t₀ pre → exec step t₀ pre = some u → u.Turns :=
    fun halone hu => exec_invariant_along hstep h₀ halone hu
  constructor
  · intro hone
    refine along_of_forall_prefix fun pre op u hpre hu halone => ?_
    rintro ms rfl hcount
    have hu₀ : u.currentTask = 0 := by
      have hcurrent := (hturns halone hu).current
      omega
    -- the state after the sleep
    have hslept := hone (pre ++ [.sleepMs ms]) _ hpre (exec_concat_eq_some.2 ⟨u, hu, rfl⟩)
    obtain ⟨hcount', hstate'⟩ := sleepMs_alone hcount hu₀ ms
    have hcurrent' := hslept.current
    have hrunning := hslept.running 0 (by omega)
    rw [hstate'] at hrunning
    exact absurd (hrunning.2 (by omega)) (fun h => nomatch h)
  · intro halone pre u hpre hu
    exact (hturns (halone.initial hpre hu) hu).oneRunning

/-- Two tasks, of which the first sleeps. -/
theorem one_running_iff_two : ∃ t₀, started 2 0 = some t₀ ∧
    ((∀ pre u, pre <+: [.sleepMs 5, .tick, .yield] → exec step t₀ pre = some u → u.OneRunning) ↔
      Along step NotAlone t₀ [.sleepMs 5, .tick, .yield]) :=
  ⟨_, rfl, one_running_iff (n := 2) [.sleepMs 5, .tick, .yield] (by decide) rfl⟩

/-- The only task of a core sleeps for 5 ms: no task is RUNNING. -/
theorem none_running : ¬ ∀ (n : ℕ) (tick₀ : DWord) (t₀ t : TaskTable) (ops : List TaskOp),
    n ≤ maxTasks → started n tick₀ = some t₀ → exec step t₀ ops = some t → t.OneRunning := by
  intro hone
  obtain ⟨t₀, h₀⟩ : ∃ t₀, started 1 0 = some t₀ := ⟨_, rfl⟩
  have hslept := hone 1 0 t₀ _ [.sleepMs 5] (by decide) h₀ rfl
  have hstart := started_spec (n := 1) (Nat.le_add_left 1 7) h₀
  obtain ⟨hcount, hstate⟩ := sleepMs_alone hstart.count hstart.current 5
  have hcurrent := hslept.current
  have hrunning := hslept.running 0 (by omega)
  rw [hstate] at hrunning
  exact absurd (hrunning.2 (by omega)) (fun h => nomatch h)

end Gateway.TaskTable
