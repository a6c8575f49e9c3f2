import Gateway.Scheduler.TaskMemory

/-!
# Saved contexts

What it means that the context of a task that does not run is saved (`Saved`), that writing the
other fields of a TCB does not disturb it (`Saved.write_field`), and that `sched_add_task` saves the
context a new task starts with (`saved_schedAddTask`).
-/

namespace Gateway

open ByteMemory AArch64

/-- The stack pointer and the registers x19 to x30 of a task. -/
structure Context where
  sp : ℕ
  x : Fin 31 → DWord

/-- The context `c` is saved in the TCB at `t`: its `sp` points to a frame within its stack. -/
structure Saved (m : Memory) (t : ℕ) (c : Context) : Prop where
  sp : savedSp m t + frameSize = c.sp
  low : t + stackOffset ≤ savedSp m t
  high : c.sp ≤ stackTop t
  frame : ∀ r, calleeSaved r → read 8 m (savedSp m t + 8 * frameIndex r) = c.x r

/-- The context in which a task starts. -/
def startContext (t : ℕ) (entry : DWord) : Context :=
  ⟨stackTop t, fun r => if r = 30 then entry else 0⟩

variable {m m' : Memory} {t : ℕ} {c : Context}

/-- A saved context is in the `sp` of the TCB and in the stack from there on. -/
theorem Saved.congr (h : Saved m t c) (hsp : ∀ b, t ≤ b → b < t + 8 → m' b = m b)
    (hstack : ∀ b, savedSp m t ≤ b → b < stackTop t → m' b = m b) : Saved m' t c := by
  have hsp' : savedSp m' t = savedSp m t := by
    unfold savedSp
    rw [read_congr hsp]
  constructor
  · rw [hsp']
    exact h.sp
  · rw [hsp']
    exact h.low
  · exact h.high
  · intro r hr
    have hlt := frameIndex_lt r
    have hhigh := h.high
    rw [← h.sp] at hhigh
    have hsize : frameSize = 96 := rfl
    rw [hsp', ← h.frame r hr]
    exact read_congr fun b h₁ h₂ => hstack b (by omega) (by omega)

/-- Writing outside the `sp` and the stack of the TCB does not disturb its context. -/
theorem Saved.write_of_apart (h : Saved m t c) {n a : ℕ} {v : BitVec (8 * n)}
    (hsp : Apart a n t 8) (hstack : Apart a n (t + stackOffset) taskStackSize) :
    Saved (write n m a v) t c := by
  have hlow := h.low
  have htop : stackTop t = t + stackOffset + taskStackSize := rfl
  unfold Apart at hsp hstack
  exact h.congr (fun b h₁ h₂ => write_of_lt (by omega)) fun b h₁ h₂ => write_of_lt (by omega)

/-! ## The TCBs of a core -/

section Tcbs

variable (L : Layout) (core : Fin 4) {i j : ℕ}

theorem tcb_apart (h : i ≠ j) : Apart (L.tcb core i) tcbSize (L.tcb core j) tcbSize := by
  unfold Apart Layout.tcb tcbAddr slot tcbSize maxTasks
  omega

theorem tcb_mem_pool (h : i < maxTasks) : L.pool ≤ L.tcb core i ∧
    L.tcb core i + tcbSize ≤ L.pool + coreCount * maxTasks * tcbSize := by
  have hcore := core.isLt
  unfold Layout.tcb tcbAddr slot tcbSize coreCount
  unfold maxTasks at *
  omega

theorem bootTcb_mem : L.bootTemp ≤ L.bootTcb core ∧
    L.bootTcb core + tcbSize ≤ L.bootTemp + coreCount * tcbSize := by
  have hcore := core.isLt
  unfold Layout.bootTcb tcbSize coreCount
  omega

theorem tcb_lt (h : i < maxTasks) : L.tcb core i + tcbSize < 2 ^ 64 := by
  have := tcb_mem_pool L core h
  have := L.pool_fits
  omega

variable {L core}

/-- Writing a field behind the stack of any task disturbs no context. -/
theorem Saved.write_field {n k : ℕ} {v : BitVec (8 * n)} (h : Saved m (L.tcb core i) c)
    (hlow : stackOffset + taskStackSize ≤ k) (hhigh : k + n ≤ tcbSize) :
    Saved (write n m (L.tcb core j + k) v) (L.tcb core i) c := by
  have hsize : stackOffset + taskStackSize ≤ tcbSize := by decide
  have hoff : 8 ≤ stackOffset := by decide
  by_cases hij : j = i
  · rw [hij]
    exact h.write_of_apart (.inr (by omega)) (.inr (by omega))
  · have hdisj := tcb_apart L core hij
    unfold Apart at hdisj
    apply h.write_of_apart
    · unfold Apart
      omega
    · unfold Apart
      omega

theorem Saved.setState (h : Saved m (L.tcb core i) c) (j : ℕ) (s : TaskState) :
    Saved (setState m (L.tcb core j) s) (L.tcb core i) c :=
  h.write_field (by decide) (by decide)

theorem Saved.setWakeTick (h : Saved m (L.tcb core i) c) (j : ℕ) (tick : DWord) :
    Saved (setWakeTick m (L.tcb core j) tick) (L.tcb core i) c :=
  h.write_field (by decide) (by decide)

end Tcbs

/-! ## New tasks -/

/-- The frame of a new task before the entry point is set. -/
theorem read_zeroed (m : Memory) (a : ℕ) {n k : ℕ} (h : k < n) :
    read 8 ((List.range n).foldl (fun m i => write 8 m (a + 8 * i) 0) m) (a + 8 * k) = 0 := by
  induction n with
  | zero => omega
  | succ n ih =>
    rw [List.range_succ, List.foldl_append]
    show read 8 (write 8 _ (a + 8 * n) 0) _ = 0
    by_cases hk : k = n
    · rw [hk, read_write]
    · rw [read_write_of_apart (.inl (by omega))]
      exact ih (by omega)

theorem zeroed_of_lt (m : Memory) {a b : ℕ} (n : ℕ) (h : b < a ∨ a + 8 * n ≤ b) :
    (List.range n).foldl (fun m i => write 8 m (a + 8 * i) 0) m b = m b := by
  induction n with
  | zero => rfl
  | succ n ih =>
    rw [List.range_succ, List.foldl_append]
    show write 8 _ (a + 8 * n) 0 b = m b
    rw [write_of_lt (by omega)]
    exact ih (by omega)

theorem read_buildFrame (m : Memory) (a : ℕ) (entry : DWord) {k : ℕ} (h : k < 12) :
    read 8 (buildFrame m a entry) (a + 8 * k) = if k = 1 then entry else 0 := by
  unfold buildFrame
  dsimp only
  split
  · next hk => rw [hk, read_write]
  · next hk =>
    rw [read_write_of_apart (by unfold Apart; omega)]
    exact read_zeroed m a h

theorem buildFrame_of_lt (m : Memory) {a b : ℕ} (entry : DWord) (h : b < a ∨ a + frameSize ≤ b) :
    buildFrame m a entry b = m b := by
  unfold frameSize at h
  unfold buildFrame
  rw [write_of_lt (by omega)]
  exact zeroed_of_lt m 12 (by omega)

theorem frameIndex_eq_one {r : Fin 31} (hr : calleeSaved r) : frameIndex r = 1 ↔ r = 30 := by
  unfold calleeSaved at hr
  revert r
  decide

section AddTask

variable {L : Layout} {core : Fin 4}

/-- `sched_add_task` stores only in the TCB it fills. -/
theorem mem_schedAddTask_of_lt (m : Machine) (job : JobContext) {b : ℕ}
    (h : b < L.tcb core m.vars.taskCount ∨ L.tcb core m.vars.taskCount + tcbSize ≤ b) :
    (schedAddTask L core m job).cpu.mem b = m.cpu.mem b := by
  unfold schedAddTask Machine.setMem Gateway.setId setEntry setName Gateway.setState
    Gateway.setWakeTick
  have htop : stackTop (L.tcb core m.vars.taskCount) = L.tcb core m.vars.taskCount + 2058 := rfl
  have hsize : tcbSize = 2088 := rfl
  have hframe : frameSize = 96 := rfl
  have hstate : stateOffset = 2060 := rfl
  have hwake : wakeTickOffset = 2064 := rfl
  dsimp only
  rw [write_of_lt (by omega), buildFrame_of_lt _ _ (by omega), write_of_lt (by omega),
    write_of_lt (by omega), write_of_lt (by omega), write_of_lt (by omega), write_of_lt (by omega)]

/-- A new task is saved with the context it starts in. -/
theorem saved_schedAddTask (m : Machine) (job : JobContext) (h : m.vars.taskCount < maxTasks) :
    Saved (schedAddTask L core m job).cpu.mem (L.tcb core m.vars.taskCount)
      (startContext (L.tcb core m.vars.taskCount) job.entry) := by
  have hlt := tcb_lt L core h
  unfold schedAddTask Machine.setMem
  dsimp only
  generalize Gateway.setWakeTick _ _ _ = mem
  generalize L.tcb core m.vars.taskCount = t at hlt ⊢
  have htop : stackTop t = t + 2058 := rfl
  have hsize : tcbSize = 2088 := rfl
  have hframe : frameSize = 96 := rfl
  have hoff : stackOffset = 10 := rfl
  have hsp : savedSp (write 8 (buildFrame mem (stackTop t - frameSize) job.entry) t
      (BitVec.ofNat 64 (stackTop t - frameSize))) t = stackTop t - frameSize := by
    unfold savedSp
    rw [read_write, BitVec.toNat_ofNat, Nat.mod_eq_of_lt (by omega)]
  constructor
  · rw [hsp]
    show stackTop t - frameSize + frameSize = stackTop t
    omega
  · rw [hsp]
    omega
  · exact Nat.le_refl _
  · intro r hr
    have hindex := frameIndex_lt r
    rw [hsp, read_write_of_apart (.inr (by omega)), read_buildFrame mem _ _ hindex]
    simp only [startContext, frameIndex_eq_one hr]

theorem Saved.schedAddTask {m : Machine} {i : ℕ} {c : Context} (job : JobContext)
    (h : Saved m.cpu.mem (L.tcb core i) c) (hi : i ≠ m.vars.taskCount) :
    Saved (schedAddTask L core m job).cpu.mem (L.tcb core i) c := by
  have hdisj := tcb_apart L core hi
  have hlow := h.low
  have htop : stackTop (L.tcb core i) = L.tcb core i + 2058 := rfl
  have hsize : tcbSize = 2088 := rfl
  unfold Apart at hdisj
  apply h.congr
  · intro b h₁ h₂
    exact mem_schedAddTask_of_lt m job (by omega)
  · intro b h₁ h₂
    exact mem_schedAddTask_of_lt m job (by omega)

end AddTask

end Gateway
