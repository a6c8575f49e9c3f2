import Gateway.Scheduler.Context

/-!
# The alignment of task stacks

The stack pointer of a task that calls other functions must be a multiple of 16. In `tcb_t` the
two-byte `id` stands before the byte array `stack`, so the end of the stack is 2 above a multiple of
8, wherever `task_pool` is put. The initial frame lies in the stack array (`initialFrame_inside`),
but no task ever runs with an aligned stack pointer (`sp_misaligned`), and the property fails in
every run (`task_stacks_misaligned`).
-/

namespace Gateway

open Runs ByteMemory AArch64

/-! ## The statement -/

/-- The alignment of `tcb_t` on AArch64: its widest fields have 8 bytes. -/
def tcbAlign : ℕ := 8

/-- The running task moves its stack pointer by a multiple of 16 between two calls. -/
def MovesBy16 (m : Machine) : TaskAct → Prop
  | .execute cpu _ => cpu.sp.toNat % 16 = m.cpu.sp.toNat % 16
  | _ => True

/-- The stack pointers of an execution of `sched_context_switch` are multiples of 16. -/
structure Dispatch.Aligned (d : Dispatch) : Prop where
  /-- The one with which the task is entered. -/
  entered : d.ret.sp.toNat % 16 = 0
  /-- The one saved to the old TCB. -/
  saved : savedSp d.ret.mem (d.call.x 0).toNat % 16 = 0
  /-- The one loaded from the new TCB. -/
  loaded : savedSp d.call.mem (d.call.x 1).toNat % 16 = 0

/-- The saved frame lies in the stack array of the TCB at `t`. -/
structure FrameInside (m : Memory) (t : ℕ) : Prop where
  low : t + stackOffset ≤ savedSp m t
  high : savedSp m t + frameSize ≤ t + stackOffset + taskStackSize

/-- The property: all stack pointers of the log are aligned, and the initial frames that the machine
`m₁` has before `sched_run` lie in their own stack arrays. -/
structure StacksAligned (L : Layout) (core : Fin 4) (m₁ : Machine) (log : List Dispatch) : Prop where
  aligned : ∀ d ∈ log, d.Aligned
  initial : ∀ i < m₁.vars.taskCount, FrameInside m₁.cpu.mem (L.tcb core i)

/-! ## The end of the stack -/

/-- Every TCB is as aligned as the pool. -/
theorem tcb_mod (L : Layout) (core : Fin 4) (i : ℕ) (hpool : L.pool % tcbAlign = 0) :
    L.tcb core i % tcbAlign = 0 := by
  unfold Layout.tcb tcbAddr tcbSize
  unfold tcbAlign at *
  omega

theorem stackTop_mod (L : Layout) (core : Fin 4) (i : ℕ) (hpool : L.pool % tcbAlign = 0) :
    stackTop (L.tcb core i) % 8 = 2 := by
  have htcb := tcb_mod L core i hpool
  unfold tcbAlign at htcb
  unfold stackTop stackOffset taskStackSize
  omega

section Runs

variable {L : Layout} {core : Fin 4} {jobs : List JobContext} {boot : Cpu} {tick : DWord}
  {m m' m₀ : Machine} {acts : List TaskAct}

/-- The initial frames lie in the stack arrays. -/
theorem initialFrame_inside (boot : Cpu) (tick : DWord) (hjobs : jobs.length ≤ maxTasks) {i : ℕ}
    (hi : i < (registered L core boot tick jobs).vars.taskCount) :
    FrameInside (registered L core boot tick jobs).cpu.mem (L.tcb core i) := by
  have hreg := (registered_spec boot tick hjobs : Registered L core boot jobs _)
  rw [hreg.count] at hi
  have hsaved := hreg.saved i _ (List.getElem?_eq_getElem hi)
  have hhigh := hsaved.high
  rw [← hsaved.sp] at hhigh
  exact ⟨hsaved.low, hhigh⟩

/-! ## The log -/

variable (L core) in
/-- A `task_yield` executes `sched_context_switch` once, or it changes nothing. -/
theorem taskYield_cases (m : Machine) : taskYield L core m = m ∨
    ∃ d, (taskYield L core m).log = m.log ++ [d] ∧ d.call.sp = m.cpu.sp ∧
      d.ret = (taskYield L core m).cpu := by
  unfold Gateway.taskYield
  dsimp only
  split
  · exact .inl rfl
  · exact .inr ⟨_, rfl, rfl, rfl⟩

variable (L core) in
theorem taskYield_log (m : Machine) : m.log <+: (taskYield L core m).log := by
  obtain h | ⟨d, h, -⟩ := taskYield_cases L core m
  · exact ⟨[], by rw [h, List.append_nil]⟩
  · exact ⟨[d], h.symm⟩

theorem taskStep_log {a : TaskAct} (h : taskStep L core m a = some m') : m.log <+: m'.log := by
  cases a with
  | yield =>
    obtain rfl := Option.some.inj h
    exact taskYield_log L core m
  | sleepMs ms =>
    obtain rfl := Option.some.inj h
    obtain ⟨mem, hmem⟩ : ∃ mem, taskSleepMs L core m ms = taskYield L core (m.setMem mem) :=
      ⟨_, rfl⟩
    rw [hmem]
    exact taskYield_log L core (m.setMem mem)
  | execute cpu vars =>
    obtain rfl := Option.some.inj h
    exact List.prefix_refl m.log
  | tick =>
    obtain rfl := Option.some.inj h
    exact List.prefix_refl m.log

/-- The log only grows. -/
theorem exec_log (h : exec (taskStep L core) m₀ acts = some m) : m₀.log <+: m.log := by
  refine exec_invariant (I := fun m => m₀.log <+: m.log) ?_ (List.prefix_refl _) h
  intro m a m' hm hstep
  exact hm.trans (taskStep_log hstep)

/-- The first dispatch enters the first task at the end of its stack. -/
theorem first_entered (hjobs : jobs.length ≤ maxTasks) (hboot : BootStack L boot.sp)
    (hrun : schedRun L core (registered L core boot tick jobs) = some m₀) :
    ∃ d ∈ m₀.log, d.ret.sp.toNat = stackTop (L.tcb core 0) := by
  have hreg := (registered_spec boot tick hjobs : Registered L core boot jobs _)
  have hkept := (switchInv_schedRun hjobs hboot hreg hrun).kept
  obtain ⟨-, hrun⟩ := Option.ite_none_left_eq_some.1 hrun
  obtain ⟨d, hlog, hnew⟩ : ∃ d, m₀.log = [] ++ d :: [] ∧ d.new = 0 := by
    rw [← Option.some.inj hrun]
    exact ⟨_, congrArg (· ++ _) hreg.log, rfl⟩
  have hfirst : ¬ Dispatched [] d.new := by
    rintro ⟨e, he, -⟩
    cases he
  obtain ⟨job, -, hstarts⟩ := (hkept [] d [] hlog).first hfirst
  refine ⟨d, ?_, ?_⟩
  · rw [hlog]
    exact List.mem_singleton_self d
  · rw [hstarts.sp, hnew]

/-! ## No task runs with an aligned stack pointer -/

/-- The running task and all that have run so far were entered with a stack pointer that is not even
a multiple of 8. -/
structure MisalignedInv (L : Layout) (core : Fin 4) (jobs : List JobContext) (m : Machine) :
    Prop where
  inv : SwitchInv L core jobs m
  sp : m.cpu.sp.toNat % 8 = 2
  entered : ∀ d ∈ m.log, d.ret.sp.toNat % 8 = 2
  called : ∀ i call, lastCall m.log i = some call → call.sp.toNat % 8 = 2

/-- A task is entered at the end of its stack or where it has called. -/
theorem DispatchOk.sp_mod {pre : List Dispatch} {d : Dispatch}
    (h : DispatchOk L core jobs pre d) (hpool : L.pool % tcbAlign = 0)
    (hcalled : ∀ i call, lastCall pre i = some call → call.sp.toNat % 8 = 2) :
    d.ret.sp.toNat % 8 = 2 := by
  by_cases hd : Dispatched pre d.new
  · obtain ⟨call, hcall, hret⟩ := h.later hd
    rw [hret.sp]
    exact hcalled d.new call hcall
  · obtain ⟨job, -, hstarts⟩ := h.first hd
    rw [hstarts.sp]
    exact stackTop_mod L core d.new hpool

theorem MisalignedInv.setMem (h : MisalignedInv L core jobs m) {mem : Memory}
    (hinv : SwitchInv L core jobs (m.setMem mem)) : MisalignedInv L core jobs (m.setMem mem) :=
  ⟨hinv, h.sp, h.entered, h.called⟩

theorem MisalignedInv.taskYield (h : MisalignedInv L core jobs m) (hjobs : jobs.length ≤ maxTasks)
    (hpool : L.pool % tcbAlign = 0) : MisalignedInv L core jobs (taskYield L core m) := by
  have hinv := h.inv.taskYield hjobs
  obtain heq | ⟨d, hlog, hcall, hret⟩ := taskYield_cases L core m
  · rwa [heq]
  · have hd : d.ret.sp.toNat % 8 = 2 :=
      (hinv.kept m.log d [] (by rw [hlog])).sp_mod hpool h.called
    generalize Gateway.taskYield L core m = m' at hinv hlog hret ⊢
    constructor
    · exact hinv
    · rw [← hret]
      exact hd
    · intro e he
      rw [hlog, List.mem_append, List.mem_singleton] at he
      obtain he | rfl := he
      · exact h.entered e he
      · exact hd
    · intro i call hi
      rw [hlog, lastCall_concat] at hi
      by_cases hold : d.old = some i
      · rw [if_pos hold] at hi
        obtain rfl := Option.some.inj hi
        rw [hcall]
        exact h.sp
      · rw [if_neg hold] at hi
        exact h.called i call hi

theorem misalignedInv_schedRun (hjobs : jobs.length ≤ maxTasks) (hboot : BootStack L boot.sp)
    (hpool : L.pool % tcbAlign = 0)
    (hrun : schedRun L core (registered L core boot tick jobs) = some m₀) :
    MisalignedInv L core jobs m₀ := by
  have hreg := (registered_spec boot tick hjobs : Registered L core boot jobs _)
  have hinv := switchInv_schedRun hjobs hboot hreg hrun
  obtain ⟨-, hrun⟩ := Option.ite_none_left_eq_some.1 hrun
  obtain ⟨d, hlog, hold, hret⟩ : ∃ d, m₀.log = [d] ∧ d.old = none ∧ d.ret = m₀.cpu := by
    rw [← Option.some.inj hrun]
    exact ⟨_, congrArg (· ++ _) hreg.log, rfl, rfl⟩
  have hnone : ∀ i, lastCall [] i = none := fun _ => rfl
  have hd : d.ret.sp.toNat % 8 = 2 :=
    (hinv.kept [] d [] hlog).sp_mod hpool fun i call h => nomatch h
  constructor
  · exact hinv
  · rw [← hret]
    exact hd
  · intro e he
    rw [hlog, List.mem_singleton] at he
    rwa [he]
  · intro i call hi
    rw [hlog, ← List.nil_append [d], lastCall_concat, if_neg (by rw [hold]; exact fun h => nomatch h),
      hnone] at hi
    cases hi

/-- **Never aligned.** In every run in which the tasks keep to their stacks and move the stack
pointer by multiples of 16, all of them run, call and are entered 2 above a multiple of 8. -/
theorem sp_misaligned (hjobs : jobs.length ≤ maxTasks) (hboot : BootStack L boot.sp)
    (hpool : L.pool % tcbAlign = 0)
    (hrun : schedRun L core (registered L core boot tick jobs) = some m₀)
    (hacts : Along (taskStep L core) (fun m a => (Allowed L core m a ∧ HasRoom L core m a ∧
      KeepsVars m a) ∧ MovesBy16 m a) m₀ acts)
    (hexec : exec (taskStep L core) m₀ acts = some m) : MisalignedInv L core jobs m := by
  have h₀ := misalignedInv_schedRun hjobs hboot hpool hrun
  refine exec_invariant_along (I := MisalignedInv L core jobs) ?_ h₀ hacts hexec
  intro m a m' h hG hs
  cases a with
  | execute cpu vars =>
    obtain rfl := Option.some.inj hs
    obtain ⟨⟨⟨hwrites, -, htop⟩, hroom, hcount, hcurrent⟩, hmoves⟩ := hG
    have hsp := h.sp
    have hmod : cpu.sp.toNat % 16 = m.cpu.sp.toNat % 16 := hmoves
    exact ⟨(h.inv.execute hwrites hroom htop).setVars hcount hcurrent,
      by show cpu.sp.toNat % 8 = 2; omega, h.entered, h.called⟩
  | yield =>
    obtain rfl := Option.some.inj hs
    exact h.taskYield hjobs hpool
  | sleepMs ms =>
    obtain rfl := Option.some.inj hs
    refine MisalignedInv.taskYield (h.setMem (h.inv.setMem fun i c _ hs => ?_)) hjobs hpool
    exact (hs.setState _ _).setWakeTick _ _
  | tick =>
    obtain rfl := Option.some.inj hs
    exact ⟨h.inv.schedTick, h.sp, h.entered, h.called⟩

/-- **The property fails in every run.** The first task is entered 2 above a multiple of 8. -/
theorem task_stacks_misaligned (hjobs : jobs.length ≤ maxTasks) (hboot : BootStack L boot.sp)
    (hpool : L.pool % tcbAlign = 0)
    (hrun : schedRun L core (registered L core boot tick jobs) = some m₀)
    (hexec : exec (taskStep L core) m₀ acts = some m) :
    ¬ StacksAligned L core (registered L core boot tick jobs) m.log := by
  intro h
  obtain ⟨d, hd, hsp⟩ := first_entered hjobs hboot hrun
  have hentered := (h.aligned d ((exec_log hexec).subset hd)).entered
  have hmod := stackTop_mod L core 0 hpool
  omega

end Runs

/-- The first of two tasks uses 10 words of its stack. -/
theorem task_stacks_misaligned_oneRound : ∃ m₀ m, startedWith 2 = some m₀ ∧
    Along (taskStep someLayout 0) MovesBy16 m₀ (oneRound (m₀.numbered 0x401107ba) m₀.vars) ∧
    exec (taskStep someLayout 0) m₀ (oneRound (m₀.numbered 0x401107ba) m₀.vars) = some m ∧
    m.log.length = 3 ∧ ¬ StacksAligned someLayout 0
      (registered someLayout 0 someBoot 0 [⟨0, 0, 0x1000⟩, ⟨1, 0, 0x2000⟩]) m.log := by
  have heval : ((startedWith 2).bind fun m₀ =>
      (exec (taskStep someLayout 0) m₀ (oneRound (m₀.numbered 0x401107ba) m₀.vars)).map fun m =>
        (m₀.cpu.sp, m.log.length)) = some (0x4011080a, 3) := by decide +kernel
  obtain ⟨m₀, h₀, heval⟩ := Option.bind_eq_some_iff.1 heval
  obtain ⟨m, hm, heval⟩ := Option.map_eq_some_iff.1 heval
  obtain ⟨hsp, hlen⟩ := Prod.mk.inj heval
  refine ⟨m₀, m, h₀, along_oneRound ?_ fun _ => trivial, hm, hlen, ?_⟩
  · show (m₀.numbered 0x401107ba).sp.toNat % 16 = m₀.cpu.sp.toNat % 16
    rw [hsp, show (m₀.numbered 0x401107ba).sp = 0x401107ba from rfl]
    decide
  · exact task_stacks_misaligned (by decide) bootStack_someBoot (by decide) h₀ hm

/-- Before any task has moved its stack pointer: the first task of core 0 is entered with the stack
pointer 0x4011080a. -/
theorem task_entered_misaligned :
    ¬ ∀ (L : Layout) (core : Fin 4) (jobs : List JobContext) (boot : Cpu) (tick : DWord)
      (m₀ m : Machine) (acts : List TaskAct), jobs.length ≤ maxTasks → BootStack L boot.sp →
      L.pool % tcbAlign = 0 → L.bootTemp % tcbAlign = 0 → boot.sp.toNat % 16 = 0 →
      schedRun L core (registered L core boot tick jobs) = some m₀ →
      Along (taskStep L core) MovesBy16 m₀ acts → exec (taskStep L core) m₀ acts = some m →
      StacksAligned L core (registered L core boot tick jobs) m.log := by
  intro halign
  have hstart : (startedWith 1).isSome := by decide +kernel
  obtain ⟨m₀, h₀⟩ := Option.isSome_iff_exists.1 hstart
  have h := halign someLayout 0 _ someBoot 0 m₀ m₀ [] (by decide) bootStack_someBoot (by decide)
    (by decide) (by decide) h₀ trivial rfl
  obtain ⟨d, hd, hsp⟩ := first_entered (by decide) bootStack_someBoot h₀
  have hentered := (h.aligned d hd).entered
  rw [hsp] at hentered
  exact absurd hentered (by decide)

end Gateway
