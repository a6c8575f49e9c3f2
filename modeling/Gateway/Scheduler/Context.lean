import Gateway.Lib.Exec
import Gateway.Scheduler.SavedContext

/-!
# Tasks keep their contexts

In every run of a core from `sched_run` on, a task starts at its entry point with an empty stack, and
each time it is switched to again it returns from its own call of `sched_context_switch` with the
stack pointer and the registers x19 to x30 as they were (`contexts_kept`). This needs more of the
tasks than that they leave the TCBs and the saved stacks of the others alone and stay on their own
stacks: a task must leave room for the frame that `sched_context_switch` pushes, since the bytes below
a task's stack are the `id` and the `sp` of its TCB, and must not write `current_task`
(`contexts_not_kept`).
-/

namespace Gateway

open Runs ByteMemory AArch64

/-! ## The statement -/

/-- The state in which the task last called `sched_context_switch`. -/
def lastCall (log : List Dispatch) (i : ℕ) : Option Cpu :=
  (log.reverse.find? fun d => d.old = some i).map Dispatch.call

/-- The task has been switched to. -/
def Dispatched (log : List Dispatch) (i : ℕ) : Prop := ∃ d ∈ log, d.new = i

/-- Execution starts at the entry point of the job, with the stack of the TCB at `t` empty. -/
structure Starts (t : ℕ) (job : JobContext) (c : Cpu) : Prop where
  pc : c.pc = job.entry
  sp : c.sp.toNat = stackTop t
  x : ∀ r, 19 ≤ r → r < 30 → c.x r = 0

/-- Execution returns from the call of `sched_context_switch` made in the state `call`. -/
structure Returns (call c : Cpu) : Prop where
  pc : c.pc = call.x 30
  sp : c.sp = call.sp
  x : ∀ r, calleeSaved r → c.x r = call.x r

section Statement

variable (L : Layout) (core : Fin 4)

/-- The dispatch `d` after the dispatches `pre`. -/
structure DispatchOk (jobs : List JobContext) (pre : List Dispatch) (d : Dispatch) : Prop where
  first : ¬ Dispatched pre d.new →
    ∃ job, jobs[d.new]? = some job ∧ Starts (L.tcb core d.new) job d.ret
  later : Dispatched pre d.new → ∃ call, lastCall pre d.new = some call ∧ Returns call d.ret

/-- Every dispatch of the log is right. -/
def ContextsKept (jobs : List JobContext) (log : List Dispatch) : Prop :=
  ∀ pre d post, log = pre ++ d :: post → DispatchOk L core jobs pre d

/-- The running task has written no field of a TCB, and nothing at or above the saved `sp` inside the
stack of another task. -/
structure WritesAllowed (m : Machine) (mem : Memory) : Prop where
  fields : ∀ i < m.vars.taskCount, ∀ k < tcbSize, k < stackOffset ∨ stateOffset ≤ k →
    mem (L.tcb core i + k) = m.cpu.mem (L.tcb core i + k)
  savedStacks : ∀ i < m.vars.taskCount, i ≠ m.vars.currentTask → ∀ b,
    savedSp m.cpu.mem (L.tcb core i) ≤ b → L.tcb core i + stackOffset ≤ b →
    b < stackTop (L.tcb core i) → mem b = m.cpu.mem b

/-- What tasks may do: they leave the others alone and stay on their own stacks. -/
def Allowed (m : Machine) : TaskAct → Prop
  | .execute cpu _ => WritesAllowed L core m cpu.mem ∧
    L.tcb core m.vars.currentTask + stackOffset ≤ cpu.sp.toNat ∧
    cpu.sp.toNat ≤ stackTop (L.tcb core m.vars.currentTask)
  | _ => True

/-- The stack of the running task has room for the frame. -/
def HasRoom (m : Machine) : TaskAct → Prop
  | .execute cpu _ => L.tcb core m.vars.currentTask + stackOffset + frameSize ≤ cpu.sp.toNat
  | _ => True

/-- The running task leaves `task_count` and `current_task` alone. -/
def KeepsVars (m : Machine) : TaskAct → Prop
  | .execute _ vars =>
    vars.taskCount = m.vars.taskCount ∧ vars.currentTask = m.vars.currentTask
  | _ => True

/-- The stack on which `sched_run` is called has room for the frame, apart from the scheduler's
arrays. -/
structure BootStack (sp : DWord) : Prop where
  room : frameSize ≤ sp.toNat
  pool : Apart (sp.toNat - frameSize) frameSize L.pool (coreCount * maxTasks * tcbSize)
  bootTemp : Apart (sp.toNat - frameSize) frameSize L.bootTemp (coreCount * tcbSize)

end Statement

/-! ## The log -/

section Log

variable {log : List Dispatch} {d : Dispatch} {i : ℕ}

theorem lastCall_concat : lastCall (log ++ [d]) i =
    if d.old = some i then some d.call else lastCall log i := by
  unfold lastCall
  rw [List.reverse_append, List.reverse_singleton, List.singleton_append, List.find?_cons]
  by_cases h : d.old = some i
  · simp [h]
  · simp [h]

theorem dispatched_concat : Dispatched (log ++ [d]) i ↔ Dispatched log i ∨ d.new = i := by
  simp [Dispatched, or_and_right, exists_or]

theorem ContextsKept.concat {L : Layout} {core : Fin 4} {jobs : List JobContext}
    (h : ContextsKept L core jobs log) (hd : DispatchOk L core jobs log d) :
    ContextsKept L core jobs (log ++ [d]) := by
  intro pre e post heq
  rcases List.eq_nil_or_concat post with rfl | ⟨post', f, rfl⟩
  · obtain ⟨rfl, he⟩ := List.append_inj' heq rfl
    rwa [← (List.singleton_inj.1 he)]
  · have heq' : log ++ [d] = (pre ++ e :: post') ++ [f] := by simpa using heq
    exact h pre e post' (List.append_inj' heq' rfl).1

end Log

/-- The context in which the task `i` with this entry point goes on. -/
def contextOf (L : Layout) (core : Fin 4) (log : List Dispatch) (i : ℕ) (entry : DWord) : Context :=
  match lastCall log i with
  | some call => ⟨call.sp.toNat, call.x⟩
  | none => startContext (L.tcb core i) entry

section ContextOf

variable {L : Layout} {core : Fin 4} {log : List Dispatch} {i : ℕ} {entry : DWord}

theorem contextOf_of_none (h : lastCall log i = none) :
    contextOf L core log i entry = startContext (L.tcb core i) entry := by
  unfold contextOf
  rw [h]

theorem contextOf_of_some {call : Cpu} (h : lastCall log i = some call) :
    contextOf L core log i entry = ⟨call.sp.toNat, call.x⟩ := by
  unfold contextOf
  rw [h]

/-- A dispatch leaves the contexts of the tasks that do not call as they are. -/
theorem contextOf_concat {d : Dispatch} (h : d.old ≠ some i) :
    contextOf L core (log ++ [d]) i entry = contextOf L core log i entry := by
  unfold contextOf
  rw [lastCall_concat, if_neg h]

end ContextOf

/-! ## The invariant -/

/-- The core between two steps: the contexts of all tasks but the current one are saved. -/
structure SwitchInv (L : Layout) (core : Fin 4) (jobs : List JobContext) (m : Machine) : Prop where
  count : m.vars.taskCount = jobs.length
  current : m.vars.currentTask < jobs.length
  room : L.tcb core m.vars.currentTask + stackOffset + frameSize ≤ m.cpu.sp.toNat
  top : m.cpu.sp.toNat ≤ stackTop (L.tcb core m.vars.currentTask)
  saved : ∀ i job, jobs[i]? = some job → i ≠ m.vars.currentTask →
    Saved m.cpu.mem (L.tcb core i) (contextOf L core m.log i job.entry)
  dispatched : Dispatched m.log m.vars.currentTask
  called : ∀ i, i ≠ m.vars.currentTask → ((lastCall m.log i).isSome ↔ Dispatched m.log i)
  kept : ContextsKept L core jobs m.log

section Switch

variable {L : Layout} {core : Fin 4}

/-- The state in which `sched_context_switch` is called. -/
def Machine.callState (L : Layout) (core : Fin 4) (m : Machine) (oldTcb new : ℕ) : Cpu :=
  { m.cpu with
    x := Function.update (Function.update m.cpu.x 0 (BitVec.ofNat 64 oldTcb)) 1
      (BitVec.ofNat 64 (L.tcb core new)) }

/-- What a context switch to the saved context `c` does, with the old TCB at `a`. -/
structure SwitchedTo (m m' : Machine) (call : Cpu) (a : ℕ) (c : Context) : Prop where
  sp : m'.cpu.sp.toNat = c.sp
  x : ∀ r, calleeSaved r → m'.cpu.x r = c.x r
  pc : m'.cpu.pc = c.x 30
  oldSp : savedSp m'.cpu.mem a + frameSize = m.cpu.sp.toNat
  oldFrame : ∀ r, calleeSaved r →
    read 8 m'.cpu.mem (m.cpu.sp.toNat - frameSize + 8 * frameIndex r) = call.x r
  frame : ∀ b, b < m.cpu.sp.toNat - frameSize ∨ m.cpu.sp.toNat ≤ b → b < a ∨ a + 8 ≤ b →
    m'.cpu.mem b = m.cpu.mem b

theorem switchTo_spec {m : Machine} {old : Option ℕ} {a new : ℕ} {c : Context}
    (hroom : frameSize ≤ m.cpu.sp.toNat) (ha : a + 8 < 2 ^ 64) (hnew : new < maxTasks)
    (hsaved : Saved m.cpu.mem (L.tcb core new) c)
    (hstack : Apart (m.cpu.sp.toNat - frameSize) frameSize (L.tcb core new) tcbSize)
    (hold : Apart a 8 (L.tcb core new) tcbSize)
    (hframe : Apart a 8 (m.cpu.sp.toNat - frameSize) frameSize) :
    SwitchedTo m (switchTo L core m old a new) (m.callState L core a new) a c := by
  have hlt := tcb_lt L core hnew
  have hsize : tcbSize = 2088 := rfl
  have hfsize : frameSize = 96 := rfl
  have htop : stackTop (L.tcb core new) = L.tcb core new + 2058 := rfl
  have hx₀ : ((m.callState L core a new).x 0).toNat = a := by
    unfold Machine.callState
    dsimp only
    rw [Function.update_of_ne (by decide), Function.update_self, BitVec.toNat_ofNat,
      Nat.mod_eq_of_lt (by omega)]
  have hx₁ : ((m.callState L core a new).x 1).toNat = L.tcb core new := by
    unfold Machine.callState
    dsimp only
    rw [Function.update_self, BitVec.toNat_ofNat, Nat.mod_eq_of_lt (by omega)]
  have hsp : (m.callState L core a new).sp = m.cpu.sp := rfl
  have hmem : (m.callState L core a new).mem = m.cpu.mem := rfl
  have hhigh := hsaved.high
  rw [← hsaved.sp] at hhigh
  unfold Apart at hstack hold hframe
  have hspec : Switched (m.callState L core a new) (switchTo L core m old a new).cpu := by
    apply contextSwitch_spec
    · exact hroom
    · rw [hx₀, hsp]
      exact hframe
    · rw [hx₁, hsp]
      unfold Apart
      omega
    · rw [hx₀, hx₁]
      unfold Apart
      omega
    · rw [hx₁, hmem]
      show savedSp m.cpu.mem (L.tcb core new) + frameSize < _
      omega
  generalize switchTo L core m old a new = m' at hspec ⊢
  generalize m.callState L core a new = call at *
  obtain ⟨hfr, hosp, hosaved, hnsp, hnx, hnpc⟩ := hspec
  rw [hx₀, hsp, hmem] at hfr
  rw [hx₀, hsp] at hosp
  rw [hsp] at hosaved
  rw [hx₁, hmem] at hnsp hnx
  -- the frame of the new task is as it was
  have hloaded : ∀ r, calleeSaved r → m'.cpu.x r = c.x r := by
    intro r hr
    have hlow := hsaved.low
    have hindex := frameIndex_lt r
    rw [hnx r hr, ← hsaved.frame r hr]
    show read 8 _ (savedSp m.cpu.mem (L.tcb core new) + _) = _
    exact read_congr fun b h₁ h₂ => hfr b (by omega) (by omega)
  constructor
  · rw [hnsp, ← hsaved.sp]
    rfl
  · exact hloaded
  · rw [hnpc, hloaded 30 (by decide : (19 : Fin 31) ≤ 30)]
  · exact hosp
  · exact hosaved
  · exact hfr

/-- A context that is saved elsewhere survives a context switch. -/
theorem SwitchedTo.saved {m m' : Machine} {call : Cpu} {a i : ℕ} {c c' : Context}
    (h : SwitchedTo m m' call a c) (hs : Saved m.cpu.mem (L.tcb core i) c')
    (hstack : Apart (m.cpu.sp.toNat - frameSize) frameSize (L.tcb core i) tcbSize)
    (hroom : frameSize ≤ m.cpu.sp.toNat) (hold : Apart a 8 (L.tcb core i) tcbSize) :
    Saved m'.cpu.mem (L.tcb core i) c' := by
  have hlow := hs.low
  have hsize : tcbSize = 2088 := rfl
  have htop : stackTop (L.tcb core i) = L.tcb core i + 2058 := rfl
  unfold Apart at hstack hold
  exact hs.congr (fun b h₁ h₂ => h.frame b (by omega) (by omega))
    fun b h₁ h₂ => h.frame b (by omega) (by omega)

/-- A task that has saved contexts goes on as it should. -/
theorem dispatchOk_of_context {jobs : List JobContext} {log : List Dispatch} {d : Dispatch}
    {job : JobContext} (hjob : jobs[d.new]? = some job)
    (hcalled : (lastCall log d.new).isSome ↔ Dispatched log d.new)
    (hsp : d.ret.sp.toNat = (contextOf L core log d.new job.entry).sp)
    (hx : ∀ r, calleeSaved r → d.ret.x r = (contextOf L core log d.new job.entry).x r)
    (hpc : d.ret.pc = (contextOf L core log d.new job.entry).x 30) :
    DispatchOk L core jobs log d := by
  cases hlast : lastCall log d.new with
  | none =>
    rw [contextOf_of_none hlast] at hsp hx hpc
    rw [hlast] at hcalled
    refine ⟨fun _ => ⟨job, hjob, hpc, hsp, ?_⟩, fun hd => nomatch hcalled.2 hd⟩
    intro r h₁ h₂
    rw [hx r h₁]
    exact if_neg (by omega)
  | some call =>
    rw [contextOf_of_some hlast] at hsp hx hpc
    rw [hlast] at hcalled
    refine ⟨fun hd => absurd (hcalled.1 rfl) hd, fun _ => ⟨call, hlast, hpc, ?_, hx⟩⟩
    exact BitVec.eq_of_toNat_eq hsp

/-- A context switch to `new`, from `sched_run` or from the task `old`, keeps the invariant. -/
theorem switchInv_switchTo {jobs : List JobContext} {m : Machine} {old : Option ℕ} {a new : ℕ}
    (hjobs : jobs.length ≤ maxTasks) (hcount : m.vars.taskCount = jobs.length)
    (hcurrent : m.vars.currentTask = new) (hnew : new < jobs.length) (hne : old ≠ some new)
    (hroom : frameSize ≤ m.cpu.sp.toNat) (ha : a + 8 < 2 ^ 64)
    (hframe : Apart a 8 (m.cpu.sp.toNat - frameSize) frameSize)
    (hapart : ∀ i < maxTasks, old ≠ some i →
      Apart (m.cpu.sp.toNat - frameSize) frameSize (L.tcb core i) tcbSize ∧
        Apart a 8 (L.tcb core i) tcbSize)
    (hold : ∀ i, old = some i → a = L.tcb core i ∧
      L.tcb core i + stackOffset + frameSize ≤ m.cpu.sp.toNat ∧
      m.cpu.sp.toNat ≤ stackTop (L.tcb core i) ∧ Dispatched m.log i)
    (hsaved : ∀ i job, jobs[i]? = some job → old ≠ some i →
      Saved m.cpu.mem (L.tcb core i) (contextOf L core m.log i job.entry))
    (hcalled : ∀ i, old ≠ some i → ((lastCall m.log i).isSome ↔ Dispatched m.log i))
    (hkept : ContextsKept L core jobs m.log) :
    SwitchInv L core jobs (switchTo L core m old a new) := by
  obtain ⟨job, hjob⟩ : ∃ job, jobs[new]? = some job := ⟨_, List.getElem?_eq_getElem hnew⟩
  have hs := hsaved new job hjob hne
  obtain ⟨hstack, htcb⟩ := hapart new (by omega) hne
  have hsw : SwitchedTo m (switchTo L core m old a new) (m.callState L core a new) a _ :=
    switchTo_spec hroom ha (by omega) hs hstack htcb hframe
  have hlog : (switchTo L core m old a new).log = m.log ++
      [⟨old, new, m.callState L core a new, (switchTo L core m old a new).cpu⟩] := rfl
  have hvars : (switchTo L core m old a new).vars = m.vars := rfl
  generalize switchTo L core m old a new = m' at hsw hlog hvars ⊢
  constructor
  · rw [hvars]
    exact hcount
  · rw [hvars, hcurrent]
    exact hnew
  · have hlow := hs.low
    have hsp := hs.sp
    rw [hvars, hcurrent, hsw.sp]
    omega
  · rw [hvars, hcurrent, hsw.sp]
    exact hs.high
  · intro i job' hjob' hi
    rw [hvars, hcurrent] at hi
    have hlt : i < jobs.length := (List.getElem?_eq_some_iff.1 hjob').1
    rw [hlog]
    by_cases hio : old = some i
    · -- the task that gives up the core
      obtain ⟨rfl, hlow, htop, -⟩ := hold i hio
      rw [contextOf_of_some (lastCall_concat.trans (if_pos hio))]
      have hosp := hsw.oldSp
      constructor
      · exact hosp
      · omega
      · exact htop
      · intro r hr
        have hframe' := hsw.oldFrame r hr
        rwa [← hosp, Nat.add_sub_cancel] at hframe'
    · rw [contextOf_concat hio]
      obtain ⟨hstack', htcb'⟩ := hapart i (by omega) hio
      exact hsw.saved (hsaved i job' hjob' hio) hstack' hroom htcb'
  · rw [hvars, hcurrent, hlog]
    exact dispatched_concat.2 (.inr rfl)
  · intro i hi
    rw [hvars, hcurrent] at hi
    rw [hlog, lastCall_concat, dispatched_concat]
    by_cases hio : old = some i
    · rw [if_pos hio]
      exact ⟨fun _ => .inl (hold i hio).2.2.2, fun _ => rfl⟩
    · rw [if_neg hio, hcalled i hio]
      exact ⟨.inl, fun h => h.resolve_right (Ne.symm hi)⟩
  · rw [hlog]
    exact hkept.concat (dispatchOk_of_context hjob (hcalled new hne) hsw.sp hsw.x hsw.pc)

end Switch

/-! ## The steps -/

section Steps

variable {L : Layout} {core : Fin 4} {jobs : List JobContext} {m : Machine}

/-- A change of the memory that keeps the saved contexts. -/
theorem SwitchInv.setMem (h : SwitchInv L core jobs m) {mem : Memory}
    (hmem : ∀ i c, i ≠ m.vars.currentTask → Saved m.cpu.mem (L.tcb core i) c →
      Saved mem (L.tcb core i) c) : SwitchInv L core jobs (m.setMem mem) where
  count := h.count
  current := h.current
  room := h.room
  top := h.top
  saved i job hjob hi := hmem i _ hi (h.saved i job hjob hi)
  dispatched := h.dispatched
  called := h.called
  kept := h.kept

theorem SwitchInv.pickNext_lt (h : SwitchInv L core jobs m) (hjobs : jobs.length ≤ maxTasks) :
    pickNext L core m.cpu.mem m.vars < jobs.length := by
  have hcurrent := h.current
  unfold maxTasks at hjobs
  unfold pickNext
  rw [h.count, pickLoop_eq (by omega)]
  exact RoundRobin.next_lt _ hcurrent

theorem SwitchInv.taskYield (h : SwitchInv L core jobs m) (hjobs : jobs.length ≤ maxTasks) :
    SwitchInv L core jobs (taskYield L core m) := by
  unfold Gateway.taskYield
  have hlt := h.pickNext_lt hjobs
  dsimp only
  generalize pickNext L core m.cpu.mem m.vars = new at hlt ⊢
  split
  · exact h
  · next hne =>
    have hroom := h.room
    have hcur : m.vars.currentTask < maxTasks := Nat.lt_of_lt_of_le h.current hjobs
    have htcb := tcb_lt L core hcur
    have htop := h.top
    have hsize : tcbSize = 2088 := rfl
    have hoff : stackOffset = 10 := rfl
    have hfsize : frameSize = 96 := rfl
    have htop' : stackTop (L.tcb core m.vars.currentTask) =
      L.tcb core m.vars.currentTask + 2058 := rfl
    apply switchInv_switchTo hjobs
    · exact h.count
    · rfl
    · exact hlt
    · exact fun heq => hne (Option.some.inj heq)
    · show frameSize ≤ m.cpu.sp.toNat
      omega
    · omega
    · show Apart _ 8 (m.cpu.sp.toNat - frameSize) frameSize
      unfold Apart
      omega
    · intro i hi hio
      have hdisj := tcb_apart L core fun heq : m.vars.currentTask = i => hio (congrArg some heq)
      show Apart (m.cpu.sp.toNat - frameSize) frameSize _ _ ∧ _
      unfold Apart at hdisj ⊢
      omega
    · intro i hio
      obtain rfl := Option.some.inj hio
      exact ⟨rfl, hroom, htop, h.dispatched⟩
    · intro i job hjob hio
      have hi : i ≠ m.vars.currentTask := fun heq => hio (congrArg some heq.symm)
      exact ((h.saved i job hjob hi).setState _ _).setState _ _
    · intro i hio
      exact h.called i fun heq => hio (congrArg some heq.symm)
    · exact h.kept

theorem SwitchInv.taskSleepMs (h : SwitchInv L core jobs m) (hjobs : jobs.length ≤ maxTasks)
    (ms : Word) : SwitchInv L core jobs (taskSleepMs L core m ms) := by
  unfold Gateway.taskSleepMs
  refine SwitchInv.taskYield (h.setMem fun i c _ hs => ?_) hjobs
  exact (hs.setState _ _).setWakeTick _ _

theorem SwitchInv.schedTick (h : SwitchInv L core jobs m) :
    SwitchInv L core jobs (schedTick L core m) := by
  have hmem : ∀ (n i : ℕ) (c : Context) (tick : DWord), Saved m.cpu.mem (L.tcb core i) c →
      Saved ((List.range n).foldl (tickRound L core tick) m.cpu.mem) (L.tcb core i) c := by
    intro n i c tick hs
    induction n with
    | zero => exact hs
    | succ n ih =>
      rw [List.range_succ, List.foldl_append]
      show Saved (tickRound L core tick _ n) _ _
      unfold tickRound
      dsimp only
      split
      · exact ih.setState _ _
      · exact ih
  have hset := h.setMem fun i c _ hs => hmem m.vars.taskCount i c (m.vars.tickCount + 1) hs
  exact ⟨hset.count, hset.current, hset.room, hset.top, hset.saved, hset.dispatched, hset.called,
    hset.kept⟩

/-- What a task does between its calls. -/
theorem SwitchInv.execute (h : SwitchInv L core jobs m) {cpu : Cpu}
    (hwrites : WritesAllowed L core m cpu.mem)
    (hroom : L.tcb core m.vars.currentTask + stackOffset + frameSize ≤ cpu.sp.toNat)
    (htop : cpu.sp.toNat ≤ stackTop (L.tcb core m.vars.currentTask)) :
    SwitchInv L core jobs { m with cpu } where
  count := h.count
  current := h.current
  room := hroom
  top := htop
  saved i job hjob hi := by
    have hs := h.saved i job hjob hi
    have hlt : i < m.vars.taskCount := by
      rw [h.count]
      exact (List.getElem?_eq_some_iff.1 hjob).1
    have hlow := hs.low
    have hoff : stackOffset = 10 := rfl
    refine hs.congr (fun b h₁ h₂ => ?_) fun b h₁ h₂ => ?_
    · obtain ⟨k, rfl⟩ := Nat.exists_eq_add_of_le h₁
      exact hwrites.fields i hlt k (by unfold tcbSize; omega) (.inl (by omega))
    · exact hwrites.savedStacks i hlt hi b h₁ (by omega) h₂
  dispatched := h.dispatched
  called := h.called
  kept := h.kept

/-- `tick_count` may be anything. -/
theorem SwitchInv.setVars (h : SwitchInv L core jobs m) {vars : SchedVars}
    (hcount : vars.taskCount = m.vars.taskCount)
    (hcurrent : vars.currentTask = m.vars.currentTask) : SwitchInv L core jobs { m with vars } where
  count := hcount.trans h.count
  current := hcurrent ▸ h.current
  room := hcurrent ▸ h.room
  top := hcurrent ▸ h.top
  saved i job hjob hi := h.saved i job hjob (hcurrent ▸ hi)
  dispatched := hcurrent ▸ h.dispatched
  called i hi := h.called i (hcurrent ▸ hi)
  kept := h.kept

end Steps

/-! ## The start -/

section Start

variable {L : Layout} {core : Fin 4}

/-- What holds once the jobs are registered. -/
structure Registered (L : Layout) (core : Fin 4) (boot : Cpu) (jobs : List JobContext)
    (m : Machine) : Prop where
  count : m.vars.taskCount = jobs.length
  log : m.log = []
  sp : m.cpu.sp = boot.sp
  saved : ∀ i job, jobs[i]? = some job →
    Saved m.cpu.mem (L.tcb core i) (startContext (L.tcb core i) job.entry)

theorem registered_spec (boot : Cpu) (tick : DWord) {jobs : List JobContext}
    (hjobs : jobs.length ≤ maxTasks) :
    Registered L core boot jobs (registered L core boot tick jobs) := by
  induction jobs using List.reverseRecOn with
  | nil => exact ⟨rfl, rfl, rfl, fun i job h => nomatch h⟩
  | append_singleton jobs job ih =>
    rw [List.length_append, List.length_singleton] at hjobs
    have h := ih (by omega)
    have hstep : registered L core boot tick (jobs ++ [job]) =
        schedAddTask L core (registered L core boot tick jobs) job := by
      unfold registered
      rw [List.foldl_append]
      rfl
    rw [hstep]
    generalize registered L core boot tick jobs = m at h ⊢
    have hcount := h.count
    unfold maxTasks at hjobs
    constructor
    · rw [List.length_append, List.length_singleton]
      show (m.vars.taskCount + 1) % 2 ^ 32 = _
      omega
    · exact h.log
    · exact h.sp
    · intro i job' hjob'
      by_cases hi : i = m.vars.taskCount
      · subst hi
        rw [hcount, List.getElem?_concat_length] at hjob'
        obtain rfl := Option.some.inj hjob'
        exact saved_schedAddTask m job (by unfold maxTasks; omega)
      · rw [List.getElem?_append] at hjob'
        split at hjob'
        · exact (h.saved i job' hjob').schedAddTask job hi
        · obtain ⟨hlt, -⟩ := List.getElem?_eq_some_iff.1 hjob'
          rw [List.length_singleton] at hlt
          omega

/-- `sched_run` switches to the first task. -/
theorem switchInv_schedRun {boot : Cpu} {jobs : List JobContext} {m m₀ : Machine}
    (hjobs : jobs.length ≤ maxTasks) (hboot : BootStack L boot.sp)
    (h : Registered L core boot jobs m) (hrun : schedRun L core m = some m₀) :
    SwitchInv L core jobs m₀ := by
  obtain ⟨hcount, hrun⟩ := Option.ite_none_left_eq_some.1 hrun
  obtain rfl := Option.some.inj hrun
  have hlog := h.log
  have hsize : tcbSize = 2088 := rfl
  have hapart := L.apart
  have hboot' := hboot.bootTemp
  have hpool := hboot.pool
  have hfits := L.bootTemp_fits
  have hroom := hboot.room
  have htcb := bootTcb_mem L core
  rw [← h.sp] at hboot' hpool hroom
  unfold Apart at hapart hboot' hpool
  apply switchInv_switchTo hjobs
  · exact h.count
  · rfl
  · rw [← h.count]
    exact Nat.pos_of_ne_zero hcount
  · exact fun h => nomatch h
  · exact hroom
  · omega
  · show Apart _ _ (m.cpu.sp.toNat - frameSize) _
    unfold Apart
    omega
  · intro i hi _
    have hmem := tcb_mem_pool L core hi
    show Apart (m.cpu.sp.toNat - frameSize) frameSize _ _ ∧ _
    unfold Apart
    omega
  · exact fun i hi => nomatch hi
  · intro i job hjob _
    have hnone : lastCall m.log i = none := by rw [hlog]; rfl
    show Saved _ _ (contextOf L core m.log i job.entry)
    rw [contextOf_of_none hnone]
    exact (h.saved i job hjob).setState _ _
  · intro i _
    show (lastCall m.log i).isSome ↔ Dispatched m.log i
    rw [hlog]
    constructor
    · exact fun h => nomatch h
    · rintro ⟨d, hd, -⟩
      cases hd
  · intro pre d post heq
    have heq' : m.log = pre ++ d :: post := heq
    rw [hlog] at heq'
    exact absurd heq' (by simp)

end Start

/-- **Contexts are kept.** Every run from `sched_run` on in which the tasks leave the TCBs, the saved
stacks of the others, `task_count` and `current_task` alone, stay on their own stacks and leave room
for the frame there. -/
theorem contexts_kept {L : Layout} {core : Fin 4} {jobs : List JobContext} {boot : Cpu}
    {tick : DWord} {m₀ m : Machine} {acts : List TaskAct} (hjobs : jobs.length ≤ maxTasks)
    (hboot : BootStack L boot.sp)
    (hrun : schedRun L core (registered L core boot tick jobs) = some m₀)
    (hacts : Along (taskStep L core)
      (fun m a => Allowed L core m a ∧ HasRoom L core m a ∧ KeepsVars m a) m₀ acts)
    (hexec : exec (taskStep L core) m₀ acts = some m) : ContextsKept L core jobs m.log := by
  have h₀ := switchInv_schedRun hjobs hboot (registered_spec boot tick hjobs) hrun
  refine (exec_invariant_along (I := SwitchInv L core jobs) ?_ h₀ hacts hexec).kept
  intro m a m' h hG hs
  cases a with
  | execute cpu vars =>
    obtain rfl := Option.some.inj hs
    obtain ⟨⟨hwrites, -, htop⟩, hroom, hcount, hcurrent⟩ := hG
    exact (h.execute hwrites hroom htop).setVars hcount hcurrent
  | yield =>
    obtain rfl := Option.some.inj hs
    exact h.taskYield hjobs
  | sleepMs ms =>
    obtain rfl := Option.some.inj hs
    exact h.taskSleepMs hjobs ms
  | tick =>
    obtain rfl := Option.some.inj hs
    exact h.schedTick

/-! ## What the tasks must observe -/

/-- Tasks keep their contexts in every run in which they observe `G`. -/
def KeptUnder (G : Layout → Fin 4 → Machine → TaskAct → Prop) : Prop :=
  ∀ (L : Layout) (core : Fin 4) (jobs : List JobContext) (boot : Cpu) (tick : DWord)
    (m₀ m : Machine) (acts : List TaskAct), jobs.length ≤ maxTasks → BootStack L boot.sp →
    schedRun L core (registered L core boot tick jobs) = some m₀ →
    Along (taskStep L core) (G L core) m₀ acts → exec (taskStep L core) m₀ acts = some m →
    ContextsKept L core jobs m.log

/-- An example of a layout. -/
def someLayout : Layout where
  pool := 0x40110000
  bootTemp := 0x40130000
  pool_fits := by decide
  bootTemp_fits := by decide
  apart := .inr (by decide)

/-- Core 0 in `main`. -/
def someBoot : Cpu := ⟨fun _ => 0, 0x40204000, 0, fun _ => 0⟩

theorem bootStack_someBoot : BootStack someLayout someBoot.sp :=
  ⟨by decide, .inr (by decide), .inr (by decide)⟩

/-- Core 0 after `sched_run` with the first `n` of three tasks. -/
def startedWith (n : ℕ) : Option Machine :=
  schedRun someLayout 0
    (registered someLayout 0 someBoot 0 ([⟨0, 0, 0x1000⟩, ⟨1, 0, 0x2000⟩, ⟨2, 0, 0x3000⟩].take n))

/-- The first task executes, and then both tasks yield. -/
def oneRound (cpu : Cpu) (vars : SchedVars) : List TaskAct := [.execute cpu vars, .yield, .yield]

/-- The registers are set to their numbers. -/
def Machine.numbered (m : Machine) (sp : DWord) : Cpu :=
  { m.cpu with x := fun r => BitVec.ofNat 64 r, sp }

theorem along_oneRound {G : Machine → TaskAct → Prop} {m : Machine} {cpu : Cpu} {vars : SchedVars}
    (hexecute : G m (.execute cpu vars)) (hyield : ∀ m, G m .yield) :
    Along (taskStep someLayout 0) G m (oneRound cpu vars) :=
  ⟨hexecute, fun _ _ => ⟨hyield _, fun _ _ => ⟨hyield _, fun _ _ => trivial⟩⟩⟩

theorem allowed_execute {m : Machine} {cpu : Cpu} (vars : SchedVars)
    (hcur : m.vars.currentTask = 0) (hmem : cpu.mem = m.cpu.mem)
    (hlow : someLayout.tcb 0 0 + stackOffset ≤ cpu.sp.toNat)
    (hhigh : cpu.sp.toNat ≤ stackTop (someLayout.tcb 0 0)) :
    Allowed someLayout 0 m (.execute cpu vars) := by
  rw [← hcur] at hlow hhigh
  refine ⟨⟨?_, ?_⟩, hlow, hhigh⟩
  · intro i _ k _ _
    rw [hmem]
  · intro i _ _ b _ _ _
    rw [hmem]

theorem hasRoom_execute {m : Machine} {cpu : Cpu} (vars : SchedVars)
    (hcur : m.vars.currentTask = 0)
    (hroom : someLayout.tcb 0 0 + stackOffset + frameSize ≤ cpu.sp.toNat) :
    HasRoom someLayout 0 m (.execute cpu vars) := by
  rwa [← hcur] at hroom

/-- The first of two tasks uses part of its stack and gets its registers back. -/
theorem contexts_kept_oneRound : ∃ m₀ m, startedWith 2 = some m₀ ∧
    exec (taskStep someLayout 0) m₀ (oneRound (m₀.numbered 0x40110700) m₀.vars) = some m ∧
    m.log.length = 3 ∧ ContextsKept someLayout 0 [⟨0, 0, 0x1000⟩, ⟨1, 0, 0x2000⟩] m.log := by
  have heval : ((startedWith 2).bind fun m₀ =>
      (exec (taskStep someLayout 0) m₀ (oneRound (m₀.numbered 0x40110700) m₀.vars)).map fun m =>
        (m₀.vars.currentTask, m.log.length)) = some (0, 3) := by decide +kernel
  obtain ⟨m₀, h₀, heval⟩ := Option.bind_eq_some_iff.1 heval
  obtain ⟨m, hm, heval⟩ := Option.map_eq_some_iff.1 heval
  obtain ⟨hcur, hlen⟩ := Prod.mk.inj heval
  refine ⟨m₀, m, h₀, hm, hlen, ?_⟩
  refine contexts_kept (by decide) bootStack_someBoot h₀ (along_oneRound ?_ fun _ => ?_) hm
  · have hsp : (m₀.numbered 0x40110700).sp = 0x40110700 := rfl
    exact ⟨allowed_execute _ hcur rfl (by rw [hsp]; decide) (by rw [hsp]; decide),
      hasRoom_execute _ hcur (by rw [hsp]; decide), rfl, rfl⟩
  · exact ⟨trivial, trivial, trivial⟩

theorem ContextsKept.at {L : Layout} {core : Fin 4} {jobs : List JobContext} {log : List Dispatch}
    (h : ContextsKept L core jobs log) {k : ℕ} {d : Dispatch} (hd : log[k]? = some d) :
    DispatchOk L core jobs (log.take k) d := by
  obtain ⟨hk, rfl⟩ := List.getElem?_eq_some_iff.1 hd
  apply h _ _ (log.drop (k + 1))
  rw [← List.drop_eq_getElem_cons hk, List.take_append_drop]

/-- Staying on their own stacks is not enough, and neither is leaving room for the frame.

A task that calls `task_yield` with 86 bytes of its stack left gets back an x29 that is the `sp` of
its own TCB. Tasks with enough stack lose their contexts when one of three sets `current_task` to 1
before it yields: the second task then starts where the first has yielded. -/
theorem contexts_not_kept : ¬ KeptUnder (fun L core m a => Allowed L core m a ∧ KeepsVars m a) ∧
    ¬ KeptUnder (fun L core m a => Allowed L core m a ∧ HasRoom L core m a) := by
  constructor
  · intro hkept
    have heval : ((startedWith 2).bind fun m₀ =>
        (exec (taskStep someLayout 0) m₀ (oneRound (m₀.numbered 0x40110060) m₀.vars)).map fun m =>
          (m₀.vars.currentTask, m.log[2]?.map (fun d => (d.new, d.ret.x 29)),
            (m.log.take 2).map Dispatch.new, (lastCall (m.log.take 2) 0).map fun c => c.x 29)) =
        some (0, some (0, 0x40110000), [0, 1], some 29) := by decide +kernel
    obtain ⟨m₀, h₀, heval⟩ := Option.bind_eq_some_iff.1 heval
    obtain ⟨m, hm, heval⟩ := Option.map_eq_some_iff.1 heval
    simp only [Prod.mk.injEq, Option.map_eq_some_iff] at heval
    obtain ⟨hcur, ⟨d, hd, hnew, hret⟩, hdisp, call, hcall, hx⟩ := heval
    have hsp : (m₀.numbered 0x40110060).sp = 0x40110060 := rfl
    have hallowed : Allowed someLayout 0 m₀ (.execute (m₀.numbered 0x40110060) m₀.vars) :=
      allowed_execute _ hcur rfl (by rw [hsp]; decide) (by rw [hsp]; decide)
    have hlog := hkept someLayout 0 _ someBoot 0 m₀ m
      (oneRound (m₀.numbered 0x40110060) m₀.vars) (by decide) bootStack_someBoot h₀
      (along_oneRound ⟨hallowed, rfl, rfl⟩ fun _ => ⟨trivial, trivial⟩) hm
    have hagain : Dispatched (m.log.take 2) d.new := by
      rw [hnew]
      exact List.mem_map.1 (hdisp ▸ List.mem_cons_self)
    obtain ⟨call', hcall', hreturns⟩ := (hlog.at hd).later hagain
    rw [hnew, hcall] at hcall'
    have hback := hreturns.x 29 (by decide : (19 : Fin 31) ≤ 29)
    rw [← Option.some.inj hcall', hx, hret] at hback
    exact absurd hback (by decide)
  · intro hkept
    have heval : ((startedWith 3).bind fun m₀ =>
        (exec (taskStep someLayout 0) m₀
          (oneRound m₀.cpu { m₀.vars with currentTask := 1 })).map fun m =>
            ((m₀.vars.currentTask, m₀.cpu.sp),
              m.log[2]?.map (fun d => (d.new, d.ret.pc)), (m.log.take 2).map Dispatch.new)) =
        some ((0, 0x4011080a), some (1, 0x1000), [0, 2]) := by decide +kernel
    obtain ⟨m₀, h₀, heval⟩ := Option.bind_eq_some_iff.1 heval
    obtain ⟨m, hm, heval⟩ := Option.map_eq_some_iff.1 heval
    simp only [Prod.mk.injEq, Option.map_eq_some_iff] at heval
    obtain ⟨⟨hcur, hsp⟩, ⟨d, hd, hnew, hret⟩, hdisp⟩ := heval
    let vars : SchedVars := { m₀.vars with currentTask := 1 }
    have hallowed : Allowed someLayout 0 m₀ (.execute m₀.cpu vars) :=
      allowed_execute _ hcur rfl (by rw [hsp]; decide) (by rw [hsp]; decide)
    have hroom : HasRoom someLayout 0 m₀ (.execute m₀.cpu vars) :=
      hasRoom_execute _ hcur (by rw [hsp]; decide)
    have hlog := hkept someLayout 0 _ someBoot 0 m₀ m (oneRound m₀.cpu vars) (by decide)
      bootStack_someBoot h₀
      (along_oneRound ⟨hallowed, hroom⟩ fun _ => ⟨trivial, trivial⟩) hm
    have hfresh : ¬ Dispatched (m.log.take 2) d.new := by
      rw [hnew]
      intro hmem
      have hone : 1 ∈ (m.log.take 2).map Dispatch.new := List.mem_map.2 hmem
      rw [hdisp] at hone
      exact absurd hone (by decide)
    obtain ⟨job, hjob, hstarts⟩ := (hlog.at hd).first hfresh
    have hpc := hstarts.pc
    rw [hnew] at hjob
    rw [← Option.some.inj hjob, hret] at hpc
    exact absurd hpc (by decide)

end Gateway
