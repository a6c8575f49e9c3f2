import Gateway.Scheduler.Isolation
import Gateway.Scheduler.Operations

/-!
# The operations are what the statements compute

`Statements` interleaves the four cores statement by statement; `Operations` takes a call as one
step of one core. The first refines the second (`core_refines`): `Core.settled` is the table that
the function in progress is going to leave behind, and only the first statement of a function
changes it. It needs that the functions of a core are not interrupted by its own `sched_tick`, and
that no core registers more than `MAX_TASKS` tasks. What the other cores do does not matter.

`sched_tick` between the two stores of `task_sleep_ms` is what goes wrong otherwise: it compares the
tick counter with the `wake_tick` of the last sleep (`sleep_interrupted`).
-/

namespace Gateway

open Runs

/-- What a core is asked to do. -/
inductive CoreOp where
  | op (o : TaskOp)
  | run
  deriving DecidableEq

namespace TaskTable

/-- One completed operation. Without tasks `sched_run` waits forever: the table stays as it is. -/
def coreStep (t : TaskTable) : CoreOp → Option TaskTable
  | .op o => t.step o
  | .run => some (t.run.getD t)

/-- `task_yield` with the task that `pick_next` has returned. -/
def yieldTo (t : TaskTable) (old new : ℕ) : TaskTable := if old = new then t else t.switch new

/-- The rounds of `sched_tick` from round `i` on. -/
def tickFrom (t : TaskTable) (i : ℕ) : TaskTable :=
  (List.range' i (t.taskCount - i)).foldl tickRound t

/-- The statements of the function in progress that are still to come. -/
def complete (t : TaskTable) : SchedPc → TaskTable
  | .outside | .wfe | .switch .. | .runSwitch => t
  | .add _ idx k =>
    let t := if k ≤ 3 then t.setState idx .ready else t
    let t := if k ≤ 4 then t.setWakeTick idx 0 else t
    { t with taskCount := (t.taskCount + 1) % 2 ^ 32 }
  | .pick old count cur i => t.yieldTo old (pickLoop t.isReady count cur (count + 1 - i) i)
  | .oldReady old new =>
    { (t.setState old .ready).setState new .running with currentTask := new }
  | .newRunning _ new => { t.setState new .running with currentTask := new }
  | .setCurrent _ new => { t with currentTask := new }
  | .sleepWake cur ms => (t.setWakeTick cur (t.tickCount + ms.setWidth 64)).yield
  | .runState => t.setState 0 .running

end TaskTable

/-- The operation that begins with an action. -/
def SchedAct.begins : SchedAct → Option CoreOp
  | .call (.addTask _) => some (.op .addTask)
  | .call .run => some .run
  | .call .yield => some (.op .yield)
  | .call (.sleepMs ms) => some (.op (.sleepMs ms))
  | .tick => some (.op .tick)
  | .next | .switch .. => none

/-- The operations of the core `c`, in the order in which they begin. -/
def opsOf (c : Fin 4) (as : List (Fin 4 × SchedAct)) : List CoreOp :=
  as.filterMap fun a => if a.1 = c then a.2.begins else none

namespace Core

/-- The core is in a task, in `main` or in a `wfe` loop. -/
def BetweenCalls (v : Core) : Prop := v.irq = none ∧ (v.pc = .outside ∨ v.pc = .wfe)

variable (row : ℕ → Tcb) (v : Core)

/-- The variables of a core and its row. -/
def table : TaskTable where
  taskCount := v.taskCount
  currentTask := v.currentTask
  tickCount := v.tickCount
  state i := if i < maxTasks then (row i).state else .ready
  wakeTick i := if i < maxTasks then (row i).wakeTick else 0

/-- The table that the functions in progress will leave behind. -/
def settled : TaskTable :=
  match v.irq with
  | none => (v.table row).complete v.pc
  | some i => ((v.table row).tickFrom i).complete v.pc

end Core

instance instDecidableBetweenCalls (v : Core) : Decidable v.BetweenCalls := by
  unfold Core.BetweenCalls
  infer_instance

/-- The core `c` enters `sched_tick` only between two calls. -/
def NotInterrupted (c : Fin 4) (s : Sched) (a : Fin 4 × SchedAct) : Prop :=
  a.1 = c → a.2.begins = some (.op .tick) → (s.core c).BetweenCalls

instance instDecidableNotInterrupted (c : Fin 4) (s : Sched) (a : Fin 4 × SchedAct) :
    Decidable (NotInterrupted c s a) := by
  unfold NotInterrupted
  infer_instance

/-- The row after a statement. -/
def Effect.row (row : ℕ → Tcb) (e : Effect) : ℕ → Tcb :=
  match e.1 with
  | none => row
  | some (k, t) => Function.update row k t

theorem row_apply (s : Sched) (c : Fin 4) (e : Effect) :
    (s.apply c e).row c = e.row (s.row c) := by
  funext i
  rw [row_apply_self]
  obtain ⟨store, v⟩ := e
  cases store with
  | none => rfl
  | some kt => exact (Function.update_apply ..).symm

/-! ## The rounds of `sched_tick` -/

namespace TaskTable

variable {t : TaskTable} {i : ℕ}

theorem tickFrom_of_lt (h : i < t.taskCount) : t.tickFrom i = (t.tickRound i).tickFrom (i + 1) := by
  have hcount : (t.tickRound i).taskCount = t.taskCount :=
    (ticked_tickRound ⟨rfl, rfl, fun j => .inl rfl⟩ i).taskCount
  have hrounds : t.taskCount - i = t.taskCount - (i + 1) + 1 := by omega
  unfold tickFrom
  rw [hcount, hrounds, List.range'_succ, List.foldl_cons]

theorem tickFrom_of_le (h : t.taskCount ≤ i) : t.tickFrom i = t := by
  unfold tickFrom
  rw [Nat.sub_eq_zero_of_le h, List.range'_zero, List.foldl_nil]

theorem tick_eq_tickFrom : t.tick = { t with tickCount := t.tickCount + 1 }.tickFrom 0 := by
  unfold tick tickFrom
  rw [List.range_eq_range', Nat.sub_zero]

end TaskTable

/-! ## A store and the table -/

section Table

variable {row row' : ℕ → Tcb} {v : Core} {k : ℕ}

theorem table_congr (h : ∀ i < maxTasks, row i = row' i) : v.table row = v.table row' := by
  unfold Core.table
  congr 1
  · funext i
    split
    · next hi => rw [h i hi]
    · rfl
  · funext i
    split
    · next hi => rw [h i hi]
    · rfl

theorem table_state (hk : k < maxTasks) : (v.table row).state k = (row k).state := if_pos hk

theorem table_wakeTick (hk : k < maxTasks) : (v.table row).wakeTick k = (row k).wakeTick :=
  if_pos hk

theorem isReady_table (hk : k < maxTasks) :
    (v.table row).isReady k = true ↔ (row k).state = .ready := by
  rw [TaskTable.isReady_iff, table_state hk]

variable (row v)

theorem table_setState (hk : k < maxTasks) (st : TaskState) :
    v.table (Function.update row k { row k with state := st }) = (v.table row).setState k st := by
  unfold Core.table TaskTable.setState
  congr 1
  · funext i
    by_cases hi : i = k
    · subst hi
      simp [hk]
    · simp [hi]
  · funext i
    by_cases hi : i = k
    · subst hi
      simp
    · simp [hi]

theorem table_setWakeTick (hk : k < maxTasks) (tick : DWord) :
    v.table (Function.update row k { row k with wakeTick := tick }) =
      (v.table row).setWakeTick k tick := by
  unfold Core.table TaskTable.setWakeTick
  congr 1
  · funext i
    by_cases hi : i = k
    · subst hi
      simp
    · simp [hi]
  · funext i
    by_cases hi : i = k
    · subst hi
      simp [hk]
    · simp [hi]

/-- A store to another field. -/
theorem table_other {t : Tcb} (hstate : t.state = (row k).state)
    (hwake : t.wakeTick = (row k).wakeTick) :
    v.table (Function.update row k t) = v.table row := by
  unfold Core.table
  congr 1
  · funext i
    by_cases hi : i = k
    · subst hi
      simp [hstate]
    · simp [hi]
  · funext i
    by_cases hi : i = k
    · subst hi
      simp [hwake]
    · simp [hi]

end Table

/-! ## One statement -/

namespace Core

variable {addr : ℕ → ℕ} {row : ℕ → Tcb} {v : Core} {n : ℕ} {e : Effect}

theorem settled_none (h : v.irq = none) : v.settled row = (v.table row).complete v.pc := by
  unfold settled
  rw [h]

theorem Inv.taskCount_le (h : v.Inv n) (hn : n ≤ maxTasks) : v.taskCount ≤ maxTasks := by
  have := h.count
  omega

theorem Inv.currentTask_lt (h : v.Inv n) (hn : n ≤ maxTasks) : v.currentTask < maxTasks := by
  have hcount := h.taskCount_le hn
  have hcurrent := h.current
  unfold maxTasks at *
  omega

/-- Between two calls nothing is left to do. -/
theorem BetweenCalls.settled (h : v.BetweenCalls) : v.settled row = v.table row := by
  rw [settled_none h.1]
  obtain hpc | hpc := h.2 <;> rw [hpc] <;> rfl

/-- The first statement of a function commits the core to the whole function. -/
theorem Inv.settled_call (h : v.Inv n) {f : SchedCall} {op : CoreOp}
    (hn : n + (if (SchedAct.call f).isAdd then 1 else 0) ≤ maxTasks) (hidle : v.BetweenCalls)
    (hop : (SchedAct.call f).begins = some op) :
    (v.settled row).coreStep op =
      some ((v.call addr row f).2.settled ((v.call addr row f).row row)) := by
  have hcount := h.count
  have hcur := h.currentTask_lt (Nat.le_trans (Nat.le_add_right ..) hn)
  rw [hidle.settled]
  cases f with
  | addTask job =>
    obtain rfl := Option.some.inj hop
    have hlt : v.taskCount < maxTasks := by
      have hn' : n + 1 ≤ maxTasks := hn
      omega
    have htable : v.table (Function.update row v.taskCount
        (addStatement (addr v.taskCount) job (row v.taskCount) 0)) = v.table row :=
      table_other row v rfl rfl
    rw [settled_none (v := (v.call addr row (.addTask job)).2) hidle.1]
    calc (v.table row).coreStep (.op .addTask)
      _ = some (v.table row).addTask := if_pos hlt
      _ = some ((v.table row).complete (.add job v.taskCount 1)) := rfl
      _ = _ := by
        rw [← htable]
        rfl
  | run =>
    obtain rfl := Option.some.inj hop
    by_cases hzero : v.taskCount = 0
    · have hcall : v.call addr row .run = (none, { v with pc := .wfe }) := if_pos hzero
      have hrun : (v.table row).run = none := if_pos hzero
      rw [hcall, settled_none (v := { v with pc := .wfe }) hidle.1]
      unfold TaskTable.coreStep
      rw [hrun]
      rfl
    · have hcall : v.call addr row .run = (none, { v with currentTask := 0, pc := .runState }) :=
        if_neg hzero
      have hrun : (v.table row).run =
          some { (v.table row).setState 0 .running with currentTask := 0 } := if_neg hzero
      rw [hcall, settled_none (v := { v with currentTask := 0, pc := .runState }) hidle.1]
      unfold TaskTable.coreStep
      rw [hrun]
      rfl
  | yield =>
    obtain rfl := Option.some.inj hop
    rw [settled_none (v := (v.call addr row .yield).2) hidle.1]
    rfl
  | sleepMs ms =>
    obtain rfl := Option.some.inj hop
    have htable := table_setState row v hcur .sleeping
    rw [settled_none (v := (v.call addr row (.sleepMs ms)).2) hidle.1]
    calc (v.table row).coreStep (.op (.sleepMs ms))
      _ = some (((v.table row).setState v.currentTask .sleeping).complete
            (.sleepWake v.currentTask ms)) := rfl
      _ = _ := by
        rw [← htable]
        rfl

theorem addStatement_state {k : ℕ} (hk : k ≠ 3) (a : ℕ) (job : JobContext) (t : Tcb) :
    (addStatement a job t k).state = t.state := by
  unfold addStatement
  split
  case h_4 => contradiction
  all_goals rfl

theorem addStatement_wakeTick {k : ℕ} (hk : k ≠ 4) (a : ℕ) (job : JobContext) (t : Tcb) :
    (addStatement a job t k).wakeTick = t.wakeTick := by
  unfold addStatement
  split
  case h_5 => contradiction
  all_goals rfl

/-- A statement of `sched_add_task`: two of them show in the table. -/
theorem complete_add {idx k : ℕ} (hidx : idx < maxTasks) (job : JobContext) (a : ℕ) :
    (v.table (Function.update row idx (addStatement a job (row idx) k))).complete
        (.add job idx (k + 1)) = (v.table row).complete (.add job idx k) := by
  by_cases hk3 : k = 3
  · subst hk3
    exact congrArg (TaskTable.complete · (.add job idx 4)) (table_setState row v hidx .ready)
  by_cases hk4 : k = 4
  · subst hk4
    exact congrArg (TaskTable.complete · (.add job idx 5)) (table_setWakeTick row v hidx 0)
  have hthree : k + 1 ≤ 3 ↔ k ≤ 3 := by omega
  have hfour : k + 1 ≤ 4 ↔ k ≤ 4 := by omega
  rw [table_other row v (addStatement_state hk3 a job _) (addStatement_wakeTick hk4 a job _)]
  unfold TaskTable.complete
  simp only [hthree, hfour]

/-- `task_yield` after `pick_next`. -/
theorem complete_afterPick (new : ℕ) :
    (v.table row).complete (Gateway.afterPick v.currentTask new) =
      (v.table row).yieldTo v.currentTask new := by
  unfold Gateway.afterPick TaskTable.yieldTo
  split
  · rfl
  · rfl

theorem statement_irq (he : v.statement addr row = some e) : e.2.irq = v.irq := by
  unfold Core.statement at he
  split at he <;> grind [Core.beginYield]

/-- A later statement leaves the settled table as it is. -/
theorem Inv.settled_statement (h : v.Inv n) (hn : n ≤ maxTasks) (hirq : v.irq = none)
    (he : v.statement addr row = some e) : e.2.settled (e.row row) = v.settled row := by
  have hcount := h.taskCount_le hn
  have hcur := h.currentTask_lt hn
  have htouched := h.pc_touched_lt hn
  have hok := h.pc
  unfold PcOk at hok
  unfold Core.statement at he
  rw [settled_none hirq, settled_none ((statement_irq he).trans hirq)]
  cases hpc : v.pc with
  | add job idx k =>
    rw [hpc] at he htouched
    dsimp only at he
    split at he
    · next hk =>
      have hidx : idx < maxTasks := htouched idx (by simp [SchedPc.touched, hk])
      obtain rfl := Option.some.inj he
      exact complete_add hidx job (addr idx)
    · next hk =>
      obtain rfl := Option.some.inj he
      unfold TaskTable.complete
      dsimp only
      rw [if_neg (by omega), if_neg (by omega)]
      rfl
  | pick old count cur i =>
    rw [hpc] at he hok
    obtain ⟨-, rfl, rfl, rfl, hi, hile⟩ := hok
    dsimp only at he
    split at he
    · next hle =>
      have hlt : candidate v.taskCount v.currentTask i < maxTasks :=
        Nat.lt_of_lt_of_le (Nat.mod_lt _ (Nat.lt_of_lt_of_le hi hle)) hcount
      -- the round that `pickLoop` makes
      have hround : v.taskCount + 1 - i = v.taskCount - i + 1 := by omega
      have hloop : (v.table row).complete (.pick v.currentTask v.taskCount v.currentTask i) =
          (v.table row).yieldTo v.currentTask
            (if (v.table row).isReady (candidate v.taskCount v.currentTask i)
              then candidate v.taskCount v.currentTask i
              else pickLoop (v.table row).isReady v.taskCount v.currentTask (v.taskCount - i)
                (i + 1)) := by
        unfold TaskTable.complete
        dsimp only
        rw [hround]
        rfl
      rw [hloop]
      split at he
      · next hready =>
        obtain rfl := Option.some.inj he
        rw [if_pos ((isReady_table hlt).2 hready)]
        exact complete_afterPick _
      · next hready =>
        obtain rfl := Option.some.inj he
        have hmod : (i + 1) % 2 ^ 32 = i + 1 := by
          unfold maxTasks at hcount
          omega
        rw [if_neg (mt (isReady_table hlt).1 hready)]
        dsimp only
        rw [hmod, ← Nat.add_sub_add_right v.taskCount 1 i]
        rfl
    · next hgt =>
      obtain rfl := Option.some.inj he
      have hnone : v.taskCount + 1 - i = 0 := by omega
      refine (complete_afterPick v.currentTask).trans ?_
      unfold TaskTable.complete
      dsimp only
      rw [hnone]
      rfl
  | oldReady old new =>
    rw [hpc] at he htouched
    have hold : old < maxTasks := htouched old (by simp [SchedPc.touched])
    obtain rfl := Option.some.inj he
    exact congrArg (TaskTable.complete · (.newRunning old new))
      (table_setState row v hold .ready)
  | newRunning old new =>
    rw [hpc] at he htouched
    have hnew : new < maxTasks := htouched new (by simp [SchedPc.touched])
    obtain rfl := Option.some.inj he
    exact congrArg (TaskTable.complete · (.setCurrent old new))
      (table_setState row v hnew .running)
  | setCurrent old new =>
    rw [hpc] at he
    obtain rfl := Option.some.inj he
    rfl
  | sleepWake cur ms =>
    rw [hpc] at he htouched
    have hcur : cur < maxTasks := htouched cur (by simp [SchedPc.touched])
    obtain rfl := Option.some.inj he
    exact congrArg TaskTable.yield (table_setWakeTick row v hcur (v.tickCount + ms.setWidth 64))
  | runState =>
    rw [hpc] at he
    obtain rfl := Option.some.inj he
    exact table_setState row v (k := 0) (by decide) .running
  | outside | wfe | switch | runSwitch =>
    rw [hpc] at he
    cases he

/-- A round of `sched_tick`. -/
theorem Inv.settled_tickRound (h : v.Inv n) (hn : n ≤ maxTasks) {i : ℕ}
    (hirq : v.irq = some i) :
    (v.tickRound row i).2.settled ((v.tickRound row i).row row) = v.settled row := by
  have hcount := h.taskCount_le hn
  have hsettled : v.settled row = ((v.table row).tickFrom i).complete v.pc := by
    unfold settled
    rw [hirq]
  rw [hsettled]
  by_cases hlt : i < v.taskCount
  · have hi : i < maxTasks := Nat.lt_of_lt_of_le hlt hcount
    have hround : v.tickRound row i =
        (if (row i).state = .sleeping ∧ (row i).wakeTick ≤ v.tickCount
          then some (i, { row i with state := .ready }) else none,
          { v with irq := some (i + 1) }) := if_pos hlt
    have htable : (v.table row).tickRound i = if (row i).state = .sleeping ∧
        (row i).wakeTick ≤ v.tickCount then (v.table row).setState i .ready else v.table row := by
      unfold TaskTable.tickRound
      rw [table_state hi, table_wakeTick hi]
      rfl
    rw [TaskTable.tickFrom_of_lt hlt, htable, hround]
    split
    · rw [← table_setState row v hi .ready]
      rfl
    · rfl
  · have hround : v.tickRound row i = (none, { v with irq := none }) := if_neg hlt
    rw [hround, TaskTable.tickFrom_of_le (Nat.le_of_not_lt hlt)]
    rfl

theorem contextSwitch_irq {sp : DWord} {stack : ByteMemory.Memory}
    (he : v.contextSwitch row sp stack = some e) : e.2.irq = v.irq := by
  unfold Core.contextSwitch at he
  split at he <;> grind

theorem settled_contextSwitch {sp : DWord} {stack : ByteMemory.Memory} (hirq : v.irq = none)
    (he : v.contextSwitch row sp stack = some e) : e.2.settled (e.row row) = v.settled row := by
  rw [settled_none hirq, settled_none ((contextSwitch_irq he).trans hirq)]
  unfold Core.contextSwitch at he
  cases hpc : v.pc with
  | switch old new =>
    rw [hpc] at he
    obtain rfl := Option.some.inj he
    exact table_other row v rfl rfl
  | runSwitch =>
    rw [hpc] at he
    obtain rfl := Option.some.inj he
    rfl
  | outside | wfe | add | pick | oldReady | newRunning | setCurrent | sleepWake | runState =>
    rw [hpc] at he
    cases he

/-- An action that begins an operation commits the core to the whole of it. -/
theorem Inv.settled_begin (h : v.Inv n) {a : SchedAct} {op : CoreOp}
    (hn : n + (if a.isAdd then 1 else 0) ≤ maxTasks) (htick : a = .tick → v.BetweenCalls)
    (hop : a.begins = some op) (he : v.step addr row a = some e) :
    (v.settled row).coreStep op = some (e.2.settled (e.row row)) := by
  unfold Core.step at he
  cases a with
  | call f =>
    obtain ⟨⟨hirq, hpc⟩, he⟩ := Option.ite_none_right_eq_some.1 he
    obtain rfl := Option.some.inj he
    exact h.settled_call hn ⟨hirq, .inl hpc⟩ hop
  | tick =>
    obtain ⟨-, he⟩ := Option.ite_none_right_eq_some.1 he
    obtain rfl := Option.some.inj he
    obtain rfl := Option.some.inj hop
    have hidle := htick rfl
    rw [hidle.settled]
    show some (v.table row).tick = _
    rw [TaskTable.tick_eq_tickFrom]
    obtain hpc | hpc := hidle.2
    · unfold settled
      dsimp only
      rw [hpc]
      rfl
    · unfold settled
      dsimp only
      rw [hpc]
      rfl
  | next | switch => cases hop

/-- The other actions complete it. -/
theorem Inv.settled_continue (h : v.Inv n) {a : SchedAct} (hn : n ≤ maxTasks)
    (hop : a.begins = none) (he : v.step addr row a = some e) :
    e.2.settled (e.row row) = v.settled row := by
  unfold Core.step at he
  cases a with
  | call f => cases f <;> cases hop
  | tick => cases hop
  | next =>
    dsimp only at he
    split at he
    · next i hirq =>
      obtain rfl := Option.some.inj he
      exact h.settled_tickRound hn hirq
    · next hirq => exact h.settled_statement hn hirq he
  | switch sp stack =>
    obtain ⟨hirq, he⟩ := Option.ite_none_right_eq_some.1 he
    exact settled_contextSwitch hirq he

end Core

/-! ## Runs -/

variable {base : ℕ} {c : Fin 4}

/-- What a step of a run needs to be an operation of the core `c`, or nothing. -/
structure Tame (c : Fin 4) (s : Sched) (a : Fin 4 × SchedAct) : Prop where
  inOwnRow : InOwnRow s a
  inv : ∃ n, (s.core c).Inv n ∧ n + (if a.1 = c ∧ a.2.isAdd then 1 else 0) ≤ maxTasks
  notInterrupted : NotInterrupted c s a

theorem along_tame {as : List (Fin 4 × SchedAct)} (hn : ∀ c, adds c as ≤ maxTasks)
    (hticks : Along (schedStep base) (NotInterrupted c) schedStart as) :
    Along (schedStep base) (Tame c) schedStart as := by
  have hinv : Along (schedStep base) (fun s a => ∃ n, (s.core c).Inv n ∧
      n + (if a.1 = c ∧ a.2.isAdd then 1 else 0) ≤ maxTasks) schedStart as := by
    refine along_of_forall_prefix fun pre a s₁ hpre h₁ _ => ⟨adds c pre, ?_, ?_⟩
    · have hle := Nat.le_trans (adds_mono ((List.prefix_append pre [a]).trans hpre) c) (hn c)
      unfold maxTasks at hle
      exact core_inv c h₁ (by omega)
    · rw [← adds_concat]
      exact Nat.le_trans (adds_mono hpre c) (hn c)
  exact ((along_inOwnRow hn).and (hinv.and hticks)).mono fun s a h => ⟨h.1, h.2.1, h.2.2⟩

/-- The table of a core, with the functions in progress completed. -/
def Sched.settled (c : Fin 4) (s : Sched) : TaskTable := (s.core c).settled (s.row c)

/-- The other cores do not show. -/
theorem settled_apply_of_ne {s : Sched} {i : Fin 4} (hi : c ≠ i) {e : Effect}
    (he : ∀ k t, e.1 = some (k, t) → k < maxTasks) :
    (s.apply i e).settled c = s.settled c := by
  have htable : (s.core c).table ((s.apply i e).row c) = (s.core c).table (s.row c) :=
    table_congr fun k hk => row_apply_of_ne hi hk he
  unfold Sched.settled Core.settled
  rw [apply_core_of_ne _ hi, htable]

/-- **Refinement.** Whatever the other cores do, a core that is between two calls has the table that
its operations make of a zeroed one, each taken as one step and in the order in which they began. -/
theorem core_refines {as : List (Fin 4 × SchedAct)} {s : Sched}
    (h : exec (schedStep base) schedStart as = some s) (hn : ∀ c, adds c as ≤ maxTasks)
    (hticks : Along (schedStep base) (NotInterrupted c) schedStart as)
    (hidle : (s.core c).BetweenCalls) :
    exec TaskTable.coreStep (.zero 0) (opsOf c as) = some ((s.core c).table (s.row c)) := by
  have hstart : schedStart.settled c = .zero 0 := by
    show Core.start.table (fun _ => .zero) = _
    unfold Core.table TaskTable.zero
    congr 1 <;> exact funext fun i => ite_self _
  have hsim : ∃ t, exec TaskTable.coreStep (.zero 0) (opsOf c as) = some t ∧ s.settled c = t := by
    refine exec_filterMap (R := fun s t => Sched.settled c s = t) ?_ ?_ (along_tame hn hticks)
      hstart h
    · rintro s ⟨i, a⟩ s' t op htame rfl hs hop
      obtain ⟨rfl, hbegins⟩ := Option.ite_none_right_eq_some.1 hop
      obtain ⟨e, he, rfl⟩ := schedStep_eq_some hs
      obtain ⟨n, hinv, hle⟩ := htame.inv
      simp only [true_and] at hle
      have htick : a = .tick → (s.core i).BetweenCalls := fun ha =>
        htame.notInterrupted rfl (by rw [ha]; rfl)
      refine ⟨_, hinv.settled_begin hle htick hbegins he, ?_⟩
      unfold Sched.settled
      rw [apply_core_self, row_apply]
    · rintro s ⟨i, a⟩ s' t htame rfl hs hop
      obtain ⟨e, he, rfl⟩ := schedStep_eq_some hs
      by_cases hi : i = c
      · subst hi
        obtain ⟨n, hinv, hle⟩ := htame.inv
        rw [if_pos rfl] at hop
        unfold Sched.settled
        rw [apply_core_self, row_apply]
        exact hinv.settled_continue (Nat.le_trans (Nat.le_add_right ..) hle) hop he
      · refine settled_apply_of_ne (Ne.symm hi) fun k t hkt => ?_
        obtain ⟨store, v⟩ := e
        obtain rfl : store = some (k, t) := hkt
        exact inOwnRow_iff.1 htame.inOwnRow k (mem_touched_of_store he)
  obtain ⟨t, ht, heq⟩ := hsim
  rw [ht, ← heq]
  exact congrArg some hidle.settled

/-- `sched_run` with a task. -/
def startsRun (c : Fin 4) : List (Fin 4 × SchedAct) :=
  [(c, .call .run), (c, .next), (c, .switch 0 fun _ => 0)]

/-- Core 0 and Core 1 register a task at the same time, and Core 0 another one. Then the first task
of Core 0 sleeps for 5 ms, and `sched_tick` is called on both cores. -/
def twoCores : List (Fin 4 × SchedAct) :=
  (List.zipWith (fun a b => [a, b]) (registers 0 ⟨0, 0, 0x1000⟩)
      (registers 1 ⟨1, 0, 0x2000⟩)).flatten ++
    registers 0 ⟨2, 0, 0x3000⟩ ++ startsRun 0 ++
    [(0, .call (.sleepMs 5)), (1, .tick), (0, .next), (0, .next), (1, .next), (0, .next),
      (0, .next), (0, .next), (0, .switch 0 fun _ => 0), (0, .tick), (0, .next), (0, .next),
      (0, .next)]

theorem core_refines_twoCores : ∃ s, exec (schedStep 0x40110000) schedStart twoCores = some s ∧
    exec TaskTable.coreStep (.zero 0) (opsOf 0 twoCores) = some ((s.core 0).table (s.row 0)) := by
  have hrun : (exec (schedStep 0x40110000) schedStart twoCores).map
      (fun s => decide (s.core 0).BetweenCalls) = some true := by decide +kernel
  obtain ⟨s, hs, hidle⟩ := Option.map_eq_some_iff.1 hrun
  exact ⟨s, hs, core_refines hs (by decide) (by decide +kernel) (of_decide_eq_true hidle)⟩

/-- The only task of Core 0 sleeps for 5 ms, and `sched_tick` is called between its two stores. -/
def interruptedSleep : List (Fin 4 × SchedAct) :=
  registers 0 ⟨0, 0, 0x1000⟩ ++ startsRun 0 ++
    [(0, .call (.sleepMs 5)), (0, .tick)] ++ List.replicate 4 (0, .next)

/-- The tick that comes between the two stores wakes the task at once. -/
theorem sleep_interrupted : ¬ ∀ (base : ℕ) (as : List (Fin 4 × SchedAct)) (s : Sched) (c : Fin 4),
    exec (schedStep base) schedStart as = some s → (∀ c, adds c as ≤ maxTasks) →
      (s.core c).BetweenCalls →
        exec TaskTable.coreStep (.zero 0) (opsOf c as) = some ((s.core c).table (s.row c)) := by
  intro hall
  have hrun : (exec (schedStep 0) schedStart interruptedSleep).map (fun s =>
      (decide (s.core 0).BetweenCalls, ((s.core 0).table (s.row 0)).state 0)) =
        some (true, .ready) := by decide +kernel
  have hops : (exec TaskTable.coreStep (.zero 0) (opsOf 0 interruptedSleep)).map (·.state 0) =
      some .sleeping := by decide +kernel
  obtain ⟨s, hs, heq⟩ := Option.map_eq_some_iff.1 hrun
  obtain ⟨hidle, hstate⟩ := Prod.mk.inj heq
  rw [hall 0 _ s 0 hs (by decide) (of_decide_eq_true hidle), Option.map_some, hstate] at hops
  cases hops

end Gateway
