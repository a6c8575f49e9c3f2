import Mathlib.Data.List.ReduceOption
import Gateway.Scheduler.TaskStates

/-!
# Taking turns

While a task waits READY, every `task_yield` switches, and it switches to a task that is nearer to
the waiting one in the circle. So no task is switched in twice before the waiting task is, whatever
the states of the others are and however sleeps and ticks change them (`no_overtaking`).
-/

namespace Gateway.TaskTable

open Runs RoundRobin

/-! ## The statement -/

/-- The task that `task_yield` switches in. -/
def yieldsTo (t : TaskTable) : Option ℕ :=
  if t.currentTask = t.pickNext then none else some t.pickNext

/-- The task that the operation switches in. -/
def switchedIn (t : TaskTable) : TaskOp → Option ℕ
  | .yield => t.yieldsTo
  | .sleepMs ms => (t.markSleeping ms).yieldsTo
  | .addTask | .tick => none

/-- The tasks that are switched in, in order. -/
def switches (t : TaskTable) (ops : List TaskOp) : List ℕ :=
  (labels step switchedIn t ops).reduceOption

/-- If the operation calls `task_yield`, it performs a switch. -/
def Switches (t : TaskTable) (op : TaskOp) : Prop :=
  (op = .yield ∨ ∃ ms, op = .sleepMs ms) → (t.switchedIn op).isSome

/-- The run from `t` to `t'` does not overtake the task `j`, one of `n`: until it is switched in it
stays READY, every `task_yield` switches, and no task is switched in twice; the switch number `n - 1`
comes too late for it. -/
structure WithoutOvertaking (n j : ℕ) (t t' : TaskTable) (ops : List TaskOp) : Prop where
  ready : j ∉ t.switches ops → t'.state j = .ready
  switches : j ∉ t.switches ops → Along step Switches t ops
  once : j ∉ t.switches ops → (t.switches ops).Nodup
  bound : n - 1 ≤ (t.switches ops).length → j ∈ (t.switches ops).take (n - 1)

/-! ## Waiting -/

variable {t t' : TaskTable} {op : TaskOp} {n j : ℕ} {ops : List TaskOp}

theorem switches_cons (h : t.step op = some t') :
    t.switches (op :: ops) = (t.switchedIn op).toList ++ t'.switches ops := by
  unfold switches
  rw [labels_cons h]
  cases t.switchedIn op with
  | none => rfl
  | some i => exact List.reduceOption_cons_of_some i _

/-- The task `j` waits: it is READY and not the current one. -/
structure Waits (n j : ℕ) (t : TaskTable) : Prop extends t.InBounds where
  total : t.taskCount = n
  lt : j < n
  ne : j ≠ t.currentTask
  ready : t.state j = .ready

theorem Waits.markSleeping (h : t.Waits n j) (ms : Word) : (t.markSleeping ms).Waits n j where
  toInBounds := h.toInBounds.markSleeping ms
  total := h.total
  lt := h.lt
  ne := h.ne
  ready := by
    rw [markSleeping_state, if_neg h.ne]
    exact h.ready

theorem Waits.tick (h : t.Waits n j) : t.tick.Waits n j := by
  obtain ⟨hcount, hcurrent, hstate⟩ := ticked_tick t
  have hs : t.step .tick = some t.tick := rfl
  constructor
  · exact h.toInBounds.step hs
  · rw [hcount]
    exact h.total
  · exact h.lt
  · rw [hcurrent]
    exact h.ne
  · obtain heq | ⟨-, heq⟩ := hstate j
    · rw [heq]
      exact h.ready
    · exact heq

/-- A task that is switched in next to a waiting one. -/
structure Nearer (n j : ℕ) (t t' : TaskTable) (i : ℕ) : Prop where
  current : t'.currentTask = i
  closer : distance n i j < distance n t.currentTask j
  waits : i ≠ j → t'.Waits n j

/-- While `j` waits, `task_yield` switches to a task nearer to it. -/
theorem Waits.yield (h : t.Waits n j) :
    ∃ i, t.yieldsTo = some i ∧ Nearer n j t t.yield i := by
  have hj : j < t.taskCount := by
    rw [h.total]
    exact h.lt
  obtain ⟨hne, -, heq⟩ := h.yield_eq_switch hj h.ne h.ready
  have hcloser := h.pickNext_closer hj h.ne h.ready
  rw [h.total] at hcloser
  refine ⟨t.pickNext, if_neg (Ne.symm hne), ?_⟩
  rw [heq]
  refine ⟨rfl, hcloser, fun hij => ?_⟩
  constructor
  · exact h.toInBounds.switch h.pickNext_lt
  · exact h.total
  · exact h.lt
  · exact Ne.symm hij
  · rw [switch_state, if_neg (Ne.symm hij), if_neg h.ne]
    exact h.ready

/-- One operation of a run with a fixed set of tasks: a tick, or a `task_yield` that switches to a
task nearer to the one that waits. -/
theorem Waits.step (h : t.Waits n j) (hop : op ≠ .addTask) (hs : t.step op = some t') :
    t.Switches op ∧ (t.switchedIn op = none ∧ t'.currentTask = t.currentTask ∧ t'.Waits n j ∨
      ∃ i, t.switchedIn op = some i ∧ Nearer n j t t' i) := by
  cases op with
  | addTask => exact absurd rfl hop
  | yield =>
    obtain rfl := Option.some.inj hs
    obtain ⟨i, hi, hnearer⟩ := h.yield
    refine ⟨fun _ => ?_, .inr ⟨i, hi, hnearer⟩⟩
    rw [switchedIn, hi]
    rfl
  | sleepMs ms =>
    obtain rfl := Option.some.inj hs
    obtain ⟨i, hi, hcurrent, hcloser, hwaits⟩ := (h.markSleeping ms).yield
    refine ⟨fun _ => ?_, .inr ⟨i, hi, hcurrent, hcloser, hwaits⟩⟩
    rw [switchedIn, hi]
    rfl
  | tick =>
    obtain rfl := Option.some.inj hs
    refine ⟨?_, .inl ⟨rfl, (ticked_tick t).currentTask, h.tick⟩⟩
    rintro (hop | ⟨ms, hop⟩) <;> cases hop

/-- What holds at the end of a run in which `j` has waited: the tasks that were switched in came
nearer and nearer to it. -/
structure Waited (n j : ℕ) (t t' : TaskTable) (ops : List TaskOp) : Prop where
  waits : t'.Waits n j
  switches : Along TaskTable.step Switches t ops
  nearer : (t.switches ops).Pairwise fun a b => distance n b j < distance n a j
  below : ∀ i ∈ t.switches ops, distance n i j < distance n t.currentTask j

theorem Waits.run (h : t.Waits n j) (hops : .addTask ∉ ops)
    (hexec : exec TaskTable.step t ops = some t') (hj : j ∉ t.switches ops) :
    Waited n j t t' ops := by
  induction ops generalizing t with
  | nil =>
    obtain rfl := Option.some.inj hexec
    exact ⟨h, trivial, .nil, fun i hi => nomatch hi⟩
  | cons op ops ih =>
    have hop : op ≠ .addTask := Ne.symm (List.ne_of_not_mem_cons hops)
    have hrest : .addTask ∉ ops := List.not_mem_of_not_mem_cons hops
    obtain ⟨t₁, hs, hexec⟩ := exec_cons_eq_some.1 hexec
    obtain ⟨hsw, ⟨hnone, hcurrent, hw⟩ | ⟨i, hi, hnearer⟩⟩ := h.step hop hs
    · rw [switches_cons hs, hnone] at hj
      obtain ⟨hwaits, halong, hpair, hbelow⟩ := ih hw hrest hexec hj
      refine ⟨hwaits, (along_cons_of_step _ _ hs).2 ⟨hsw, halong⟩, ?_, ?_⟩
      · rwa [switches_cons hs, hnone]
      · rw [switches_cons hs, hnone, ← hcurrent]
        exact hbelow
    · rw [switches_cons hs, hi] at hj
      have hij : j ≠ i := List.ne_of_not_mem_cons hj
      have hj : j ∉ t₁.switches ops := List.not_mem_of_not_mem_cons hj
      obtain ⟨hwaits, halong, hpair, hbelow⟩ := ih (hnearer.waits (Ne.symm hij)) hrest hexec hj
      rw [hnearer.current] at hbelow
      refine ⟨hwaits, (along_cons_of_step _ _ hs).2 ⟨hsw, halong⟩, ?_, ?_⟩
      · rw [switches_cons hs, hi]
        exact List.pairwise_cons.2 ⟨hbelow, hpair⟩
      · rw [switches_cons hs, hi]
        rintro k hk
        obtain rfl | hk := List.mem_cons.1 hk
        · exact hnearer.closer
        · exact Nat.lt_trans (hbelow k hk) hnearer.closer

/-- `j` is switched in before its distance is used up. -/
theorem Waits.bound (h : t.Waits n j) (hops : .addTask ∉ ops)
    (hexec : exec TaskTable.step t ops = some t') {d : ℕ} (hd : distance n t.currentTask j ≤ d)
    (hlen : d ≤ (t.switches ops).length) : j ∈ (t.switches ops).take d := by
  induction ops generalizing t d with
  | nil =>
    have hzero : distance n t.currentTask j = 0 := Nat.le_zero.1 (Nat.le_trans hd hlen)
    have hcurrent := h.current
    rw [h.total] at hcurrent
    exact absurd ((distance_eq_zero hcurrent h.lt).1 hzero) h.ne
  | cons op ops ih =>
    have hop : op ≠ .addTask := Ne.symm (List.ne_of_not_mem_cons hops)
    have hrest : .addTask ∉ ops := List.not_mem_of_not_mem_cons hops
    obtain ⟨t₁, hs, hexec⟩ := exec_cons_eq_some.1 hexec
    obtain ⟨-, ⟨hnone, hcurrent, hw⟩ | ⟨i, hi, hnearer⟩⟩ := h.step hop hs
    · rw [switches_cons hs, hnone] at hlen ⊢
      rw [← hcurrent] at hd
      exact ih hw hrest hexec hd hlen
    · rw [switches_cons hs, hi] at hlen ⊢
      have hcloser := hnearer.closer
      obtain ⟨d, rfl⟩ : ∃ d', d = d' + 1 := ⟨d - 1, by omega⟩
      show j ∈ i :: (t₁.switches ops).take d
      by_cases hij : i = j
      · exact hij ▸ List.mem_cons_self
      · refine List.mem_cons_of_mem i (ih (hnearer.waits hij) hrest hexec ?_ ?_)
        · rw [hnearer.current]
          omega
        · exact Nat.le_of_succ_le_succ hlen

theorem Waits.withoutOvertaking (h : t.Waits n j) (hops : .addTask ∉ ops)
    (hexec : exec TaskTable.step t ops = some t') : WithoutOvertaking n j t t' ops where
  ready hj := (h.run hops hexec hj).waits.ready
  switches hj := (h.run hops hexec hj).switches
  once hj := (h.run hops hexec hj).nearer.imp fun hlt heq => by
    rw [heq] at hlt
    exact Nat.lt_irrefl _ hlt
  bound hlen := by
    have hcurrent := h.current
    rw [h.total] at hcurrent
    have hlt : distance n t.currentTask j < n := distance_lt hcurrent
    exact h.bound hops hexec (by omega) hlen

/-! ## Only yields -/

/-- If every other task is READY, `task_yield` goes to the next task in the circle. -/
theorem Turns.yield_currentTask (h : t.Turns) :
    t.yield.currentTask = (t.currentTask + 1) % t.taskCount := by
  have hcurrent := h.current
  have hlt : (t.currentTask + 1) % t.taskCount < t.taskCount := Nat.mod_lt _ (by omega)
  by_cases hone : t.taskCount = 1
  · obtain ⟨-, heq⟩ | ⟨hne, -⟩ := h.yield_cases
    · rw [heq]
      omega
    · have := h.pickNext_lt
      omega
  · have hne : (t.currentTask + 1) % t.taskCount ≠ t.currentTask := by
      by_cases hlast : t.currentTask + 1 = t.taskCount
      · rw [hlast, Nat.mod_self]
        omega
      · rw [Nat.mod_eq_of_lt (by omega)]
        omega
    have hready := h.ready hlt hne
    obtain ⟨-, -, heq⟩ := h.yield_eq_switch hlt hne hready
    rw [heq, switch_currentTask, h.pickNext_eq]
    exact next_eq_succ hcurrent (isReady_iff.2 hready)

/-- After `k` yields and any ticks, the task `k` places on is the current one. -/
theorem Turns.yields (h : t.Turns) (hops : ∀ op ∈ ops, op = .yield ∨ op = .tick)
    (hexec : exec TaskTable.step t ops = some t') :
    t'.currentTask = (t.currentTask + ops.count .yield) % t.taskCount := by
  induction ops generalizing t with
  | nil =>
    obtain rfl := Option.some.inj hexec
    exact (Nat.mod_eq_of_lt h.current).symm
  | cons op ops ih =>
    obtain ⟨hop, hrest⟩ := List.forall_mem_cons.1 hops
    obtain ⟨t₁, hs, hexec⟩ := exec_cons_eq_some.1 hexec
    obtain rfl | rfl := hop
    · obtain rfl := Option.some.inj hs
      have hcount : t.yield.taskCount = t.taskCount := by
        obtain ⟨-, heq⟩ | ⟨-, -, heq⟩ := h.yield_cases <;> rw [heq]
        rfl
      rw [ih h.yield hrest hexec, hcount, h.yield_currentTask, List.count_cons_self,
        Nat.mod_add_mod, Nat.add_right_comm, Nat.add_assoc]
    · obtain rfl := Option.some.inj hs
      obtain ⟨hcount, hcurrent, -⟩ := ticked_tick t
      rw [ih h.tick hrest hexec, hcount, hcurrent, List.count_cons_of_ne (by decide)]

/-- **Round robin without overtaking.** In every run from `sched_run` on with `n` tasks, a task that
is READY and not current is not overtaken, however tasks yield and sleep and ticks come. If the
tasks only yield, the task that is current after `k` yields is `k % n`. -/
theorem no_overtaking {tick₀ : DWord} {t₀ : TaskTable} (hn : n ≤ maxTasks)
    (hstart : started n tick₀ = some t₀) :
    (∀ ops t, .addTask ∉ ops → exec TaskTable.step t₀ ops = some t → ∀ j < n, j ≠ t.currentTask →
      t.state j = .ready → ∀ ops' t', .addTask ∉ ops' → exec TaskTable.step t ops' = some t' →
        WithoutOvertaking n j t t' ops') ∧
    ∀ ops t, (∀ op ∈ ops, op = .yield ∨ op = .tick) → exec TaskTable.step t₀ ops = some t →
      t.currentTask = ops.count .yield % n := by
  have hspec := started_spec hn hstart
  constructor
  · intro ops t hops hexec j hj hne hready ops' t' hops' hexec'
    have hfixed : Along TaskTable.step (fun _ op => op ≠ .addTask) t₀ ops :=
      along_of_forall fun op hop heq => hops (heq ▸ hop)
    have hinv : t.InBounds ∧ t.taskCount = n := by
      refine exec_invariant_along (I := fun t => t.InBounds ∧ t.taskCount = n) ?_
        ⟨hspec.inBounds hn, hspec.count⟩ hfixed hexec
      rintro t op t' ⟨hbounds, hcount⟩ hop hs
      exact ⟨hbounds.step hs, by rw [← hcount]; exact hbounds.step_taskCount hop hs⟩
    exact Waits.withoutOvertaking ⟨hinv.1, hinv.2, hj, hne, hready⟩ hops' hexec'
  · intro ops t hops hexec
    rw [(hspec.turns hn).yields hops hexec, hspec.current, hspec.count, Nat.zero_add]

/-- The first of three tasks sleeps while the third one waits. -/
theorem no_overtaking_three : ∃ t₀ t, started 3 0 = some t₀ ∧
    exec TaskTable.step t₀ [.sleepMs 5, .tick, .yield] = some t ∧
    WithoutOvertaking 3 2 t₀ t [.sleepMs 5, .tick, .yield] ∧
    t₀.switches [.sleepMs 5, .tick, .yield] = [1, 2] :=
  ⟨_, _, rfl, rfl, (no_overtaking (by decide) rfl).1 [] _ (by decide) rfl 2 (by decide) (by decide)
    rfl _ _ (by decide) rfl, by decide⟩

end Gateway.TaskTable
