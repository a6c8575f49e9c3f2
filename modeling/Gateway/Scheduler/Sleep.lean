import Gateway.Scheduler.CoreInv

/-!
# Sleeping tasks

`task_sleep_ms` marks its caller SLEEPING and calls `task_yield`. If no other task is READY,
`task_yield` returns at once and the caller goes on; otherwise `task_yield` marks the caller READY
before it switches, and the round robin comes back to it after at most one round. No tick is needed
either way, so no positive delay is ever kept (`task_sleep_suspends_iff`).
-/

namespace Gateway

open Runs RoundRobin

variable {base : ℕ}

def SchedAct.isTick : SchedAct → Bool
  | .tick => true
  | _ => false

/-- The number of times `sched_tick` is called on the core `c`. -/
def ticks (c : Fin 4) (as : List (Fin 4 × SchedAct)) : ℕ :=
  as.countP fun a => a.1 = c ∧ a.2.isTick

/-- The core executes the code of the task `i`. -/
def Sched.Executes (s : Sched) (c : Fin 4) (i : ℕ) : Prop :=
  (s.core c).running = some i ∧ (s.core c).pc = .outside ∧ (s.core c).irq = none

instance (s : Sched) (c : Fin 4) (i : ℕ) : Decidable (s.Executes c i) := by
  unfold Sched.Executes
  infer_instance

/-- A call of `task_sleep_ms(ms)` on the core `c` from the state `s` suspends the task `i` that makes
it: however the run goes on, `sched_tick` has been called `ms` times when the task executes again. -/
def Suspends (base : ℕ) (s : Sched) (c : Fin 4) (i : ℕ) (ms : Word) : Prop :=
  ∀ bs s', exec (schedStep base) s ((c, .call (.sleepMs ms)) :: bs) = some s' → s'.Executes c i →
    ms.toNat ≤ ticks c bs

/-! ## Runs without ticks -/

/-- The core `c` comes from `s` to `s'` without a tick. -/
def Tickless (base : ℕ) (c : Fin 4) (s s' : Sched) : Prop :=
  ∃ as, exec (schedStep base) s as = some s' ∧ ticks c as = 0

theorem Tickless.refl (c : Fin 4) (s : Sched) : Tickless base c s s := ⟨[], rfl, rfl⟩

theorem Tickless.trans {c : Fin 4} {s₁ s₂ s₃ : Sched} (h : Tickless base c s₁ s₂)
    (h' : Tickless base c s₂ s₃) : Tickless base c s₁ s₃ := by
  obtain ⟨as, has, hticks⟩ := h
  obtain ⟨bs, hbs, hticks'⟩ := h'
  refine ⟨as ++ bs, exec_append_eq_some.2 ⟨s₂, has, hbs⟩, ?_⟩
  unfold ticks at *
  rw [List.countP_append, hticks, hticks']

theorem Tickless.step {c : Fin 4} {s : Sched} {a : SchedAct} {e : Effect} (ha : ¬ a.isTick)
    (h : (s.core c).step (fun i => tcbAddr base (slot c i)) (s.row c) a = some e) :
    Tickless base c s (s.apply c e) := by
  refine ⟨[(c, a)], exec_cons_eq_some.2 ⟨_, ?_, rfl⟩, ?_⟩
  · unfold schedStep
    dsimp only
    rw [h, Option.map_some]
  · simp [ticks, ha]

/-- The core `c` executes the task `cur`, one of `count`, at `pc`. -/
structure Sched.At (s : Sched) (c : Fin 4) (cur count : ℕ) (pc : SchedPc) : Prop where
  running : (s.core c).running = some cur
  current : (s.core c).currentTask = cur
  count : (s.core c).taskCount = count
  irq : (s.core c).irq = none
  pc : (s.core c).pc = pc

section Tickless

variable {c : Fin 4} {cur count : ℕ} {s : Sched} {pc : SchedPc}

theorem Sched.At.executes (h : s.At c cur count .outside) : s.Executes c cur :=
  ⟨h.running, h.pc, h.irq⟩

/-- A statement that leaves the task and the number of tasks as they are. -/
theorem Sched.At.apply (h : s.At c cur count pc) (store : Option (ℕ × Tcb)) (pc' : SchedPc) :
    (s.apply c (store, { s.core c with pc := pc' })).At c cur count pc' := by
  constructor
  · rw [apply_core_self]; exact h.running
  · rw [apply_core_self]; exact h.current
  · rw [apply_core_self]; exact h.count
  · rw [apply_core_self]; exact h.irq
  · rw [apply_core_self]

theorem Sched.At.next (h : s.At c cur count pc) {e : Effect}
    (he : (s.core c).statement (fun i => tcbAddr base (slot c i)) (s.row c) = some e) :
    Tickless base c s (s.apply c e) := by
  apply Tickless.step (a := .next) Bool.false_ne_true
  unfold Core.step
  dsimp only
  rw [h.irq]
  exact he

theorem Sched.At.beginYield (h : s.At c cur count pc) (store : Option (ℕ × Tcb)) :
    (s.apply c (store, (s.core c).beginYield)).At c cur count (.pick cur count cur 1) := by
  constructor
  · rw [apply_core_self]; exact h.running
  · rw [apply_core_self]; exact h.current
  · rw [apply_core_self]; exact h.count
  · rw [apply_core_self]; exact h.irq
  · rw [apply_core_self, Core.beginYield, h.current, h.count]

variable (base)

/-- A statement that stores the TCB `i`. -/
theorem Sched.At.store (h : s.At c cur count pc) (i : ℕ) (t : Tcb) (pc' : SchedPc)
    (he : (s.core c).statement (fun i => tcbAddr base (slot c i)) (s.row c) =
      some (some (i, t), { s.core c with pc := pc' })) :
    ∃ s', Tickless base c s s' ∧ s'.At c cur count pc' ∧
      ∀ j, s'.row c j = if j = i then t else s.row c j :=
  ⟨_, h.next he, h.apply _ pc', fun _ => row_apply_self⟩

/-- The tasks that are READY. -/
def Sched.readyTask (s : Sched) (c : Fin 4) (i : ℕ) : Bool := (s.row c i).state = .ready

/-- Without ticks, the loop of `pick_next` is the scan of the round robin. -/
theorem pick_tickless (hcur : cur < count) (hcount : count < 2 ^ 31) {k i : ℕ}
    (hki : i + k = count + 1) (h : s.At c cur count (.pick cur count cur i)) :
    ∃ s', Tickless base c s s' ∧ s'.row c = s.row c ∧
      s'.At c cur count (afterPick cur (scan (s.readyTask c) count cur k i)) := by
  induction k generalizing i s with
  | zero =>
    refine ⟨_, h.next ?_, ?_, h.apply none _⟩
    · unfold Core.statement
      rw [h.pc]
      exact if_neg (by omega)
    · rfl
  | succ k ih =>
    have hcand : candidate count cur i = (cur + i) % count := candidate_eq (by omega)
    by_cases hready : (s.row c ((cur + i) % count)).state = .ready
    · have hscan : scan (s.readyTask c) count cur (k + 1) i = (cur + i) % count :=
        if_pos (decide_eq_true hready)
      rw [hscan]
      refine ⟨_, h.next ?_, ?_, h.apply none _⟩
      · unfold Core.statement
        rw [h.pc]
        dsimp only
        rw [hcand, if_pos (by omega), if_pos hready]
      · rfl
    · have hscan : scan (s.readyTask c) count cur (k + 1) i =
          scan (s.readyTask c) count cur k (i + 1) :=
        if_neg fun h => hready (of_decide_eq_true h)
      have hstep : Tickless base c s
          (s.apply c (none, { s.core c with pc := .pick cur count cur (i + 1) })) := by
        apply h.next
        unfold Core.statement
        rw [h.pc]
        dsimp only
        rw [hcand, if_pos (by omega), if_neg hready, Nat.mod_eq_of_lt (by omega)]
      obtain ⟨s', hs', hrow, hat⟩ := ih (by omega) (h.apply none (.pick cur count cur (i + 1)))
      refine ⟨s', hstep.trans hs', hrow, ?_⟩
      rw [hscan]
      exact hat

/-- The state of the TCBs after the core has switched from `cur` to `new`. -/
def switchedState (s : Sched) (c : Fin 4) (cur new j : ℕ) : TaskState :=
  if j = new then .running else if j = cur then .ready else (s.row c j).state

/-- The rest of `task_yield`, once another task is picked. -/
theorem switch_tickless {new : ℕ} (h : s.At c cur count (.oldReady cur new)) :
    ∃ s', Tickless base c s s' ∧ s'.At c new count .outside ∧
      ∀ j, (s'.row c j).state = switchedState s c cur new j := by
  obtain ⟨s₁, hs₁, h₁, hrow₁⟩ := h.store base cur
    { s.row c cur with state := .ready } (.newRunning cur new) <| by
      unfold Core.statement
      rw [h.pc]
  obtain ⟨s₂, hs₂, h₂, hrow₂⟩ := h₁.store base new
    { s₁.row c new with state := .running } (.setCurrent cur new) <| by
      unfold Core.statement
      rw [h₁.pc]
  let v₃ : Core := { s₂.core c with currentTask := new, pc := .switch cur new }
  have hs₃ : Tickless base c s₂ (s₂.apply c (none, v₃)) := by
    apply h₂.next
    unfold Core.statement
    rw [h₂.pc]
  generalize hg₃ : s₂.apply c (none, v₃) = s₃ at hs₃
  have hcore₃ : s₃.core c = v₃ := by rw [← hg₃, apply_core_self]
  have hrow₃ : s₃.row c = s₂.row c := by rw [← hg₃]; rfl
  let v₄ : Core := { v₃ with pc := .outside, running := some new }
  let t₄ : Tcb := { s₃.row c cur with sp := 0, stack := fun _ => 0 }
  have hs₄ : Tickless base c s₃ (s₃.apply c (some (cur, t₄), v₄)) := by
    apply Tickless.step (a := .switch 0 fun _ => 0) Bool.false_ne_true
    unfold Core.step Core.contextSwitch
    rw [hcore₃]
    exact if_pos h₂.irq
  refine ⟨_, hs₁.trans (hs₂.trans (hs₃.trans hs₄)), ?_, fun j => ?_⟩
  · constructor
    · rw [apply_core_self]
    · rw [apply_core_self]
    · rw [apply_core_self]; exact h₂.count
    · rw [apply_core_self]; exact h₂.irq
    · rw [apply_core_self]
  · have hstate : ((s₃.apply c (some (cur, t₄), v₄)).row c j).state = (s₃.row c j).state := by
      rw [row_apply_self]
      dsimp only
      split
      · next hj => rw [hj]
      · rfl
    rw [hstate, hrow₃, hrow₂, hrow₁]
    unfold switchedState
    split
    · rfl
    · rw [hrow₁]
      split
      · rfl
      · rfl

/-- `task_yield`: the core goes on with the next task of the round robin. -/
theorem yield_tickless (hcur : cur < count) (hcount : count < 2 ^ 31)
    (h : s.At c cur count (.pick cur count cur 1)) :
    ∃ s', Tickless base c s s' ∧
      s'.At c (RoundRobin.next (s.readyTask c) count cur) count .outside ∧
      ∀ j, RoundRobin.next (s.readyTask c) count cur ≠ cur →
        (s'.row c j).state =
          switchedState s c cur (RoundRobin.next (s.readyTask c) count cur) j := by
  obtain ⟨s₁, hs₁, hrow, h₁⟩ := pick_tickless base hcur hcount (Nat.add_comm 1 count) h
  change s₁.At c cur count (afterPick cur (RoundRobin.next (s.readyTask c) count cur)) at h₁
  unfold afterPick at h₁
  split at h₁
  · next heq =>
    rw [← heq]
    exact ⟨s₁, hs₁, h₁, fun j hne => absurd rfl hne⟩
  · obtain ⟨s₂, hs₂, h₂, hstate⟩ := switch_tickless base h₁
    refine ⟨s₂, hs₁.trans hs₂, h₂, fun j _ => ?_⟩
    rw [hstate j]
    unfold switchedState
    rw [hrow]

/-- **Round robin.** The core comes round to every READY task without a tick. -/
theorem comes_round (hcount : count < 2 ^ 31) {i : ℕ} (hi : i < count) :
    ∀ d cur s, cur < count → distance count cur i ≤ d → s.At c cur count .outside → cur ≠ i →
      (s.row c i).state = .ready → ∃ s', Tickless base c s s' ∧ s'.Executes c i := by
  intro d
  induction d with
  | zero =>
    intro cur s hcur hd h hne hready
    exact absurd ((distance_eq_zero hcur hi).1 (Nat.le_zero.1 hd)).symm hne
  | succ d ih =>
    intro cur s hcur hd h hne hready
    have hcall : Tickless base c s (s.apply c (none, (s.core c).beginYield)) := by
      apply Tickless.step (a := .call .yield) Bool.false_ne_true
      exact if_pos ⟨h.irq, h.pc⟩
    obtain ⟨s₁, hs₁, h₁, hstate⟩ :=
      yield_tickless base hcur hcount (h.beginYield none)
    have htask : s.readyTask c i := decide_eq_true hready
    have hcloser := next_closer hcur hi htask (Ne.symm hne)
    change s₁.At c (RoundRobin.next (s.readyTask c) count cur) count .outside at h₁
    change ∀ j, RoundRobin.next (s.readyTask c) count cur ≠ cur → (s₁.row c j).state =
      switchedState s c cur (RoundRobin.next (s.readyTask c) count cur) j at hstate
    by_cases hnext : RoundRobin.next (s.readyTask c) count cur = i
    · rw [hnext] at h₁
      exact ⟨s₁, hcall.trans hs₁, h₁.executes⟩
    · have hmoved : RoundRobin.next (s.readyTask c) count cur ≠ cur := by
        intro hsame
        rw [hsame] at hcloser
        exact absurd hcloser (Nat.lt_irrefl _)
      have hready₁ : (s₁.row c i).state = .ready := by
        rw [hstate i hmoved]
        unfold switchedState
        rw [if_neg (Ne.symm hnext), if_neg (Ne.symm hne), hready]
      obtain ⟨s₂, hs₂, hex⟩ := ih _ s₁ (next_lt _ hcur) (by omega) h₁ hnext hready₁
      exact ⟨s₂, hcall.trans (hs₁.trans hs₂), hex⟩

/-- A task that sleeps comes to execute again without a tick. -/
theorem sleeper_returns {i : ℕ} (hi : i < count) (hcount : count < 2 ^ 31)
    (h : s.At c i count .outside) (ms : Word) :
    ∃ bs s', exec (schedStep base) s ((c, .call (.sleepMs ms)) :: bs) = some s' ∧
      s'.Executes c i ∧ ticks c bs = 0 := by
  let asleep : Tcb := { s.row c i with state := .sleeping }
  let s₁ := s.apply c (some (i, asleep), { s.core c with pc := .sleepWake i ms })
  have hcall : schedStep base s (c, .call (.sleepMs ms)) = some s₁ := by
    unfold schedStep Core.step
    dsimp only
    rw [if_pos ⟨h.irq, h.pc⟩, Option.map_some, Core.call]
    simp only [s₁, asleep, ← h.current]
  have h₁ : s₁.At c i count (.sleepWake i ms) := h.apply _ _
  let woken : Tcb := { s₁.row c i with wakeTick := (s₁.core c).tickCount + ms.setWidth 64 }
  have hs₂ : Tickless base c s₁ (s₁.apply c (some (i, woken), (s₁.core c).beginYield)) := by
    apply h₁.next
    unfold Core.statement
    rw [h₁.pc]
  obtain ⟨s₃, hs₃, h₃, hstate⟩ :=
    yield_tickless base hi hcount (h₁.beginYield (some (i, woken)))
  have hnew := next_lt ((s₁.apply c (some (i, woken), (s₁.core c).beginYield)).readyTask c) hi
  generalize RoundRobin.next _ count i = new at h₃ hstate hnew
  have hback : ∃ s₄, Tickless base c s₃ s₄ ∧ s₄.Executes c i := by
    by_cases hsame : new = i
    · rw [hsame] at h₃
      exact ⟨s₃, .refl c s₃, h₃.executes⟩
    · -- `task_yield` has marked the caller READY, so its turn comes
      have hready : (s₃.row c i).state = .ready := by
        rw [hstate i hsame]
        unfold switchedState
        rw [if_neg (Ne.symm hsame), if_pos rfl]
      exact comes_round base hcount hi _ new s₃ hnew (Nat.le_refl _) h₃ hsame hready
  obtain ⟨s₄, hs₄, hex⟩ := hback
  obtain ⟨bs, hbs, hticks⟩ := hs₂.trans (hs₃.trans hs₄)
  exact ⟨bs, s₄, exec_cons_eq_some.2 ⟨s₁, hcall, hbs⟩, hex, hticks⟩

end Tickless

/-- **Sleeping.** In every run, as long as `task_count` does not overflow, `task_sleep_ms(ms)`
suspends the task that calls it only if `ms` is 0. -/
theorem task_sleep_suspends_iff {as : List (Fin 4 × SchedAct)} {s : Sched} {c : Fin 4} {i : ℕ}
    (ms : Word) (h : exec (schedStep base) schedStart as = some s) (hn : adds c as < 2 ^ 31)
    (hi : s.Executes c i) : Suspends base s c i ms ↔ ms = 0 := by
  have hinv := core_inv c h hn
  obtain ⟨hrun, hpc, hirq⟩ := hi
  have hok := hinv.pc
  unfold Core.PcOk at hok
  rw [hpc] at hok
  obtain ⟨hcurrent, hlt⟩ := hok i hrun
  have hcount : (s.core c).taskCount < 2 ^ 31 := by
    have := hinv.count
    omega
  have hat : s.At c i (s.core c).taskCount .outside := ⟨hrun, hcurrent, rfl, hirq, hpc⟩
  constructor
  · intro hsusp
    obtain ⟨bs, s', hbs, hex, hticks⟩ := sleeper_returns base hlt hcount hat ms
    have hle := hsusp bs s' hbs hex
    rw [hticks] at hle
    exact BitVec.eq_of_toNat_eq (Nat.le_zero.1 hle)
  · rintro rfl
    intro bs s' _ _
    exact Nat.zero_le _

/-- One task is registered on Core 0 and started. -/
def oneTask : List (Fin 4 × SchedAct) :=
  (0, .call (.addTask ⟨0, 0, 0x1000⟩)) :: List.replicate 7 (0, .next) ++
    [(0, .call .run), (0, .next), (0, .switch 0x40204000 fun _ => 0)]

theorem task_sleep_suspends_oneTask : ∃ s, exec (schedStep 0x40110000) schedStart oneTask = some s ∧
    (Suspends 0x40110000 s 0 0 5 ↔ (5 : Word) = 0) := by
  have heval : (exec (schedStep 0x40110000) schedStart oneTask).map
      (fun s => decide (s.Executes 0 0)) = some true := by decide +kernel
  obtain ⟨s, hs, hex⟩ := Option.map_eq_some_iff.1 heval
  exact ⟨s, hs, task_sleep_suspends_iff 5 hs (by decide) (of_decide_eq_true hex)⟩

/-- The only task of Core 0 calls `task_sleep_ms(5)`, which returns without a tick. -/
theorem task_sleep_returns_at_once : ¬ ∀ (base : ℕ) (as : List (Fin 4 × SchedAct)) (s : Sched)
    (c : Fin 4) (i : ℕ) (ms : Word), exec (schedStep base) schedStart as = some s →
      s.Executes c i → Suspends base s c i ms := by
  intro hall
  let back : List (Fin 4 × SchedAct) := [(0, .next), (0, .next), (0, .next)]
  have heval : ((exec (schedStep 0x40110000) schedStart oneTask).bind fun s =>
      (exec (schedStep 0x40110000) s ((0, .call (.sleepMs 5)) :: back)).map fun s' =>
        (decide (s.Executes 0 0), decide (s'.Executes 0 0))) = some (true, true) := by
    decide +kernel
  obtain ⟨s, hs, heval⟩ := Option.bind_eq_some_iff.1 heval
  obtain ⟨s', hs', hex⟩ := Option.map_eq_some_iff.1 heval
  obtain ⟨hcall, hret⟩ := Prod.mk.inj hex
  have hle := hall _ _ s 0 0 5 hs (of_decide_eq_true hcall) back s' hs' (of_decide_eq_true hret)
  exact absurd hle (by decide)

end Gateway
