import Gateway.Scheduler.Statements

/-!
# The variables of a core along a run

As long as `task_count` does not overflow, it is the number of the core's registrations, and every
index that a function holds is that of a registered task (`Core.Inv`). This is about the core's
variables alone: it does not depend on the TCBs, nor on the other cores.
-/

namespace Gateway

open Runs

/-- A call of `sched_add_task`. -/
def SchedAct.isAdd : SchedAct → Bool
  | .call (.addTask _) => true
  | _ => false

/-- The number of calls of `sched_add_task` that the core `c` makes. -/
def adds (c : Fin 4) (as : List (Fin 4 × SchedAct)) : ℕ :=
  as.countP fun a => a.1 = c ∧ a.2.isAdd

theorem adds_concat (c : Fin 4) (as : List (Fin 4 × SchedAct)) (a : Fin 4 × SchedAct) :
    adds c (as ++ [a]) = adds c as + if a.1 = c ∧ a.2.isAdd then 1 else 0 := by
  simp [adds, List.countP_append, List.countP_singleton]

/-- The registration that is not counted yet. -/
def SchedPc.pending : SchedPc → ℕ
  | .add .. => 1
  | _ => 0

/-- The running task is the current one, and it is registered. -/
def Core.RunsCurrent (v : Core) : Prop :=
  ∀ r, v.running = some r → v.currentTask = r ∧ r < v.taskCount

/-- The indices that the function in progress holds. -/
def Core.PcOk (v : Core) : Prop :=
  match v.pc with
  | .outside | .wfe => v.RunsCurrent
  | .add _ idx _ => v.RunsCurrent ∧ idx = v.taskCount
  | .sleepWake cur _ => v.RunsCurrent ∧ cur = v.currentTask
  | .pick old count cur i =>
    v.RunsCurrent ∧ old = v.currentTask ∧ cur = v.currentTask ∧ count = v.taskCount ∧ 1 ≤ i ∧
      i ≤ count + 1
  | .oldReady old new | .newRunning old new | .setCurrent old new =>
    v.RunsCurrent ∧ old = v.currentTask ∧ new < v.taskCount
  | .switch old new => old < v.taskCount ∧ new = v.currentTask
  | .runState | .runSwitch => v.currentTask = 0 ∧ 0 < v.taskCount

/-- The variables of a core that has called `sched_add_task` `n` times. -/
structure Core.Inv (v : Core) (n : ℕ) : Prop where
  count : v.taskCount + v.pc.pending = n
  current : v.currentTask = 0 ∨ v.currentTask < v.taskCount
  pc : v.PcOk

theorem core_inv_start : Core.start.Inv 0 := ⟨rfl, .inl rfl, fun _ h => nomatch h⟩

section Step

variable {addr : ℕ → ℕ} {row : ℕ → Tcb} {v : Core} {n : ℕ}

theorem Core.Inv.beginYield (h : v.Inv n) (hp : v.pc.pending = 0) (hr : v.RunsCurrent) :
    v.beginYield.Inv n where
  count := by
    have := h.count
    rw [hp] at this
    exact this
  current := h.current
  pc := ⟨hr, rfl, rfl, rfl, Nat.le_refl 1, Nat.le_add_left 1 _⟩

/-- After `pick_next` the task yields to a registered one or goes on. -/
theorem Core.Inv.afterPick (h : v.Inv n) (hp : v.pc.pending = 0) (hr : v.RunsCurrent) {new : ℕ}
    (hnew : v.currentTask ≠ new → new < v.taskCount) :
    { v with pc := afterPick v.currentTask new }.Inv n := by
  have hcount := h.count
  rw [hp] at hcount
  unfold Gateway.afterPick
  split
  · exact ⟨hcount, h.current, hr⟩
  · next hne => exact ⟨hcount, h.current, hr, rfl, hnew hne⟩

theorem Core.Inv.call (h : v.Inv n) (hpc : v.pc = .outside) (f : SchedCall) :
    (v.call addr row f).2.Inv (n + if (SchedAct.call f).isAdd then 1 else 0) := by
  have hcount := h.count
  have hr := h.pc
  unfold PcOk at hr
  rw [hpc] at hcount hr
  cases f with
  | addTask job =>
    refine ⟨?_, h.current, hr, rfl⟩
    show v.taskCount + 1 = n + 1
    rw [← hcount]
    rfl
  | run =>
    show (ite (v.taskCount = 0) (_ : Effect) _).2.Inv n
    split
    · exact ⟨hcount, h.current, hr⟩
    · next hne => exact ⟨hcount, .inl rfl, rfl, Nat.pos_of_ne_zero hne⟩
  | yield => exact h.beginYield (by rw [hpc]; rfl) hr
  | sleepMs ms => exact ⟨hcount, h.current, hr, rfl⟩

theorem Core.Inv.statement (h : v.Inv n) (hn : n < 2 ^ 31) {e : Effect}
    (he : v.statement addr row = some e) : e.2.Inv n := by
  have hcount := h.count
  have hok := h.pc
  unfold PcOk at hok
  unfold Core.statement at he
  cases hpc : v.pc with
  | add job idx k =>
    rw [hpc] at he hok hcount
    obtain ⟨hr, hidx⟩ := hok
    dsimp only at he
    split at he
    · obtain rfl := Option.some.inj he
      exact ⟨hcount, h.current, hr, hidx⟩
    · obtain rfl := Option.some.inj he
      have hmod : (v.taskCount + 1) % 2 ^ 32 = v.taskCount + 1 := by
        have : v.taskCount + 1 = n := hcount
        omega
      refine ⟨hmod.trans hcount, ?_, fun r hrun => ⟨(hr r hrun).1, ?_⟩⟩
      · have := h.current
        show v.currentTask = 0 ∨ v.currentTask < (v.taskCount + 1) % 2 ^ 32
        omega
      · have := (hr r hrun).2
        show _ < (v.taskCount + 1) % 2 ^ 32
        omega
  | pick old count cur i =>
    rw [hpc] at he hok
    obtain ⟨hr, rfl, rfl, rfl, hi, hile⟩ := hok
    have hp : v.pc.pending = 0 := by rw [hpc]; rfl
    dsimp only at he
    split at he
    · next hle =>
      split at he
      · obtain rfl := Option.some.inj he
        exact h.afterPick hp hr fun _ => Nat.mod_lt _ (by omega)
      · obtain rfl := Option.some.inj he
        have hle' : v.taskCount ≤ n := by omega
        have hmod : (i + 1) % 2 ^ 32 = i + 1 := Nat.mod_eq_of_lt (by omega)
        rw [hp] at hcount
        refine ⟨hcount, h.current, hr, rfl, rfl, rfl, ?_, ?_⟩
        · show 1 ≤ (i + 1) % 2 ^ 32
          omega
        · show (i + 1) % 2 ^ 32 ≤ v.taskCount + 1
          omega
    · obtain rfl := Option.some.inj he
      exact h.afterPick hp hr fun hne => absurd rfl hne
  | oldReady old new =>
    rw [hpc] at he hok hcount
    obtain rfl := Option.some.inj he
    exact ⟨hcount, h.current, hok⟩
  | newRunning old new =>
    rw [hpc] at he hok hcount
    obtain rfl := Option.some.inj he
    exact ⟨hcount, h.current, hok⟩
  | setCurrent old new =>
    rw [hpc] at he hok hcount
    obtain rfl := Option.some.inj he
    obtain ⟨-, rfl, hnew⟩ := hok
    refine ⟨hcount, .inr hnew, ?_, rfl⟩
    have := h.current
    show v.currentTask < v.taskCount
    omega
  | sleepWake cur ms =>
    rw [hpc] at he hok
    obtain rfl := Option.some.inj he
    exact h.beginYield (by rw [hpc]; rfl) hok.1
  | runState =>
    rw [hpc] at he hok hcount
    obtain rfl := Option.some.inj he
    exact ⟨hcount, h.current, hok⟩
  | outside | wfe | switch | runSwitch =>
    rw [hpc] at he
    cases he

theorem Core.Inv.contextSwitch (h : v.Inv n) {sp : DWord} {stack : ByteMemory.Memory} {e : Effect}
    (he : v.contextSwitch row sp stack = some e) : e.2.Inv n := by
  have hcount := h.count
  have hok := h.pc
  unfold PcOk at hok
  unfold Core.contextSwitch at he
  cases hpc : v.pc with
  | switch old new =>
    rw [hpc] at he hok hcount
    obtain rfl := Option.some.inj he
    obtain ⟨hold, rfl⟩ := hok
    refine ⟨hcount, h.current, fun r hr => ?_⟩
    obtain rfl := Option.some.inj hr
    have := h.current
    refine ⟨rfl, ?_⟩
    show v.currentTask < v.taskCount
    omega
  | runSwitch =>
    rw [hpc] at he hok hcount
    obtain rfl := Option.some.inj he
    refine ⟨hcount, h.current, fun r hr => ?_⟩
    obtain rfl := Option.some.inj hr
    exact hok
  | outside | wfe | add | pick | oldReady | newRunning | setCurrent | sleepWake | runState =>
    rw [hpc] at he
    cases he

theorem Core.Inv.tickRound (h : v.Inv n) (i : ℕ) : (v.tickRound row i).2.Inv n := by
  unfold Core.tickRound
  split
  · exact ⟨h.count, h.current, h.pc⟩
  · exact ⟨h.count, h.current, h.pc⟩

/-- What one statement preserves. -/
theorem Core.Inv.step (h : v.Inv n) {a : SchedAct}
    (hn : n + (if a.isAdd then 1 else 0) < 2 ^ 31) {e : Effect}
    (he : v.step addr row a = some e) : e.2.Inv (n + if a.isAdd then 1 else 0) := by
  unfold Core.step at he
  cases a with
  | call f =>
    obtain ⟨⟨-, hpc⟩, he⟩ := Option.ite_none_right_eq_some.1 he
    obtain rfl := Option.some.inj he
    exact h.call hpc f
  | tick =>
    obtain ⟨-, he⟩ := Option.ite_none_right_eq_some.1 he
    obtain rfl := Option.some.inj he
    exact ⟨h.count, h.current, h.pc⟩
  | next =>
    dsimp only at he
    split at he
    · obtain rfl := Option.some.inj he
      exact h.tickRound _
    · exact h.statement hn he
  | switch sp stack =>
    obtain ⟨-, he⟩ := Option.ite_none_right_eq_some.1 he
    exact h.contextSwitch he

end Step

/-! ## Runs -/

variable {base : ℕ}

theorem schedStep_eq_some {s s' : Sched} {a : Fin 4 × SchedAct} (h : schedStep base s a = some s') :
    ∃ e, (s.core a.1).step (fun i => tcbAddr base (slot a.1 i)) (s.row a.1) a.2 = some e ∧
      s' = s.apply a.1 e := by
  obtain ⟨e, he, rfl⟩ := Option.map_eq_some_iff.1 h
  exact ⟨e, he, rfl⟩

@[simp] theorem apply_core_self (s : Sched) (c : Fin 4) (e : Effect) : (s.apply c e).core c = e.2 :=
  Function.update_self ..

@[simp] theorem apply_core_of_ne (s : Sched) {c c' : Fin 4} (h : c' ≠ c) (e : Effect) :
    (s.apply c e).core c' = s.core c' := Function.update_of_ne h ..

theorem row_apply_self {s : Sched} {c : Fin 4} {e : Effect} {i : ℕ} :
    (s.apply c e).row c i =
      match e.1 with
      | none => s.row c i
      | some (k, t) => if i = k then t else s.row c i := by
  obtain ⟨store, v⟩ := e
  cases store with
  | none => rfl
  | some kt =>
    obtain ⟨k, t⟩ := kt
    show Function.update s.pool (slot c k) t (slot c i) = if i = k then t else s.pool (slot c i)
    by_cases hik : i = k
    · rw [hik, Function.update_self, if_pos rfl]
    · have hne : slot c i ≠ slot c k := by
        unfold slot
        omega
      rw [Function.update_of_ne hne, if_neg hik]

/-- **Indices.** The variables of a core whose `task_count` does not overflow. -/
theorem core_inv {as : List (Fin 4 × SchedAct)} {s : Sched} (c : Fin 4)
    (h : exec (schedStep base) schedStart as = some s) (hn : adds c as < 2 ^ 31) :
    (s.core c).Inv (adds c as) := by
  induction as using List.reverseRecOn generalizing s with
  | nil =>
    obtain rfl := Option.some.inj h
    exact core_inv_start
  | append_singleton as a ih =>
    obtain ⟨s₁, h₁, hs⟩ := exec_concat_eq_some.1 h
    obtain ⟨e, he, rfl⟩ := schedStep_eq_some hs
    rw [adds_concat] at hn ⊢
    have hinv := ih h₁ (by omega)
    obtain ⟨i, x⟩ := a
    by_cases hc : i = c
    · subst hc
      rw [apply_core_self]
      simp only [true_and] at hn ⊢
      exact hinv.step hn he
    · rw [apply_core_of_ne _ (Ne.symm hc), if_neg fun h => hc h.1]
      exact hinv

end Gateway
