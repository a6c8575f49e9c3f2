import Gateway.Lib.Isolation
import Gateway.Scheduler.CoreInv

/-!
# Isolation of the cores

A statement of one core touches the TCBs named by `Core.touched`: it depends on no others
(`step_congr`) and stores no others (`mem_touched_of_store`). While these lie in the core's own row,
the cores are isolated from each other. They do as long as no core registers more than `MAX_TASKS`
tasks, and no longer: `sched_add_task` does not compare `task_count` with `MAX_TASKS`, so the ninth
registration goes into the next core's row (`scheduler_isolated_iff`).
-/

namespace Gateway

open Runs Isolation

/-- The TCBs that the next statement about tasks reads or stores. -/
def SchedPc.touched : SchedPc → List ℕ
  | .add _ idx k => if k < 7 then [idx] else []
  | .pick _ count cur i => if i ≤ count then [candidate count cur i] else []
  | .oldReady old _ => [old]
  | .newRunning _ new => [new]
  | .switch old new => [old, new]
  | .sleepWake cur _ => [cur]
  | .runState | .runSwitch => [0]
  | .outside | .wfe | .setCurrent .. => []

/-- The TCBs, counted from the start of the core's row, that a statement reads or stores. -/
def Core.touched (v : Core) : SchedAct → List ℕ
  | .call (.addTask _) => [v.taskCount]
  | .call (.sleepMs _) => [v.currentTask]
  | .call .run | .call .yield | .tick => []
  | .next =>
    match v.irq with
    | some i => if i < v.taskCount then [i] else []
    | none => v.pc.touched
  | .switch .. => v.pc.touched

/-- The statement touches only the row of the core that executes it. -/
def InOwnRow (s : Sched) (a : Fin 4 × SchedAct) : Prop :=
  ∀ j ∈ ((s.core a.1).touched a.2).map (slot a.1), ∃ i < maxTasks, j = slot a.1 i

/-- A core's scheduler state: its variables and its row. -/
def Sched.view (c : Fin 4) (s : Sched) : Core × (Fin maxTasks → Tcb) :=
  (s.core c, fun i => s.row c i)

/-- Every call touches only the row and the variables of its own core, and every core ends as after
its own calls alone. -/
def IsolatedRun (base : ℕ) (as : List (Fin 4 × SchedAct)) : Prop :=
  Along (schedStep base) InOwnRow schedStart as ∧
    ∀ s, exec (schedStep base) schedStart as = some s → ∀ c, ∃ t,
      exec (schedStep base) schedStart (actionsOf c as) = some t ∧ t.view c = s.view c

theorem slot_inj {c c' : Fin 4} {i i' : ℕ} (hi : i < maxTasks) (hi' : i' < maxTasks)
    (h : slot c i = slot c' i') : c = c' ∧ i = i' := by
  unfold slot maxTasks at *
  omega

section Step

variable {addr : ℕ → ℕ} {row row' : ℕ → Tcb} {v : Core}

theorem statement_congr (h : ∀ i ∈ v.pc.touched, row i = row' i) :
    v.statement addr row = v.statement addr row' := by
  unfold Core.statement
  cases hpc : v.pc with
  | add job idx k =>
    rw [hpc] at h
    dsimp only
    split
    · next hk => rw [h idx (by simp [SchedPc.touched, hk])]
    · rfl
  | pick old count cur i =>
    rw [hpc] at h
    dsimp only
    split
    · next hi => rw [h (candidate count cur i) (by simp [SchedPc.touched, hi])]
    · rfl
  | oldReady old new =>
    rw [hpc] at h
    dsimp only
    rw [h old (by simp [SchedPc.touched])]
  | newRunning old new =>
    rw [hpc] at h
    dsimp only
    rw [h new (by simp [SchedPc.touched])]
  | sleepWake cur ms =>
    rw [hpc] at h
    dsimp only
    rw [h cur (by simp [SchedPc.touched])]
  | runState =>
    rw [hpc] at h
    dsimp only
    rw [h 0 (by simp [SchedPc.touched])]
  | outside | wfe | setCurrent | switch | runSwitch => rfl

/-- A statement depends on the TCBs it touches only. -/
theorem step_congr {a : SchedAct} (h : ∀ i ∈ v.touched a, row i = row' i) :
    v.step addr row a = v.step addr row' a := by
  unfold Core.step
  cases a with
  | call f =>
    cases f with
    | addTask job => dsimp only [Core.call]; rw [h v.taskCount (by simp [Core.touched])]
    | sleepMs ms => dsimp only [Core.call]; rw [h v.currentTask (by simp [Core.touched])]
    | run | yield => rfl
  | tick => rfl
  | next =>
    unfold Core.touched at h
    dsimp only at h ⊢
    split
    · next i hi =>
      rw [hi] at h
      unfold Core.tickRound
      by_cases hlt : i < v.taskCount
      · rw [h i (by simp [hlt])]
      · rw [if_neg hlt, if_neg hlt]
    · next hi =>
      rw [hi] at h
      exact statement_congr h
  | switch sp stack =>
    dsimp only
    unfold Core.contextSwitch
    cases hpc : v.pc with
    | switch old new =>
      have hmem : old ∈ v.touched (.switch sp stack) := by simp [Core.touched, SchedPc.touched, hpc]
      dsimp only
      rw [h old hmem]
    | _ => rfl

theorem mem_touched_of_statement {i : ℕ} {t : Tcb} {v' : Core}
    (h : v.statement addr row = some (some (i, t), v')) : i ∈ v.pc.touched := by
  unfold Core.statement at h
  unfold SchedPc.touched
  cases hpc : v.pc with
  | add job idx k =>
    rw [hpc] at h
    dsimp only at h ⊢
    split at h
    · next hlt =>
      cases h
      simp [hlt]
    · cases h
  | pick old count cur k =>
    rw [hpc] at h
    dsimp only at h
    split at h
    · split at h <;> cases h
    · cases h
  | _ =>
    rw [hpc] at h
    cases h <;> exact List.mem_singleton_self _

/-- A statement stores no TCB that it does not touch. -/
theorem mem_touched_of_store {a : SchedAct} {i : ℕ} {t : Tcb} {v' : Core}
    (h : v.step addr row a = some (some (i, t), v')) : i ∈ v.touched a := by
  unfold Core.step at h
  unfold Core.touched
  cases a with
  | call f =>
    obtain ⟨-, h⟩ := Option.ite_none_right_eq_some.1 h
    cases f with
    | addTask job | sleepMs ms =>
      obtain ⟨rfl, -⟩ := Prod.mk.inj (Option.some.inj (Prod.mk.inj (Option.some.inj h)).1)
      exact List.mem_singleton_self _
    | run =>
      unfold Core.call at h
      dsimp only at h
      split at h <;> cases h
    | yield => cases h
  | tick =>
    obtain ⟨-, h⟩ := Option.ite_none_right_eq_some.1 h
    cases h
  | next =>
    cases hirq : v.irq with
    | some k =>
      rw [hirq] at h
      dsimp only [Core.tickRound] at h ⊢
      by_cases hlt : k < v.taskCount
      · rw [if_pos hlt] at h
        rw [if_pos hlt]
        split at h
        · cases h
          exact List.mem_singleton_self _
        · cases h
      · rw [if_neg hlt] at h
        cases h
    | none =>
      rw [hirq] at h
      exact mem_touched_of_statement h
  | switch sp stack =>
    obtain ⟨-, h⟩ := Option.ite_none_right_eq_some.1 h
    unfold Core.contextSwitch at h
    cases hpc : v.pc with
    | switch old new =>
      rw [hpc] at h
      cases h
      simp [SchedPc.touched]
    | _ =>
      rw [hpc] at h
      cases h

theorem Core.Inv.pc_touched_lt {n : ℕ} (h : v.Inv n) (hn : n ≤ maxTasks) :
    ∀ i ∈ v.pc.touched, i < maxTasks := by
  intro i hi
  have hcount := h.count
  have hcurrent := h.current
  have hok := h.pc
  unfold maxTasks at *
  unfold PcOk at hok
  unfold SchedPc.touched at hi
  cases hpc : v.pc with
  | add job idx k =>
    rw [hpc] at hi hok hcount
    obtain ⟨-, rfl⟩ := hok
    have hcount' : v.taskCount + 1 = n := hcount
    dsimp only at hi
    split at hi
    · rw [List.mem_singleton.1 hi]
      omega
    · cases hi
  | pick old count cur k =>
    rw [hpc] at hi hok
    obtain ⟨-, -, -, rfl, hk, -⟩ := hok
    dsimp only at hi
    split at hi
    · next hle =>
      rw [List.mem_singleton.1 hi]
      have hlt : candidate v.taskCount cur k < v.taskCount := Nat.mod_lt _ (by omega)
      omega
    · cases hi
  | oldReady old new | newRunning old new =>
    rw [hpc] at hi hok
    obtain ⟨-, rfl, hnew⟩ := hok
    rw [List.mem_singleton.1 hi]
    omega
  | switch old new =>
    rw [hpc] at hi hok
    obtain ⟨hold, rfl⟩ := hok
    obtain rfl | hi := List.mem_cons.1 hi
    · omega
    · rw [List.mem_singleton.1 hi]
      omega
  | sleepWake cur ms =>
    rw [hpc] at hi hok
    obtain ⟨-, rfl⟩ := hok
    rw [List.mem_singleton.1 hi]
    omega
  | runState | runSwitch =>
    rw [hpc] at hi
    rw [List.mem_singleton.1 hi]
    omega
  | outside | wfe | setCurrent =>
    rw [hpc] at hi
    cases hi

/-- The TCBs that a core touches while its registrations fit in its row. -/
theorem Core.Inv.touched_lt {n : ℕ} (h : v.Inv n) {a : SchedAct}
    (hn : n + (if a.isAdd then 1 else 0) ≤ maxTasks) : ∀ i ∈ v.touched a, i < maxTasks := by
  have hpc := h.pc_touched_lt (Nat.le_trans (Nat.le_add_right ..) hn)
  have hcount := h.count
  have hcurrent := h.current
  unfold maxTasks at *
  unfold Core.touched
  cases a with
  | call f =>
    cases f with
    | addTask job =>
      intro i hi
      rw [List.mem_singleton.1 hi]
      have : n + 1 ≤ 8 := hn
      omega
    | sleepMs ms =>
      intro i hi
      rw [List.mem_singleton.1 hi]
      omega
    | run | yield => exact fun i hi => nomatch hi
  | tick => exact fun i hi => nomatch hi
  | next =>
    intro i hi
    dsimp only at hi
    split at hi
    · split at hi
      · rw [List.mem_singleton.1 hi]
        omega
      · cases hi
    · exact hpc i hi
  | switch sp stack => exact hpc

end Step

/-! ## The cores -/

variable {base : ℕ}

theorem inOwnRow_iff {s : Sched} {a : Fin 4 × SchedAct} :
    InOwnRow s a ↔ ∀ i ∈ (s.core a.1).touched a.2, i < maxTasks := by
  unfold InOwnRow
  simp only [List.forall_mem_map]
  refine forall₂_congr fun i _ => ⟨?_, fun hi => ⟨i, hi, rfl⟩⟩
  rintro ⟨k, hk, h⟩
  unfold slot at h
  omega

theorem row_apply_of_ne {s : Sched} {c c' : Fin 4} (hc : c' ≠ c) {e : Effect} {i : ℕ}
    (hi : i < maxTasks) (he : ∀ k t, e.1 = some (k, t) → k < maxTasks) :
    (s.apply c e).row c' i = s.row c' i := by
  obtain ⟨store, v⟩ := e
  cases store with
  | none => rfl
  | some kt =>
    obtain ⟨k, t⟩ := kt
    apply Function.update_of_ne
    intro h
    exact hc (slot_inj hi (he k t rfl) h).1

/-- Statements that stay in their row keep the cores apart. -/
theorem unwinding_inOwnRow : Unwinding (schedStep base) Sched.view InOwnRow where
  others s i j x s' hrow hs hne := by
    obtain ⟨e, he, rfl⟩ := schedStep_eq_some hs
    have hstore : ∀ k t, e.1 = some (k, t) → k < maxTasks := by
      intro k t hkt
      obtain ⟨store, v⟩ := e
      obtain rfl : store = some (k, t) := hkt
      exact inOwnRow_iff.1 hrow k (mem_touched_of_store he)
    unfold Sched.view
    rw [apply_core_of_ne _ (Ne.symm hne)]
    congr 1
    funext k
    exact row_apply_of_ne (Ne.symm hne) k.isLt hstore
  own s t i x s' hrow hv hs := by
    obtain ⟨e, he, rfl⟩ := schedStep_eq_some hs
    obtain ⟨hcore, hrows⟩ := Prod.mk.inj hv
    have hsame : ∀ k, k < maxTasks → t.row i k = s.row i k := fun k hk => congrFun hrows ⟨k, hk⟩
    refine ⟨t.apply i e, ?_, ?_⟩
    · unfold schedStep
      have hread : ∀ k ∈ (s.core i).touched x, t.row i k = s.row i k := fun k hk =>
        hsame k (inOwnRow_iff.1 hrow k hk)
      rw [hcore, step_congr hread, he]
      rfl
    · unfold Sched.view
      rw [apply_core_self, apply_core_self]
      congr 1
      funext k
      rw [row_apply_self, row_apply_self, hsame k k.isLt]

theorem adds_mono {as bs : List (Fin 4 × SchedAct)} (h : as <+: bs) (c : Fin 4) :
    adds c as ≤ adds c bs := h.sublist.countP_le

theorem along_inOwnRow {as : List (Fin 4 × SchedAct)} (hn : ∀ c, adds c as ≤ maxTasks) :
    Along (schedStep base) InOwnRow schedStart as := by
  refine along_of_forall_prefix fun pre a s₁ hpre h₁ _ => ?_
  have hadds := Nat.le_trans (adds_mono hpre a.1) (hn a.1)
  rw [adds_concat] at hadds
  simp only [true_and] at hadds
  have hlt : adds a.1 pre < 2 ^ 31 := by
    unfold maxTasks at hadds
    omega
  exact inOwnRow_iff.2 ((core_inv a.1 h₁ hlt).touched_lt hadds)

/-- A run with more than `n` registrations of one core reaches one that comes after `n` others. -/
theorem exists_registration {c : Fin 4} {n : ℕ} {as : List (Fin 4 × SchedAct)}
    (h : n < adds c as) :
    ∃ pre job, pre ++ [(c, .call (.addTask job))] <+: as ∧ adds c pre = n := by
  induction as using List.reverseRecOn with
  | nil => exact absurd h (Nat.not_lt_zero n)
  | append_singleton as a ih =>
    by_cases hlt : n < adds c as
    · obtain ⟨pre, job, hpre, hn⟩ := ih hlt
      exact ⟨pre, job, hpre.trans (List.prefix_append as [a]), hn⟩
    · rw [adds_concat] at h
      obtain ⟨i, x⟩ := a
      by_cases ha : i = c ∧ x.isAdd
      · rw [if_pos ha] at h
        obtain ⟨rfl, hx⟩ := ha
        unfold SchedAct.isAdd at hx
        split at hx
        · next job => exact ⟨as, job, List.prefix_refl _, by omega⟩
        · cases hx
      · rw [if_neg ha] at h
        omega

/-- **Isolation.** In a run of the four cores every call stays in its core's row, and every core ends
as after its own calls alone, as long as no core registers more than `MAX_TASKS` tasks; the ninth
registration of a core leaves its row. -/
theorem scheduler_isolated_iff {as : List (Fin 4 × SchedAct)} {s : Sched}
    (h : exec (schedStep base) schedStart as = some s) :
    (∀ pre, pre <+: as → IsolatedRun base pre) ↔ ∀ c, adds c as ≤ maxTasks := by
  constructor
  · intro hiso c
    by_contra hgt
    obtain ⟨pre, job, hpre, hn⟩ := exists_registration (Nat.not_le.1 hgt)
    obtain ⟨rest, rfl⟩ := hpre
    obtain ⟨s₂, h₂, -⟩ := exec_append_eq_some.1 h
    obtain ⟨s₁, h₁, hs⟩ := exec_concat_eq_some.1 h₂
    have hinv := core_inv c h₁ (by rw [hn]; decide)
    have hrow : InOwnRow s₁ (c, .call (.addTask job)) :=
      ((along_append h₁).1 (hiso _ (List.prefix_append _ _)).1).2.1
    obtain ⟨e, he, -⟩ := schedStep_eq_some hs
    have hpc : (s₁.core c).pc = .outside := (Option.ite_none_right_eq_some.1 he).1.2
    have hcount := hinv.count
    rw [hpc, hn] at hcount
    have hlt := inOwnRow_iff.1 hrow (s₁.core c).taskCount (List.mem_singleton_self _)
    have hzero : SchedPc.outside.pending = 0 := rfl
    omega
  · intro hn pre hpre
    have hrow : Along (schedStep base) InOwnRow schedStart pre :=
      along_inOwnRow fun c => Nat.le_trans (adds_mono hpre c) (hn c)
    refine ⟨hrow, fun s' h' c => ?_⟩
    exact unwinding_inOwnRow.alone hrow h' rfl

/-- A call of `sched_add_task`, from its first statement to its last. -/
def registers (c : Fin 4) (job : JobContext) : List (Fin 4 × SchedAct) :=
  (c, .call (.addTask job)) :: List.replicate 7 (c, .next)

/-- Core 1 registers a task with entry point `0x2000`; then Core 0 registers nine tasks with entry
point `0x1000`. -/
def overrun : List (Fin 4 × SchedAct) :=
  registers 1 ⟨1, 0, 0x2000⟩ ++ (List.replicate 9 (registers 0 ⟨0, 0, 0x1000⟩)).flatten

theorem scheduler_isolated_eight :
    (∀ pre, pre <+: overrun.take 72 → IsolatedRun 0x40110000 pre) ↔
      ∀ c, adds c (overrun.take 72) ≤ maxTasks := by
  have h : (exec (schedStep 0x40110000) schedStart (overrun.take 72)).isSome := by decide +kernel
  obtain ⟨s, hs⟩ := Option.isSome_iff_exists.1 h
  exact scheduler_isolated_iff hs

/-- The ninth task of Core 0 takes the place of the first task of Core 1. -/
theorem scheduler_overruns_row :
    ¬ ∀ (base : ℕ) (as : List (Fin 4 × SchedAct)) (s : Sched),
      exec (schedStep base) schedStart as = some s → IsolatedRun base as := by
  intro hall
  have hrun : (exec (schedStep 0x40110000) schedStart overrun).map
      (fun s => (s.row 1 0).entry) = some 0x1000 := by decide +kernel
  have halone : (exec (schedStep 0x40110000) schedStart (actionsOf 1 overrun)).map
      (fun s => (s.row 1 0).entry) = some 0x2000 := by decide +kernel
  obtain ⟨s, hs, hentry⟩ := Option.map_eq_some_iff.1 hrun
  obtain ⟨t, ht, hview⟩ := (hall _ _ s hs).2 s hs 1
  rw [ht] at halone
  have hrow : t.row 1 0 = s.row 1 0 := congrFun (congrArg Prod.snd hview) ⟨0, by decide⟩
  rw [Option.map_some, hrow, hentry] at halone
  exact absurd (Option.some.inj halone) (by decide)

end Gateway
