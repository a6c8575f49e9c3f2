import Mathlib.Data.List.Induction
import Gateway.Lib.CriticalSection

/-!
# Linearizability of critical sections

If every operation, executed with nothing in between, does what `run` says (`Completes`), then in
every interleaving the completed operations, in the order in which they release their locks, are a
sequential execution of `run` with the same results; what it leaves in the memory of a lock is there
whenever the lock is not held (`linearizable`). The order is that of each core's calls
(`callsOf_eq`).
-/

set_option linter.unusedSectionVars false

namespace CriticalSection

open Runs

variable {Core Lock Op Local Mem Ret : Type*} [DecidableEq Core] [DecidableEq Lock]

/-- From `l` with memory `m`, the accesses of an operation end with the memory and result `x`. -/
inductive Completes (K : Client Core Lock Op Local Mem Ret) : Local → Mem → Mem × Ret → Prop where
  | last {l m m' r} (h : K.access l m = (m', .inr r)) : Completes K l m (m', r)
  | next {l m m₁ l₁ x} (h : K.access l m = (m₁, .inl l₁)) (hx : Completes K l₁ m₁ x) :
    Completes K l m x

/-- From `l` with memory `m`, accesses lead to `l'` with memory `m'`; each is made in a place and
memory that satisfy `Q`. -/
inductive Reaches (K : Client Core Lock Op Local Mem Ret) (Q : Local → Mem → Prop) :
    Local → Mem → Local → Mem → Prop where
  | refl (l m) : Reaches K Q l m l m
  | next {l m m₁ l₁ l' m'} (hQ : Q l m) (h : K.access l m = (m₁, .inl l₁))
    (hr : Reaches K Q l₁ m₁ l' m') : Reaches K Q l m l' m'

omit [DecidableEq Core] [DecidableEq Lock] in
theorem Reaches.trans {K : Client Core Lock Op Local Mem Ret} {Q : Local → Mem → Prop}
    {l l₁ l₂ : Local} {m m₁ m₂ : Mem} (h : Reaches K Q l m l₁ m₁) (h' : Reaches K Q l₁ m₁ l₂ m₂) :
    Reaches K Q l m l₂ m₂ := by
  induction h with
  | refl => exact h'
  | next hQ h _ ih => exact .next hQ h (ih h')

omit [DecidableEq Core] [DecidableEq Lock] in
theorem Reaches.completes {K : Client Core Lock Op Local Mem Ret} {Q : Local → Mem → Prop}
    {l l' : Local} {m m' : Mem} {x : Mem × Ret} (h : Reaches K Q l m l' m')
    (h' : Completes K l' m' x) : Completes K l m x := by
  induction h with
  | refl => exact h'
  | next _ h _ ih => exact .next h (ih h')

section Sequential

variable [DecidableEq Ret] (K : Client Core Lock Op Local Mem Ret)
  (run : Core → Op → Mem → Mem × Ret)

/-- One completed operation of a sequential execution; `none` if its result is another one. -/
def seqStep (m : Lock → Mem) (e : Core × Op × Ret) : Option (Lock → Mem) :=
  let x := run e.1 e.2.1 (m (K.lock e.2.1))
  if x.2 = e.2.2 then some (Function.update m (K.lock e.2.1) x.1) else none

/-- The completed operations are a sequential execution that leaves `m`. Operations under way have
seen the part of `m` that their lock protects. -/
structure Linear (mem₀ : Lock → Mem) (s : State Core Lock Op Local Mem Ret) (m : Lock → Mem) :
    Prop where
  mutex : Mutex K s
  seq : exec (seqStep K run) mem₀ s.hist = some m
  free : ∀ l, (∀ c, ¬ Holds K s c l) → s.mem l = m l
  inside : ∀ c op l, s.phase c = .inside op l →
    Completes K l (s.mem (K.lock op)) (run c op (m (K.lock op)))
  release : ∀ c op r, s.phase c = .release op r → run c op (m (K.lock op)) = (s.mem (K.lock op), r)

end Sequential

section Linear

variable [DecidableEq Ret] {K : Client Core Lock Op Local Mem Ret}
  {run : Core → Op → Mem → Mem × Ret} {mem₀ m : Lock → Mem}
  {s s' : State Core Lock Op Local Mem Ret} {c : Core} {op : Op}

theorem linear_init (mem₀ : Lock → Mem) : Linear K run mem₀ (init mem₀) mem₀ where
  mutex := mutex_init mem₀
  seq := rfl
  free _ _ := rfl
  inside _ _ _ h := by cases h
  release _ _ _ h := by cases h

/-- The phase of a core that holds a lock is not changed by a step of a core that does not. -/
theorem holding_of_ne {p : Phase Op Local Ret} {d : Core} {q : Phase Op Local Ret}
    (hp : p.holding = none) (hq : (q.holding).isSome = true) (h : (s.goto c p).phase d = q) :
    d ≠ c ∧ s.phase d = q := by
  by_cases hd : d = c
  · subst hd
    rw [goto_phase_self] at h
    rw [h] at hp
    rw [hp] at hq
    cases hq
  · rw [goto_phase_of_ne _ _ hd] at h
    exact ⟨hd, h⟩

/-- A core that holds nothing goes on outside its critical section. -/
theorem Linear.outside (h : Linear K run mem₀ s m) {o : Option Lock} {p : Phase Op Local Ret}
    (hc : (s.phase c).holding = none) (hp : p.holding = none)
    (hmutex : Mutex K ((s.setMonitor c o).goto c p)) :
    Linear K run mem₀ ((s.setMonitor c o).goto c p) m where
  mutex := hmutex
  seq := h.seq
  free l hl := by
    refine h.free l fun d hd => hl d ?_
    have hdc : d ≠ c := by
      rintro rfl
      obtain ⟨op, hop, -⟩ := hd
      rw [hc] at hop
      cases hop
    exact (holds_goto_of_ne (s := s.setMonitor c o) hdc).2 hd
  inside d op i hd := h.inside d op i (holding_of_ne (s := s.setMonitor c o) hp rfl hd).2
  release d op r hd := h.release d op r (holding_of_ne (s := s.setMonitor c o) hp rfl hd).2

/-- A core enters its critical section and sees what the sequential execution has left. -/
theorem Linear.take (h : Linear K run mem₀ s m)
    (hrun : ∀ c op m, Completes K (K.start c op) m (run c op m))
    (hc : s.phase c = .stxr op) (hm : s.monitor c = some (K.lock op)) :
    Linear K run mem₀ ((s.storeWord (K.lock op) 1).goto c (.inside op (K.start c op))) m where
  mutex := h.mutex.take hc hm
  seq := h.seq
  free l hl := by
    refine h.free l fun d hd => hl d ?_
    have hdc : d ≠ c := by
      rintro rfl
      obtain ⟨op', hop, -⟩ := hd
      rw [hc] at hop
      cases hop
    exact (holds_goto_of_ne (s := s.storeWord (K.lock op) 1) hdc).2 hd
  inside d op' i hd := by
    by_cases hdc : d = c
    · subst hdc
      rw [goto_phase_self] at hd
      obtain ⟨rfl, rfl⟩ := Phase.inside.inj hd
      have hfree := h.free (K.lock op) fun e he => h.mutex.held e _ he (h.mutex.armed d op hc hm)
      show Completes K _ (s.mem (K.lock op)) _
      rw [hfree]
      exact hrun d op _
    · rw [goto_phase_of_ne _ _ hdc] at hd
      exact h.inside d op' i hd
  release d op' r hd := by
    by_cases hdc : d = c
    · subst hdc; rw [goto_phase_self] at hd; cases hd
    · rw [goto_phase_of_ne _ _ hdc] at hd
      exact h.release d op' r hd

/-- No other core is in a critical section of the same lock. -/
theorem Mutex.lock_ne (h : Mutex K s) {d : Core} {op' : Op} (hc : (s.phase c).holding = some op)
    (hd : (s.phase d).holding = some op') (hdc : d ≠ c) : K.lock op' ≠ K.lock op := fun hl =>
  hdc (h.excl d c (K.lock op) ⟨op', hd, hl⟩ ⟨op, hc, rfl⟩)

/-- An access in a critical section. -/
theorem Linear.access (h : Linear K run mem₀ s m) {i : Local} (hc : s.phase c = .inside op i) :
    Linear K run mem₀ (s.access K c op (K.access i (s.mem (K.lock op)))) m := by
  have hhold : (s.phase c).holding = some op := by rw [hc]; rfl
  have hmutex := h.mutex.access (x := K.access i (s.mem (K.lock op))) hhold
  have hcomp := h.inside c op i hc
  -- the memory of every other lock is as before
  have hmem : ∀ d op' x, (s.phase d).holding = some op' → d ≠ c →
      (s.access K c op x).mem (K.lock op') = s.mem (K.lock op') := fun d op' x hd hdc =>
    Function.update_of_ne (h.mutex.lock_ne hhold hd hdc) ..
  refine ⟨hmutex, h.seq, fun l hl => ?_, fun d op' i' hd => ?_, fun d op' r hd => ?_⟩
  · have hlock : l ≠ K.lock op := by
      rintro rfl
      refine hl c ⟨op, ?_, rfl⟩
      rw [show (State.access K s c op (K.access i (s.mem (K.lock op)))).phase c = _ from
        goto_phase_self ..]
      exact holding_after op _
    refine (Function.update_of_ne hlock ..).trans (h.free l fun d hd => hl d ?_)
    have hdc : d ≠ c := by
      rintro rfl
      obtain ⟨op', hop, rfl⟩ := hd
      rw [hhold] at hop
      exact hlock (by rw [Option.some.inj hop])
    exact (holds_goto_of_ne (s := s.setMem _ _) hdc).2 hd
  · by_cases hdc : d = c
    · subst hdc
      have hd := (goto_phase_self ..).symm.trans hd
      generalize hrun : run d op (m (K.lock op)) = x at hcomp
      cases hcomp with
      | last hlast => rw [hlast] at hd; cases hd
      | next hnext hrest =>
        rw [hnext] at hd ⊢
        obtain ⟨rfl, rfl⟩ := Phase.inside.inj hd
        rwa [hrun, show (s.access K d op (_, _)).mem (K.lock op) = _ from Function.update_self ..]
    · have hd : s.phase d = .inside op' i' := (goto_phase_of_ne _ _ hdc).symm.trans hd
      rw [hmem d op' _ (by rw [hd]; rfl) hdc]
      exact h.inside d op' i' hd
  · by_cases hdc : d = c
    · subst hdc
      have hd := (goto_phase_self ..).symm.trans hd
      generalize hrun : run d op (m (K.lock op)) = x at hcomp
      cases hcomp with
      | next hnext hrest => rw [hnext] at hd; cases hd
      | last hlast =>
        rw [hlast] at hd ⊢
        obtain ⟨rfl, rfl⟩ := Phase.release.inj hd
        rw [hrun, show (s.access K d op (_, _)).mem (K.lock op) = _ from Function.update_self ..]
    · have hd : s.phase d = .release op' r := (goto_phase_of_ne _ _ hdc).symm.trans hd
      rw [hmem d op' _ (by rw [hd]; rfl) hdc]
      exact h.release d op' r hd

/-- An operation releases its lock: it becomes the next one of the sequential execution. -/
theorem Linear.complete (h : Linear K run mem₀ s m) {r : Ret} (hc : s.phase c = .release op r) :
    Linear K run mem₀
      { (s.storeWord (K.lock op) 0).goto c .idle with hist := s.hist ++ [(c, op, r)] }
      (Function.update m (K.lock op) (s.mem (K.lock op))) := by
  have hhold : (s.phase c).holding = some op := by rw [hc]; rfl
  have hmutex := h.mutex.release hhold
  have hres := h.release c op r hc
  have hback : ∀ d q, (q.holding).isSome = true →
      ((s.storeWord (K.lock op) 0).goto c .idle).phase d = q → d ≠ c ∧ s.phase d = q :=
    fun d q hq hd => holding_of_ne (s := s.storeWord _ _) rfl hq hd
  refine ⟨⟨hmutex.held, hmutex.excl, hmutex.armed⟩, ?_, fun l hl => ?_, fun d op' i hd => ?_,
    fun d op' r' hd => ?_⟩
  · refine exec_concat_eq_some.2 ⟨m, h.seq, ?_⟩
    unfold seqStep
    dsimp only
    rw [hres, if_pos rfl]
  · show s.mem l = Function.update m (K.lock op) (s.mem (K.lock op)) l
    by_cases hlock : l = K.lock op
    · rw [hlock, Function.update_self]
    · rw [Function.update_of_ne hlock]
      refine h.free l fun d hd => hl d ?_
      have hdc : d ≠ c := by
        rintro rfl
        obtain ⟨op', hop, rfl⟩ := hd
        rw [hhold] at hop
        exact hlock (by rw [Option.some.inj hop])
      exact (holds_goto_of_ne (s := s.storeWord _ _) hdc).2 hd
  · obtain ⟨hdc, hd⟩ := hback d _ rfl hd
    rw [Function.update_of_ne (h.mutex.lock_ne hhold (by rw [hd]; rfl) hdc)]
    exact h.inside d op' i hd
  · obtain ⟨hdc, hd⟩ := hback d _ rfl hd
    rw [Function.update_of_ne (h.mutex.lock_ne hhold (by rw [hd]; rfl) hdc)]
    exact h.release d op' r' hd

theorem linear_step (hrun : ∀ c op m, Completes K (K.start c op) m (run c op m))
    {a : Act Core Op} (h : Linear K run mem₀ s m) (hs : step K s a = some s') :
    ∃ m', Linear K run mem₀ s' m' := by
  have hmutex := mutex_step h.mutex hs
  rcases step_cases hs with ⟨c, op, -, hc, rfl⟩ | ⟨c, ok, op, o, p, -, hc, rfl, hp⟩ |
    ⟨c, ok, op, -, hc, hm, rfl⟩ | ⟨c, ok, op, l, -, hc, rfl⟩ | ⟨c, ok, op, r, -, hc, rfl⟩
  · have hsame : s = s.setMonitor c (s.monitor c) := by simp [State.setMonitor]
    rw [hsame] at hmutex ⊢
    exact ⟨m, h.outside (by rw [hc]; rfl) rfl hmutex⟩
  · refine ⟨m, h.outside ?_ ?_ hmutex⟩
    · rcases hc with hc | hc <;> rw [hc] <;> rfl
    · rcases hp with rfl | ⟨rfl, -⟩ <;> rfl
  · exact ⟨m, h.take hrun hc hm⟩
  · exact ⟨m, h.access hc⟩
  · exact ⟨_, h.complete hc⟩

/-- **Linearizability.** In every interleaving the completed operations are a sequential execution,
and its memory is the memory of every lock that is not held. -/
theorem linearizable (hrun : ∀ c op m, Completes K (K.start c op) m (run c op m))
    {acts : List (Act Core Op)} (h : exec (step K) (init mem₀) acts = some s) :
    ∃ m, Linear K run mem₀ s m :=
  exec_invariant (I := fun s => ∃ m, Linear K run mem₀ s m)
    (fun _ _ _ ⟨_, hm⟩ hs => linear_step hrun hm hs) ⟨mem₀, linear_init mem₀⟩ h

end Linear

/-! ## The order of the operations -/

section Order

variable {K : Client Core Lock Op Local Mem Ret} {mem₀ : Lock → Mem}
  {s : State Core Lock Op Local Mem Ret}

/-- The operations that core `c` calls, in order. -/
def callsOf (c : Core) (acts : List (Act Core Op)) : List Op := acts.filterMap fun
  | .call d op => if d = c then some op else none
  | .step .. => none

/-- The completed operations of core `c`, in order. -/
def completedOf (c : Core) (hist : List (Core × Op × Ret)) : List Op := hist.filterMap fun e =>
  if e.1 = c then some e.2.1 else none

/-- The operation under way. -/
def Phase.current : Phase Op Local Ret → Option Op
  | .idle => none
  | .ldxr op | .stxr op | .inside op _ | .release op _ => some op

theorem current_goto (c d : Core) (p : Phase Op Local Ret) :
    ((s.goto d p).phase c).current = if d = c then p.current else (s.phase c).current := by
  by_cases h : d = c
  · subst h; rw [goto_phase_self, if_pos rfl]
  · rw [goto_phase_of_ne _ _ (Ne.symm h), if_neg h]

/-- What a step adds to the calls of `c`, it adds to its completed operations and the one under
way. -/
theorem current_step (c : Core) {s' : State Core Lock Op Local Mem Ret} {a : Act Core Op}
    (hs : step K s a = some s') :
    completedOf c s.hist ++ ((s.phase c).current).toList ++ callsOf c [a] =
      completedOf c s'.hist ++ ((s'.phase c).current).toList := by
  rcases step_cases hs with ⟨d, op, rfl, hd, rfl⟩ | ⟨d, ok, op, o, p, rfl, hd, rfl, hp⟩ |
    ⟨d, ok, op, rfl, hd, -, rfl⟩ | ⟨d, ok, op, l, rfl, hd, rfl⟩ | ⟨d, ok, op, r, rfl, hd, rfl⟩
  · rw [current_goto]
    show _ = completedOf c s.hist ++ _
    by_cases hdc : d = c
    · subst hdc; simp [hd, Phase.current, callsOf]
    · simp [hdc, callsOf]
  · have hcur : p.current = (s.phase d).current := by
      rcases hd with hd | hd <;> rcases hp with rfl | ⟨rfl, -⟩ <;> rw [hd] <;> rfl
    rw [current_goto, hcur]
    show _ = completedOf c s.hist ++ (if d = c then _ else (s.phase c).current).toList
    by_cases hdc : d = c
    · subst hdc; simp [callsOf]
    · simp [hdc, callsOf]
  · rw [current_goto]
    show _ = completedOf c s.hist ++ (if d = c then _ else (s.phase c).current).toList
    by_cases hdc : d = c
    · subst hdc; simp [hd, Phase.current, callsOf]
    · simp [hdc, callsOf]
  · have hcur : (Phase.after op (K.access l (s.mem (K.lock op))).2).current =
        (s.phase d).current := by
      rw [hd]
      cases (K.access l (s.mem (K.lock op))).2 <;> rfl
    unfold State.access
    rw [current_goto, hcur]
    show _ = completedOf c s.hist ++ (if d = c then _ else (s.phase c).current).toList
    by_cases hdc : d = c
    · subst hdc; simp [callsOf]
    · simp [hdc, callsOf]
  · show _ = completedOf c (s.hist ++ [(d, op, r)]) ++
      ((((s.storeWord (K.lock op) 0).goto d .idle).phase c).current).toList
    rw [current_goto]
    show _ = _ ++ (if d = c then _ else (s.phase c).current).toList
    by_cases hdc : d = c
    · subst hdc; simp [hd, Phase.current, callsOf, completedOf]
    · simp [hdc, callsOf, completedOf]

/-- Each core completes its calls in their order. -/
theorem callsOf_eq (c : Core) {acts : List (Act Core Op)}
    (h : exec (step K) (init mem₀) acts = some s) :
    callsOf c acts = completedOf c s.hist ++ ((s.phase c).current).toList := by
  induction acts using List.reverseRecOn generalizing s with
  | nil =>
    obtain rfl := Option.some.inj h
    rfl
  | append_singleton acts a ih =>
    obtain ⟨t, ht, hs⟩ := exec_concat_eq_some.1 h
    rw [← current_step c hs, ← ih ht]
    exact List.filterMap_append

end Order

end CriticalSection
