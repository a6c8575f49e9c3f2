import Mathlib.Logic.Function.Basic
import Gateway.Lib.Exec

/-!
# Critical sections under load-exclusive/store-exclusive locks

Any number of cores execute operations. An operation holds one lock while it makes its accesses to
the memory that the lock protects, one access a step. The lock is the retry loop

```
1: ldxr  w0, [lock]      // if it is taken, retry
   stxr  w0, 1, [lock]   // if the store fails, retry
```

Each core has one exclusive monitor, which its `ldxr` sets and any store to the word clears; `stxr`
stores only if the monitor is still set, and it may fail for no reason.

* `Mutex`: what makes the loop a lock (`mutex_step`).
* `Guarded`: invariants of the protected memory (`safe_exec`).
* `Completes`: the accesses of an operation, executed with nothing in between.
* `linearizable`: the operations, in the order in which they release their locks, are a sequential
  execution with the same results, whose memory is the memory of every lock that is not held.
-/

set_option linter.unusedSectionVars false

namespace CriticalSection

open Runs

/-- The operations of the cores: the lock each takes, where it starts, and its accesses. An access
changes the protected memory and goes on or ends with the result of the operation. -/
structure Client (Core Lock Op Local Mem Ret : Type*) where
  lock : Op → Lock
  start : Core → Op → Local
  access : Local → Mem → Mem × (Local ⊕ Ret)

/-- Where a core is. -/
inductive Phase (Op Local Ret : Type*) where
  | idle
  /-- About to load the lock word. -/
  | ldxr (op : Op)
  /-- Has loaded 0 and is about to store 1. -/
  | stxr (op : Op)
  /-- Holds the lock and is about to make the next access. -/
  | inside (op : Op) (l : Local)
  /-- Has its result and is about to store 0. -/
  | release (op : Op) (r : Ret)
  deriving DecidableEq

/-- The whole system; `hist` lists the completed operations. -/
structure State (Core Lock Op Local Mem Ret : Type*) where
  word : Lock → BitVec 32
  monitor : Core → Option Lock
  mem : Lock → Mem
  phase : Core → Phase Op Local Ret
  hist : List (Core × Op × Ret)

inductive Act (Core Op : Type*) where
  /-- Core `c` calls `op`. -/
  | call (c : Core) (op : Op)
  /-- Core `c` makes its next access; a store-exclusive that may succeed does so if `ok`. -/
  | step (c : Core) (ok : Bool)
  deriving DecidableEq

variable {Core Lock Op Local Mem Ret : Type*} [DecidableEq Core] [DecidableEq Lock]

section Step

variable (K : Client Core Lock Op Local Mem Ret)

/-- All locks free, all cores idle. -/
def init (mem₀ : Lock → Mem) : State Core Lock Op Local Mem Ret where
  word _ := 0
  monitor _ := none
  mem := mem₀
  phase _ := .idle
  hist := []

/-- A store to the lock word clears the monitors on it. -/
def State.storeWord (s : State Core Lock Op Local Mem Ret) (l : Lock) (v : BitVec 32) :
    State Core Lock Op Local Mem Ret :=
  { s with
    word := Function.update s.word l v
    monitor := fun c => if s.monitor c = some l then none else s.monitor c }

def State.setMonitor (s : State Core Lock Op Local Mem Ret) (c : Core) (o : Option Lock) :
    State Core Lock Op Local Mem Ret :=
  { s with monitor := Function.update s.monitor c o }

def State.setMem (s : State Core Lock Op Local Mem Ret) (l : Lock) (m : Mem) :
    State Core Lock Op Local Mem Ret :=
  { s with mem := Function.update s.mem l m }

def State.goto (s : State Core Lock Op Local Mem Ret) (c : Core) (p : Phase Op Local Ret) :
    State Core Lock Op Local Mem Ret :=
  { s with phase := Function.update s.phase c p }

/-- Where an operation is after an access. -/
def Phase.after (op : Op) : Local ⊕ Ret → Phase Op Local Ret
  | .inl l => .inside op l
  | .inr r => .release op r

/-- What an access of operation `op` does: `x` is the new memory and how the operation goes on. -/
def State.access (s : State Core Lock Op Local Mem Ret) (c : Core) (op : Op)
    (x : Mem × (Local ⊕ Ret)) : State Core Lock Op Local Mem Ret :=
  (s.setMem (K.lock op) x.1).goto c (.after op x.2)

def step (s : State Core Lock Op Local Mem Ret) : Act Core Op →
    Option (State Core Lock Op Local Mem Ret)
  | .call c op =>
    match s.phase c with
    | .idle => some (s.goto c (.ldxr op))
    | _ => none
  | .step c ok =>
    match s.phase c with
    | .idle => none
    | .ldxr op =>
      some ((s.setMonitor c (some (K.lock op))).goto c
        (if s.word (K.lock op) = 0 then .stxr op else .ldxr op))
    | .stxr op =>
      some (if ok = true ∧ s.monitor c = some (K.lock op) then
          (s.storeWord (K.lock op) 1).goto c (.inside op (K.start c op))
        else (s.setMonitor c none).goto c (.ldxr op))
    | .inside op l => some (s.access K c op (K.access l (s.mem (K.lock op))))
    | .release op r =>
      some { (s.storeWord (K.lock op) 0).goto c .idle with hist := s.hist ++ [(c, op, r)] }

/-- The operation that core `c` executes in the critical section of its lock. -/
def Phase.holding : Phase Op Local Ret → Option Op
  | .inside op _ | .release op _ => some op
  | _ => none

/-- Core `c` is between the end of the acquire loop and the store that releases lock `l`. -/
def Holds (s : State Core Lock Op Local Mem Ret) (c : Core) (l : Lock) : Prop :=
  ∃ op, (s.phase c).holding = some op ∧ K.lock op = l

end Step

section

variable (s : State Core Lock Op Local Mem Ret) (c d : Core) (l : Lock) (p : Phase Op Local Ret)

@[simp] theorem goto_phase_self : (s.goto c p).phase c = p := Function.update_self ..

theorem goto_phase_of_ne {c d : Core} (h : d ≠ c) : (s.goto c p).phase d = s.phase d :=
  Function.update_of_ne h ..

theorem storeWord_of_ne {l l' : Lock} (h : l' ≠ l) (v : BitVec 32) :
    (s.storeWord l v).word l' = s.word l' := Function.update_of_ne h ..

end

/-! ## The five things a step does -/

section Cases

variable {K : Client Core Lock Op Local Mem Ret} {s s' : State Core Lock Op Local Mem Ret}

/-- A step of core `c` moves towards the lock, takes it, makes an access, or releases it. -/
theorem step_cases {a : Act Core Op} (h : step K s a = some s') :
    (∃ c op, a = .call c op ∧ s.phase c = .idle ∧ s' = s.goto c (.ldxr op)) ∨
    (∃ c ok op o p, a = .step c ok ∧ (s.phase c = .ldxr op ∨ s.phase c = .stxr op) ∧
      s' = (s.setMonitor c o).goto c p ∧
      (p = .ldxr op ∨ p = .stxr op ∧ o = some (K.lock op) ∧ s.word (K.lock op) = 0)) ∨
    (∃ c ok op, a = .step c ok ∧ s.phase c = .stxr op ∧ s.monitor c = some (K.lock op) ∧
      s' = (s.storeWord (K.lock op) 1).goto c (.inside op (K.start c op))) ∨
    (∃ c ok op l, a = .step c ok ∧ s.phase c = .inside op l ∧
      s' = s.access K c op (K.access l (s.mem (K.lock op)))) ∨
    (∃ c ok op r, a = .step c ok ∧ s.phase c = .release op r ∧
      s' = { (s.storeWord (K.lock op) 0).goto c .idle with hist := s.hist ++ [(c, op, r)] }) := by
  cases a with
  | call c op =>
    unfold step at h
    dsimp only at h
    cases hp : s.phase c <;> rw [hp] at h
    · exact Or.inl ⟨c, op, rfl, hp, (Option.some.inj h).symm⟩
    all_goals cases h
  | step c ok =>
    unfold step at h
    dsimp only at h
    cases hp : s.phase c with
    | idle => rw [hp] at h; cases h
    | ldxr op =>
      rw [hp] at h
      obtain rfl := Option.some.inj h
      refine Or.inr (Or.inl ⟨c, ok, op, some (K.lock op), ?_⟩)
      by_cases hfree : s.word (K.lock op) = 0
      · exact ⟨.stxr op, rfl, Or.inl hp, by rw [if_pos hfree], Or.inr ⟨rfl, rfl, hfree⟩⟩
      · exact ⟨.ldxr op, rfl, Or.inl hp, by rw [if_neg hfree], Or.inl rfl⟩
    | stxr op =>
      rw [hp] at h
      obtain rfl := Option.some.inj h
      by_cases hok : ok = true ∧ s.monitor c = some (K.lock op)
      · exact Or.inr (Or.inr (Or.inl ⟨c, ok, op, rfl, hp, hok.2, if_pos hok⟩))
      · exact Or.inr (Or.inl ⟨c, ok, op, none, .ldxr op, rfl, Or.inr hp, if_neg hok, Or.inl rfl⟩)
    | inside op l =>
      rw [hp] at h
      exact Or.inr (Or.inr (Or.inr (Or.inl ⟨c, ok, op, l, rfl, hp, (Option.some.inj h).symm⟩)))
    | release op r =>
      rw [hp] at h
      exact Or.inr (Or.inr (Or.inr (Or.inr ⟨c, ok, op, r, rfl, hp, (Option.some.inj h).symm⟩)))

/-- Only accesses change protected memory. -/
theorem mem_step {a : Act Core Op} (h : step K s a = some s') :
    s'.mem = s.mem ∨ ∃ c ok op l, a = .step c ok ∧ s.phase c = .inside op l ∧
      s' = s.access K c op (K.access l (s.mem (K.lock op))) := by
  rcases step_cases h with ⟨c, op, -, -, rfl⟩ | ⟨c, ok, op, o, p, -, -, rfl, -⟩ |
    ⟨c, ok, op, -, -, -, rfl⟩ | ⟨c, ok, op, l, ha, hc, hs⟩ | ⟨c, ok, op, r, -, -, rfl⟩
  · exact Or.inl rfl
  · exact Or.inl rfl
  · exact Or.inl rfl
  · exact Or.inr ⟨c, ok, op, l, ha, hc, hs⟩
  · exact Or.inl rfl

/-- A core stays before its next access until it makes it. -/
theorem inside_step {a : Act Core Op} {c : Core} {op : Op} {l : Local} (h : step K s a = some s')
    (hc : s.phase c = .inside op l) :
    s'.phase c = .inside op l ∨
      ∃ ok, a = .step c ok ∧ s' = s.access K c op (K.access l (s.mem (K.lock op))) := by
  have hne : ∀ d, (s.phase d ≠ .inside op l) → c ≠ d := by
    rintro d hd rfl
    exact hd hc
  rcases step_cases h with ⟨d, op', -, hd, rfl⟩ | ⟨d, ok, op', o, p, -, hd, rfl, -⟩ |
    ⟨d, ok, op', -, hd, -, rfl⟩ | ⟨d, ok, op', l', ha, hd, rfl⟩ | ⟨d, ok, op', r, -, hd, rfl⟩
  · exact Or.inl ((goto_phase_of_ne _ _ (hne d (by rw [hd]; nofun))).trans hc)
  · have hd' : s.phase d ≠ .inside op l := by rcases hd with hd | hd <;> rw [hd] <;> nofun
    exact Or.inl ((goto_phase_of_ne _ _ (hne d hd')).trans hc)
  · exact Or.inl ((goto_phase_of_ne _ _ (hne d (by rw [hd]; nofun))).trans hc)
  · by_cases hcd : c = d
    · subst hcd
      obtain ⟨rfl, rfl⟩ := Phase.inside.inj (hc.symm.trans hd)
      exact Or.inr ⟨ok, ha, rfl⟩
    · exact Or.inl ((goto_phase_of_ne _ _ hcd).trans hc)
  · exact Or.inl ((goto_phase_of_ne _ _ (hne d (by rw [hd]; nofun))).trans hc)

end Cases

/-! ## Mutual exclusion -/

section Mutex

variable {K : Client Core Lock Op Local Mem Ret} {s s' : State Core Lock Op Local Mem Ret}
  {c d : Core} {l : Lock} {op : Op} {p : Phase Op Local Ret}

/-- The word of a held lock is not 0, no lock has two holders, and a store-exclusive that may succeed
finds the word 0. -/
structure Mutex (K : Client Core Lock Op Local Mem Ret) (s : State Core Lock Op Local Mem Ret) :
    Prop where
  held : ∀ c l, Holds K s c l → s.word l ≠ 0
  excl : ∀ c d l, Holds K s c l → Holds K s d l → c = d
  armed : ∀ c op, s.phase c = .stxr op → s.monitor c = some (K.lock op) → s.word (K.lock op) = 0

theorem mutex_init (mem₀ : Lock → Mem) : Mutex K (init mem₀) where
  held _ _ := fun ⟨_, h, _⟩ => by cases h
  excl _ _ _ := fun ⟨_, h, _⟩ => by cases h
  armed _ _ _ _ := rfl

theorem holds_goto_self : Holds K (s.goto c p) c l ↔ ∃ op, p.holding = some op ∧ K.lock op = l := by
  unfold Holds
  rw [goto_phase_self]

theorem holds_goto_of_ne (h : d ≠ c) : Holds K (s.goto c p) d l ↔ Holds K s d l := by
  unfold Holds
  rw [goto_phase_of_ne _ _ h]

/-- A core that goes to a phase outside its critical section holds nothing. -/
theorem holds_of_goto_none (hp : p.holding = none) (h : Holds K (s.goto c p) d l) :
    d ≠ c ∧ Holds K s d l := by
  by_cases hd : d = c
  · subst hd
    obtain ⟨op, hop, -⟩ := holds_goto_self.1 h
    rw [hp] at hop
    cases hop
  · exact ⟨hd, (holds_goto_of_ne hd).1 h⟩

/-- Going on inside the critical section changes nobody's locks. -/
theorem holds_goto_inside (hc : (s.phase c).holding = some op) (hp : p.holding = some op) :
    Holds K (s.goto c p) d l ↔ Holds K s d l := by
  by_cases hd : d = c
  · subst hd
    rw [holds_goto_self, hp]
    unfold Holds
    rw [hc]
  · exact holds_goto_of_ne hd

/-- After a store to the word of `l`, only monitors on other words are set. -/
theorem monitor_storeWord {v : BitVec 32} {l' : Lock} (h : (s.storeWord l v).monitor d = some l') :
    s.monitor d = some l' ∧ l' ≠ l := by
  change (if s.monitor d = some l then none else s.monitor d) = some l' at h
  by_cases hm : s.monitor d = some l
  · rw [if_pos hm] at h
    cases h
  · rw [if_neg hm] at h
    exact ⟨h, fun hl => hm (hl ▸ h)⟩

/-- A store to a lock word keeps `Mutex` if it does not store 0 to the word of a held lock. -/
theorem Mutex.storeWord (h : Mutex K s) {v : BitVec 32}
    (hv : ∀ c, Holds K s c l → v ≠ 0) : Mutex K (s.storeWord l v) where
  held c l' hc := by
    by_cases hl : l' = l
    · subst hl
      rw [show (s.storeWord l' v).word l' = v from Function.update_self ..]
      exact hv c hc
    · rw [storeWord_of_ne _ hl]; exact h.held c l' hc
  excl := h.excl
  armed c op hp hm := by
    obtain ⟨hm, hl⟩ := monitor_storeWord hm
    rw [storeWord_of_ne _ hl]
    exact h.armed c op hp hm

theorem holding_after (op : Op) (x : Local ⊕ Ret) : (Phase.after op x).holding = some op := by
  cases x <;> rfl

theorem Mutex.access (h : Mutex K s) {x : Mem × (Local ⊕ Ret)}
    (hc : (s.phase c).holding = some op) : Mutex K (s.access K c op x) := by
  have hp : (Phase.after op x.2).holding = some op := holding_after op x.2
  have hiff : ∀ d l, Holds K (s.access K c op x) d l ↔ Holds K s d l := fun d l =>
    holds_goto_inside (s := s.setMem (K.lock op) x.1) hc hp
  refine ⟨fun d l hd => h.held d l ((hiff d l).1 hd),
    fun d e l hd he => h.excl d e l ((hiff d l).1 hd) ((hiff e l).1 he), fun d op' hd hm => ?_⟩
  by_cases hdc : d = c
  · subst hdc
    rw [← show (s.access K d op x).phase d = _ from goto_phase_self .., hd] at hp
    cases hp
  · exact h.armed d op' ((goto_phase_of_ne _ _ hdc).symm.trans hd) hm

/-- A core that holds nothing goes on outside its critical section. -/
theorem Mutex.outside (h : Mutex K s) {o : Option Lock} (hp : p.holding = none)
    (harmed : ∀ op, p = .stxr op → o = some (K.lock op) → s.word (K.lock op) = 0) :
    Mutex K ((s.setMonitor c o).goto c p) where
  held d l hd := h.held d l (holds_of_goto_none hp hd).2
  excl d e l hd he := h.excl d e l (holds_of_goto_none hp hd).2 (holds_of_goto_none hp he).2
  armed d op hd hm := by
    by_cases hdc : d = c
    · subst hdc
      rw [goto_phase_self] at hd
      change Function.update s.monitor d o d = some (K.lock op) at hm
      rw [Function.update_self] at hm
      exact harmed op hd hm
    · rw [goto_phase_of_ne _ _ hdc] at hd
      exact h.armed d op hd ((Function.update_of_ne hdc ..).symm.trans hm)

/-- A core whose store-exclusive succeeds enters its critical section. -/
theorem Mutex.take (h : Mutex K s) {i : Local} (hc : s.phase c = .stxr op)
    (hm : s.monitor c = some (K.lock op)) :
    Mutex K ((s.storeWord (K.lock op) 1).goto c (.inside op i)) := by
  have hnone : ∀ d, ¬ Holds K s d (K.lock op) := fun d hd => h.held d _ hd (h.armed c op hc hm)
  have hw : Mutex K (s.storeWord (K.lock op) 1) := h.storeWord fun d hd => absurd hd (hnone d)
  have hself : ∀ l, Holds K ((s.storeWord (K.lock op) 1).goto c (.inside op i)) c l →
      l = K.lock op := by
    intro l hl
    obtain ⟨op', hop, rfl⟩ := holds_goto_self.1 hl
    rw [Option.some.inj hop]
  refine ⟨fun d l hd => ?_, fun d e l hd he => ?_, fun d op' hd hm' => ?_⟩
  · by_cases hdc : d = c
    · subst hdc
      obtain rfl := hself l hd
      show Function.update s.word (K.lock op) 1 (K.lock op) ≠ 0
      rw [Function.update_self]
      decide
    · exact hw.held d l ((holds_goto_of_ne hdc).1 hd)
  · by_cases hdc : d = c
    · by_cases hec : e = c
      · rw [hdc, hec]
      · obtain rfl := hself l (hdc ▸ hd)
        exact absurd ((holds_goto_of_ne hec).1 he) (hnone e)
    · by_cases hec : e = c
      · obtain rfl := hself l (hec ▸ he)
        exact absurd ((holds_goto_of_ne hdc).1 hd) (hnone d)
      · exact h.excl d e l ((holds_goto_of_ne hdc).1 hd) ((holds_goto_of_ne hec).1 he)
  · by_cases hdc : d = c
    · subst hdc; rw [goto_phase_self] at hd; cases hd
    · rw [goto_phase_of_ne _ _ hdc] at hd; exact hw.armed d op' hd hm'

/-- The holder of a lock releases it. -/
theorem Mutex.release (h : Mutex K s) (hc : (s.phase c).holding = some op) :
    Mutex K ((s.storeWord (K.lock op) 0).goto c .idle) := by
  have hback : ∀ d l, Holds K ((s.storeWord (K.lock op) 0).goto c .idle) d l →
      d ≠ c ∧ Holds K s d l := fun d l hd => holds_of_goto_none (s := s.storeWord _ _) rfl hd
  refine ⟨fun d l hd => ?_, fun d e l hd he => h.excl d e l (hback d l hd).2 (hback e l he).2,
    fun d op' hd hm => ?_⟩
  · obtain ⟨hdc, hd⟩ := hback d l hd
    have hl : l ≠ K.lock op := by
      rintro rfl
      exact hdc (h.excl d c _ hd ⟨op, hc, rfl⟩)
    show (s.storeWord (K.lock op) 0).word l ≠ 0
    rw [storeWord_of_ne _ hl]
    exact h.held d l hd
  · obtain ⟨hm, hl⟩ := monitor_storeWord (v := 0) hm
    by_cases hdc : d = c
    · subst hdc; rw [goto_phase_self] at hd; cases hd
    · rw [goto_phase_of_ne _ _ hdc] at hd
      show (s.storeWord (K.lock op) 0).word (K.lock op') = 0
      rw [storeWord_of_ne _ hl]
      exact h.armed d op' hd hm

theorem mutex_step {a : Act Core Op} (h : Mutex K s) (hs : step K s a = some s') : Mutex K s' := by
  rcases step_cases hs with ⟨c, op, -, -, rfl⟩ | ⟨c, ok, op, o, p, -, -, rfl, hp⟩ |
    ⟨c, ok, op, -, hc, hm, rfl⟩ | ⟨c, ok, op, l, -, hc, rfl⟩ | ⟨c, ok, op, r, -, hc, rfl⟩
  · rw [show s = s.setMonitor c (s.monitor c) by simp [State.setMonitor]]
    exact h.outside rfl fun op' hop => by cases hop
  · refine h.outside (by rcases hp with rfl | ⟨rfl, -⟩ <;> rfl) fun op' hop _ => ?_
    rcases hp with rfl | ⟨rfl, -, hfree⟩
    · cases hop
    · rwa [← Phase.stxr.inj hop]
  · exact h.take hc hm
  · exact h.access (by rw [hc]; rfl)
  · have hrel := h.release (show (s.phase c).holding = some op by rw [hc]; rfl)
    exact ⟨hrel.held, hrel.excl, hrel.armed⟩

end Mutex

/-! ## Invariants of the protected memory -/

section Guarded

variable (K : Client Core Lock Op Local Mem Ret) (I : Lock → Mem → Prop)
  (J : Core → Op → Local → Mem → Prop)

/-- `I` holds of the memory of every lock, and `J` of that of the lock of an operation before its
next access: each operation may rely on `I` where it starts, and each of its accesses keeps both. -/
structure Guarded : Prop where
  start : ∀ c op m, I (K.lock op) m → J c op (K.start c op) m
  keep : ∀ c op l m, I (K.lock op) m → J c op l m → I (K.lock op) (K.access l m).1
  next : ∀ c op l l' m, I (K.lock op) m → J c op l m → (K.access l m).2 = .inl l' →
    J c op l' (K.access l m).1

/-- What a guarded client keeps. -/
structure Safe (s : State Core Lock Op Local Mem Ret) : Prop where
  mutex : Mutex K s
  mem : ∀ l, I l (s.mem l)
  inside : ∀ c op l, s.phase c = .inside op l → J c op l (s.mem (K.lock op))

variable {K I J} {s s' : State Core Lock Op Local Mem Ret} {c : Core} {op : Op} {l : Local}

theorem safe_init {mem₀ : Lock → Mem} (h : ∀ l, I l (mem₀ l)) : Safe K I J (init mem₀) where
  mutex := mutex_init mem₀
  mem := h
  inside _ _ _ hp := by cases hp

/-- The accesses of the one core that holds a lock are the only ones to its memory. -/
theorem Safe.access (hG : Guarded K I J) (h : Safe K I J s) (hc : s.phase c = .inside op l)
    (hM : Mutex K (s.access K c op (K.access l (s.mem (K.lock op))))) :
    Safe K I J (s.access K c op (K.access l (s.mem (K.lock op)))) where
  mutex := hM
  mem l' := by
    show I l' (Function.update s.mem (K.lock op) _ l')
    by_cases hl : l' = K.lock op
    · subst hl
      rw [Function.update_self]
      exact hG.keep c op l _ (h.mem _) (h.inside c op l hc)
    · rw [Function.update_of_ne hl]
      exact h.mem l'
  inside d op' m hd := by
    show J d op' m (Function.update s.mem (K.lock op) _ (K.lock op'))
    by_cases hdc : d = c
    · subst hdc
      replace hd : Phase.after op (K.access l (s.mem (K.lock op))).2 = .inside op' m :=
        (goto_phase_self ..).symm.trans hd
      cases hx : (K.access l (s.mem (K.lock op))).2 with
      | inl m' =>
        rw [hx] at hd
        obtain ⟨rfl, rfl⟩ := Phase.inside.inj hd
        rw [Function.update_self]
        exact hG.next d op l m' _ (h.mem _) (h.inside d op l hc) hx
      | inr r => rw [hx] at hd; cases hd
    · replace hd : s.phase d = .inside op' m := (goto_phase_of_ne _ _ hdc).symm.trans hd
      have hne : K.lock op' ≠ K.lock op := fun hl => hdc (h.mutex.excl d c _
        ⟨op', by rw [hd]; rfl, hl⟩ ⟨op, by rw [hc]; rfl, rfl⟩)
      rw [Function.update_of_ne hne]
      exact h.inside d op' m hd

/-- A core that goes to a phase where it makes no access keeps what all others rely on. -/
theorem Safe.goto (h : Safe K I J s) {p : Phase Op Local Ret} (hp : ∀ op l, p ≠ .inside op l)
    (hmem : s'.mem = s.mem) (hphase : s'.phase = Function.update s.phase c p) (hM : Mutex K s') :
    Safe K I J s' where
  mutex := hM
  mem l := hmem ▸ h.mem l
  inside d op l hd := by
    rw [hmem]
    rw [hphase] at hd
    by_cases hdc : d = c
    · subst hdc
      rw [Function.update_self] at hd
      exact absurd hd (hp op l)
    · rw [Function.update_of_ne hdc] at hd
      exact h.inside d op l hd

theorem safe_step (hG : Guarded K I J) {a : Act Core Op} (h : Safe K I J s)
    (hs : step K s a = some s') : Safe K I J s' := by
  have hM : Mutex K s' := mutex_step h.mutex hs
  rcases step_cases hs with ⟨c, op, -, -, rfl⟩ | ⟨c, ok, op, o, p, -, -, rfl, hp⟩ |
    ⟨c, ok, op, -, hc, hm, rfl⟩ | ⟨c, ok, op, l, -, hc, rfl⟩ | ⟨c, ok, op, r, -, hc, rfl⟩
  · exact h.goto (fun _ _ hp => by cases hp) rfl rfl hM
  · refine h.goto (fun _ _ hin => ?_) rfl rfl hM
    rcases hp with rfl | ⟨rfl, -⟩ <;> cases hin
  · refine ⟨hM, h.mem, fun d op' l hd => ?_⟩
    by_cases hdc : d = c
    · subst hdc
      obtain ⟨rfl, rfl⟩ := Phase.inside.inj ((goto_phase_self ..).symm.trans hd)
      exact hG.start d op _ (h.mem _)
    · exact h.inside d op' l ((goto_phase_of_ne _ _ hdc).symm.trans hd)
  · exact Safe.access hG h hc hM
  · exact h.goto (fun _ _ hp => by cases hp) rfl rfl hM

/-- **Guarded memory.** If every operation keeps the invariants, every interleaving of any number
of cores does. -/
theorem safe_exec (hG : Guarded K I J) {mem₀ : Lock → Mem} (h₀ : ∀ l, I l (mem₀ l))
    {as : List (Act Core Op)} (h : exec (step K) (init mem₀) as = some s) : Safe K I J s :=
  exec_invariant (fun _ _ _ => safe_step hG) (safe_init h₀) h

end Guarded

end CriticalSection
