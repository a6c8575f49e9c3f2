import Gateway.Lib.LockDiscipline

/-!
# What becomes of the holder of the lock

`Brief` is a static rule for the programs of `LockDiscipline`: with the lock held they do not choose,
loop or end, but they may halt. The core that holds the lock then either releases it within a number
of its own steps, which no other core can change, or it halts with the lock (`holder_cases`). In the
second case the lock is never free again, and the others write in exempt routines only.
-/

namespace LockDiscipline

open Runs

variable {Core ρ β : Type*}

/-- Code that starts with the lock held as the first flag says and ends with it held as the second
says. It may halt with the lock held if `halts`. -/
inductive Brief (halts : Prop) : Bool → Prog ρ β → Bool → Prop
  | skip {h : Bool} : Brief halts h .skip h
  | out {h : Bool} {r : ρ} {bs : List β} : Brief halts h (.out r bs) h
  | acquire : Brief halts false .acquire true
  | release : Brief halts true .release false
  | seq {h i j : Bool} {p q : Prog ρ β} : Brief halts h p i → Brief halts i q j →
      Brief halts h (.seq p q) j
  | any {i : Bool} {p : ℕ → Prog ρ β} : (∀ n, Brief halts false (p n) i) →
      Brief halts false (.any p) i
  | many {p : Prog ρ β} : Brief halts false p false → Brief halts false (.many p) false
  | forever {i : Bool} {p : Prog ρ β} : Brief halts false p false →
      Brief halts false (.forever p) i
  | halt {i : Bool} : halts → Brief halts true (.forever .skip) i

/-- The same for all that a core has still to run: it does not end with the lock held. -/
inductive RestBrief (halts : Prop) : Bool → List (Prog ρ β) → Prop
  | nil : RestBrief halts false []
  | cons {h i : Bool} {p : Prog ρ β} {k : List (Prog ρ β)} : Brief halts h p i →
      RestBrief halts i k → RestBrief halts h (p :: k)

/-- The core releases the lock with its `n`-th step. -/
inductive ToRelease : ℕ → List (Prog ρ β) → Prop
  | release {k : List (Prog ρ β)} : ToRelease 1 (.release :: k)
  | skip {n : ℕ} {k : List (Prog ρ β)} : ToRelease n k → ToRelease (n + 1) (.skip :: k)
  | out {n : ℕ} {r : ρ} {bs : List β} {k : List (Prog ρ β)} : ToRelease n k →
      ToRelease (n + bs.length + 1) (.out r bs :: k)
  | seq {n : ℕ} {p q : Prog ρ β} {k : List (Prog ρ β)} : ToRelease n (p :: q :: k) →
      ToRelease (n + 1) (.seq p q :: k)

/-- The core comes to a `while (1);` before any release. -/
inductive ToHalt : List (Prog ρ β) → Prop
  | halt {k : List (Prog ρ β)} : ToHalt (.forever .skip :: k)
  | skip {k : List (Prog ρ β)} : ToHalt k → ToHalt (.skip :: k)
  | out {r : ρ} {bs : List β} {k : List (Prog ρ β)} : ToHalt k → ToHalt (.out r bs :: k)
  | seq {p q : Prog ρ β} {k : List (Prog ρ β)} : ToHalt (p :: q :: k) → ToHalt (.seq p q :: k)

/-! ## From the static rule to the two ends -/

section Ends

variable {halts : Prop} {h i : Bool} {p q : Prog ρ β} {k : List (Prog ρ β)}

/-- The code releases the lock or halts. -/
def Ends (halts : Prop) (k : List (Prog ρ β)) : Prop := (∃ n, ToRelease n k) ∨ halts ∧ ToHalt k

theorem Ends.skip (hk : Ends halts k) : Ends halts (.skip :: k) :=
  hk.imp (fun ⟨_, hn⟩ => ⟨_, hn.skip⟩) (And.imp_right .skip)

theorem Ends.out {r : ρ} {bs : List β} (hk : Ends halts k) : Ends halts (.out r bs :: k) :=
  hk.imp (fun ⟨_, hn⟩ => ⟨_, hn.out⟩) (And.imp_right .out)

theorem Ends.seq (hk : Ends halts (p :: q :: k)) : Ends halts (.seq p q :: k) :=
  hk.imp (fun ⟨_, hn⟩ => ⟨_, hn.seq⟩) (And.imp_right .seq)

theorem Brief.ends (hp : Brief halts h p i) (hh : h = true) (hk : i = true → Ends halts k) :
    Ends halts (p :: k) := by
  induction hp generalizing k with
  | skip => exact (hk hh).skip
  | out => exact (hk hh).out
  | release => exact .inl ⟨1, .release⟩
  | seq _ _ ihp ihq => exact (ihp hh fun hi => ihq hi hk).seq
  | halt hhalts => exact .inr ⟨hhalts, .halt⟩
  | acquire | any | many | forever => cases hh

theorem RestBrief.ends (hk : RestBrief halts h k) (hh : h = true) : Ends halts k := by
  induction hk with
  | nil => cases hh
  | cons hp _ ih => exact hp.ends hh ih

end Ends

/-! ## Steps -/

variable [DecidableEq Core] {s s' : State Core ρ β} {a : Act Core} {c d : Core}

/-- A step of another core leaves a core where it is. -/
theorem step_others (hs : step s a = some s') (hc : c ≠ a.core) :
    s'.rest c = s.rest c ∧ s'.inside c = s.inside c := by
  unfold step at hs
  dsimp only at hs
  cases hr : s.rest a.core with
  | nil => rw [hr] at hs; cases hs
  | cons p k =>
    rw [hr] at hs
    cases p with
    | out r bs =>
      cases bs with
      | nil | cons =>
        obtain rfl := Option.some.inj hs
        exact ⟨Function.update_of_ne hc .., rfl⟩
    | acquire =>
      obtain rfl := Option.some.inj hs
      by_cases harmed : s.armed a.core = true
      · rw [if_pos harmed]
        by_cases hok : a.choice ≠ 0 ∧ s.monitor a.core = true
        · rw [if_pos hok]
          exact ⟨Function.update_of_ne hc .., Function.update_of_ne hc ..⟩
        · rw [if_neg hok]
          exact ⟨rfl, rfl⟩
      · rw [if_neg harmed]
        exact ⟨rfl, rfl⟩
    | release =>
      obtain rfl := Option.some.inj hs
      exact ⟨Function.update_of_ne hc .., Function.update_of_ne hc ..⟩
    | skip | seq | any | many | forever =>
      obtain rfl := Option.some.inj hs
      exact ⟨Function.update_of_ne hc .., rfl⟩

/-- A core that has something to run can make a step. -/
theorem step_isSome (h : s.rest a.core ≠ []) : (step s a).isSome := by
  unfold step
  dsimp only
  cases hr : s.rest a.core with
  | nil => exact absurd hr h
  | cons p k =>
    cases p with
    | out r bs => cases bs <;> rfl
    | skip | acquire | release | seq | any | many | forever => rfl

/-- The holder can make a step. -/
theorem RestBrief.step_isSome {halts : Prop} (h : RestBrief halts true (s.rest a.core)) :
    (step s a).isSome := by
  refine LockDiscipline.step_isSome fun hnil => ?_
  rw [hnil] at h
  cases h

/-- A core keeps to the static rule. -/
theorem RestBrief.step {halts : Prop} (h : RestBrief halts (s.inside a.core) (s.rest a.core))
    (hs : step s a = some s') : RestBrief halts (s'.inside a.core) (s'.rest a.core) := by
  unfold LockDiscipline.step at hs
  dsimp only at hs
  generalize hin : s.inside a.core = i at h
  have hgoto : ∀ k, RestBrief halts i k →
      RestBrief halts ((s.goto a.core k).inside a.core) ((s.goto a.core k).rest a.core) := by
    intro k hk
    show RestBrief halts (s.inside a.core) (Function.update s.rest a.core k a.core)
    rwa [Function.update_self, hin]
  cases hr : s.rest a.core with
  | nil => rw [hr] at hs; cases hs
  | cons p k =>
    rw [hr] at hs h
    cases h with | cons hp hk
    cases hp with
    | skip => obtain rfl := Option.some.inj hs; exact hgoto k hk
    | @out _ r bs =>
      cases bs with
      | nil => obtain rfl := Option.some.inj hs; exact hgoto k hk
      | cons b bs => obtain rfl := Option.some.inj hs; exact hgoto _ (.cons .out hk)
    | acquire =>
      obtain rfl := Option.some.inj hs
      have hstay : RestBrief halts (s.inside a.core) (s.rest a.core) := by
        rw [hin, hr]
        exact .cons .acquire hk
      by_cases harmed : s.armed a.core = true
      · rw [if_pos harmed]
        by_cases hok : a.choice ≠ 0 ∧ s.monitor a.core = true
        · rw [if_pos hok]
          show RestBrief halts (Function.update s.inside a.core true a.core)
            (Function.update s.rest a.core k a.core)
          rwa [Function.update_self, Function.update_self]
        · rw [if_neg hok]
          exact hstay
      · rw [if_neg harmed]
        exact hstay
    | release =>
      obtain rfl := Option.some.inj hs
      show RestBrief halts (Function.update s.inside a.core false a.core)
        (Function.update s.rest a.core k a.core)
      rwa [Function.update_self, Function.update_self]
    | seq hp hq => obtain rfl := Option.some.inj hs; exact hgoto _ (.cons hp (.cons hq hk))
    | any hp => obtain rfl := Option.some.inj hs; exact hgoto _ (.cons (hp a.choice) hk)
    | many hp =>
      obtain rfl := Option.some.inj hs
      by_cases hzero : a.choice = 0
      · rw [if_pos hzero]
        exact hgoto k hk
      · rw [if_neg hzero]
        exact hgoto _ (.cons hp (.cons (.many hp) hk))
    | forever hp =>
      obtain rfl := Option.some.inj hs
      exact hgoto _ (.cons hp (.cons (.forever hp) hk))
    | halt hhalts =>
      obtain rfl := Option.some.inj hs
      exact hgoto _ (.cons .skip (.cons (.halt hhalts) hk))

/-- A step of the holder brings it nearer to its release. -/
theorem ToRelease.step {n : ℕ} (h : ToRelease n (s.rest a.core)) (hs : step s a = some s') :
    s'.inside a.core = false ∨ ∃ m < n, ToRelease m (s'.rest a.core) := by
  unfold LockDiscipline.step at hs
  dsimp only at hs
  have hgoto : ∀ k, (s.goto a.core k).rest a.core = k := fun k => Function.update_self ..
  generalize hr : s.rest a.core = k at h hs
  cases h with
  | release =>
    obtain rfl := Option.some.inj hs
    exact .inl (Function.update_self ..)
  | @skip n k hk =>
    obtain rfl := Option.some.inj hs
    exact .inr ⟨n, Nat.lt_succ_self n, (hgoto k).symm ▸ hk⟩
  | @out n r bs k hk =>
    cases bs with
    | nil =>
      obtain rfl := Option.some.inj hs
      exact .inr ⟨n, Nat.lt_succ_self n, (hgoto k).symm ▸ hk⟩
    | cons b bs =>
      obtain rfl := Option.some.inj hs
      refine .inr ⟨n + bs.length + 1, by simp, ?_⟩
      show ToRelease _ (Function.update s.rest a.core _ a.core)
      rw [Function.update_self]
      exact hk.out
  | @seq n p q k hk =>
    obtain rfl := Option.some.inj hs
    exact .inr ⟨n, Nat.lt_succ_self n, (hgoto _).symm ▸ hk⟩

/-- A step of a core that is to halt keeps it there, with the lock. -/
theorem ToHalt.step (h : ToHalt (s.rest a.core)) (hs : step s a = some s') :
    ToHalt (s'.rest a.core) ∧ s'.inside a.core = s.inside a.core := by
  unfold LockDiscipline.step at hs
  dsimp only at hs
  have hgoto : ∀ k, (s.goto a.core k).rest a.core = k := fun k => Function.update_self ..
  generalize hr : s.rest a.core = k at h hs
  cases h with
  | halt =>
    obtain rfl := Option.some.inj hs
    exact ⟨(hgoto _).symm ▸ .skip .halt, rfl⟩
  | @skip k hk =>
    obtain rfl := Option.some.inj hs
    exact ⟨(hgoto k).symm ▸ hk, rfl⟩
  | @out r bs k hk =>
    cases bs with
    | nil =>
      obtain rfl := Option.some.inj hs
      exact ⟨(hgoto k).symm ▸ hk, rfl⟩
    | cons b bs =>
      obtain rfl := Option.some.inj hs
      refine ⟨?_, rfl⟩
      show ToHalt (Function.update s.rest a.core _ a.core)
      rw [Function.update_self]
      exact hk.out
  | @seq p q k hk =>
    obtain rfl := Option.some.inj hs
    exact ⟨(hgoto _).symm ▸ hk, rfl⟩

/-! ## Runs -/

/-- The number of steps that the core `c` makes. -/
def ownSteps (c : Core) (as : List (Act Core)) : ℕ := as.countP fun a => a.core = c

theorem ToRelease.pos {n : ℕ} {k : List (Prog ρ β)} (h : ToRelease n k) : 0 < n := by
  cases h <;> exact Nat.succ_pos _

/-- The core `c` releases the lock during the run. -/
def ReleasedIn (s : State Core ρ β) (c : Core) (as : List (Act Core)) : Prop :=
  ∃ pre t, pre <+: as ∧ exec step s pre = some t ∧ t.inside c = false

/-- Whatever the others do, `n` steps bring the holder to its release. -/
theorem releasedIn_of_toRelease {n : ℕ} {as : List (Act Core)} (h : ToRelease n (s.rest c))
    (hs : exec step s as = some s') (hn : n ≤ ownSteps c as) : ReleasedIn s c as := by
  induction as generalizing s n with
  | nil => exact absurd (Nat.lt_of_lt_of_le h.pos hn) (Nat.lt_irrefl 0)
  | cons a as ih =>
    obtain ⟨s₁, hs₁, hs⟩ := exec_cons_eq_some.1 hs
    have hlater : ReleasedIn s₁ c as → ReleasedIn s c (a :: as) := by
      rintro ⟨pre, t, hpre, ht, hout⟩
      exact ⟨a :: pre, t, List.cons_prefix_cons.2 ⟨rfl, hpre⟩,
        exec_cons_eq_some.2 ⟨s₁, hs₁, ht⟩, hout⟩
    unfold ownSteps at hn
    rw [List.countP_cons] at hn
    by_cases hc : a.core = c
    · subst hc
      obtain hout | ⟨m, hm, hrest⟩ := h.step hs₁
      · exact ⟨[a], s₁, List.cons_prefix_cons.2 ⟨rfl, List.nil_prefix⟩,
          exec_cons_eq_some.2 ⟨s₁, hs₁, rfl⟩, hout⟩
      · refine hlater (ih hrest hs ?_)
        unfold ownSteps
        simp only [decide_true, if_true] at hn
        omega
    · refine hlater (ih (n := n) ?_ hs ?_)
      · rwa [(step_others hs₁ (Ne.symm hc)).1]
      · unfold ownSteps
        simpa [hc] using hn

/-- The core `c` has the lock and comes to a `while (1);`. -/
def Halting (c : Core) (s : State Core ρ β) : Prop := s.inside c = true ∧ ToHalt (s.rest c)

theorem Halting.step (h : Halting c s) (hs : step s a = some s') : Halting c s' := by
  by_cases hc : c = a.core
  · subst hc
    obtain ⟨hrest, hin⟩ := h.2.step hs
    exact ⟨hin.trans h.1, hrest⟩
  · obtain ⟨hrest, hin⟩ := step_others hs hc
    exact ⟨hin.trans h.1, hrest.symm ▸ h.2⟩

variable {exempt : ρ → Prop} {halts : Core → Prop}

/-- The step writes no output, except of the core `c` or in an exempt routine. -/
def OnlyExempt (exempt : ρ → Prop) (c : Core) (s : State Core ρ β) (a : Act Core) : Prop :=
  a.core ≠ c → ∀ r, s.writes a.core = some r → exempt r

/-- A core that halts with the lock keeps it, and the others write only in exempt routines. -/
theorem Halting.run (h : Halting c s) (hok : Ok exempt s) {as : List (Act Core)}
    (hs : exec LockDiscipline.step s as = some s') :
    Halting c s' ∧ Along LockDiscipline.step (OnlyExempt exempt c) s as := by
  refine ⟨exec_invariant (fun _ _ _ h hs => h.step hs) h hs, ?_⟩
  refine along_of_forall_prefix fun pre a t hpre ht _ hne r hw => ?_
  by_contra hr
  have hok' := exec_invariant (fun _ _ _ h hs => ok_step h hs) hok ht
  have hhalt := exec_invariant (fun _ _ _ h hs => Halting.step h hs) h ht
  exact hne (hok'.excl a.core c (hok'.inside_of_writes hw hr) hhalt.1)

/-- What every core keeps to. -/
def AllBrief (halts : Core → Prop) (s : State Core ρ β) : Prop :=
  ∀ c, RestBrief (halts c) (s.inside c) (s.rest c)

theorem AllBrief.step (h : AllBrief halts s) (hs : step s a = some s') : AllBrief halts s' := by
  intro c
  by_cases hc : c = a.core
  · subst hc
    exact (h a.core).step hs
  · obtain ⟨hrest, hin⟩ := step_others hs hc
    rw [hrest, hin]
    exact h c

omit [DecidableEq Core] in
theorem allBrief_init {programs : Core → Prog ρ β}
    (h : ∀ c, Brief (halts c) false (programs c) false) : AllBrief halts (init programs) :=
  fun c => .cons (h c) .nil

/-- **The holder of the lock.** It releases the lock within a number of its own steps, or it is a
core that may halt, and does. -/
theorem holder_cases (hbrief : AllBrief halts s) (hc : s.inside c = true) :
    (∃ n, ∀ as s', exec step s as = some s' → n ≤ ownSteps c as → ReleasedIn s c as) ∨
      halts c ∧ Halting c s := by
  obtain ⟨n, hn⟩ | ⟨hhalts, hhalt⟩ := (hbrief c).ends hc
  · exact .inl ⟨n, fun as s' hs hle => releasedIn_of_toRelease hn hs hle⟩
  · exact .inr ⟨hhalts, hc, hhalt⟩

end LockDiscipline
