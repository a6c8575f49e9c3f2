import Mathlib.Logic.Function.Basic
import Gateway.Lib.Exec

/-!
# Programs that write to one output under one lock

Any number of cores run structured programs that append to a shared output and take and release one
lock, a word that they acquire by the loop

```
1: ldxr  w0, [lock]      // if it is taken, retry
   stxr  w0, 1, [lock]   // if the store fails, retry
```

A program is what remains of real code when everything but the output and the lock is left out:
values it does not follow are chosen freely (`any`, `many`), and each piece of output names the
routine that writes it.

* `Disciplined`: the static rule that output is written, and the lock released, with the lock held.
  Some routines may be exempt.
* `along_contiguous_iff`: for disciplined programs the output of a core that holds the lock is
  interrupted only by exempt routines.
* `blocksContiguous_iff`: it is one contiguous block of the output unless such a step interrupts it.
-/

set_option linter.unusedSectionVars false

namespace LockDiscipline

open Runs

/-- Programs over routines `ρ` and output items `β`. -/
inductive Prog (ρ β : Type*) where
  | skip
  /-- Routine `r` writes the items one by one. -/
  | out (r : ρ) (bs : List β)
  | acquire
  | release
  | seq (p q : Prog ρ β)
  /-- One of the programs, chosen freely. -/
  | any (p : ℕ → Prog ρ β)
  /-- Any number of times, chosen freely. -/
  | many (p : Prog ρ β)
  /-- `while (1)`. -/
  | forever (p : Prog ρ β)

/-- The cores, the lock and the output. `armed`: the core has loaded 0 from the lock and is about to
store 1. `inside`: it is between the end of the acquire loop and the store that releases. -/
structure State (Core ρ β : Type*) where
  word : BitVec 32
  monitor : Core → Bool
  armed : Core → Bool
  inside : Core → Bool
  /-- What each core has still to run. -/
  rest : Core → List (Prog ρ β)
  output : List (Core × β)

/-- The next step of a core. `choice` settles what is chosen freely; a store-exclusive that may
succeed does so if it is not 0. -/
structure Act (Core : Type*) where
  core : Core
  choice : ℕ
  deriving DecidableEq

variable {Core ρ β : Type*} [DecidableEq Core]

section Step

variable (s : State Core ρ β) (c : Core) (k : List (Prog ρ β))

/-- The lock is free, and every core is about to run its program. -/
def init (programs : Core → Prog ρ β) : State Core ρ β where
  word := 0
  monitor _ := false
  armed _ := false
  inside _ := false
  rest c := [programs c]
  output := []

def State.goto : State Core ρ β := { s with rest := Function.update s.rest c k }

def State.write (b : β) : State Core ρ β := { s with output := s.output ++ [(c, b)] }

/-- The load-exclusive. -/
def State.load : State Core ρ β :=
  { s with
    monitor := Function.update s.monitor c true
    armed := Function.update s.armed c (s.word == 0) }

/-- The store-exclusive that fails. -/
def State.retry : State Core ρ β :=
  { s with
    monitor := Function.update s.monitor c false
    armed := Function.update s.armed c false }

/-- The store-exclusive that succeeds: like every store to the word it clears all monitors. -/
def State.take : State Core ρ β :=
  { s with
    word := 1
    monitor := fun _ => false
    armed := Function.update s.armed c false
    inside := Function.update s.inside c true
    rest := Function.update s.rest c k }

/-- The store that releases the lock. -/
def State.free : State Core ρ β :=
  { s with
    word := 0
    monitor := fun _ => false
    inside := Function.update s.inside c false
    rest := Function.update s.rest c k }

def step (a : Act Core) : Option (State Core ρ β) :=
  let c := a.core
  match s.rest c with
  | [] => none
  | .skip :: k => some (s.goto c k)
  | .out _ [] :: k => some (s.goto c k)
  | .out r (b :: bs) :: k => some ((s.write c b).goto c (.out r bs :: k))
  | .acquire :: k =>
    some (if s.armed c then
        if a.choice ≠ 0 ∧ s.monitor c then s.take c k else s.retry c
      else s.load c)
  | .release :: k => some (s.free c k)
  | .seq p q :: k => some (s.goto c (p :: q :: k))
  | .any p :: k => some (s.goto c (p a.choice :: k))
  | .many p :: k => some (s.goto c (if a.choice = 0 then k else p :: .many p :: k))
  | .forever p :: k => some (s.goto c (p :: .forever p :: k))

/-- The routine whose output the next step of core `c` writes. -/
def State.writes : Option ρ :=
  match s.rest c with
  | .out r (_ :: _) :: _ => some r
  | _ => none

end Step

/-! ## The discipline -/

section Discipline

variable (exempt : ρ → Prop)

/-- Code that starts with the lock held as the first flag says, and ends with it held as the second
says, writes output only with the lock held, except in exempt routines. -/
inductive Disciplined : Bool → Prog ρ β → Bool → Prop
  | skip {h : Bool} : Disciplined h .skip h
  | out {r : ρ} {bs : List β} : Disciplined true (.out r bs) true
  | exempt {h : Bool} {r : ρ} {bs : List β} : exempt r → Disciplined h (.out r bs) h
  | acquire : Disciplined false .acquire true
  | release : Disciplined true .release false
  | seq {h i j : Bool} {p q : Prog ρ β} : Disciplined h p i → Disciplined i q j →
      Disciplined h (.seq p q) j
  | any {h i : Bool} {p : ℕ → Prog ρ β} : (∀ n, Disciplined h (p n) i) → Disciplined h (.any p) i
  | many {h : Bool} {p : Prog ρ β} : Disciplined h p h → Disciplined h (.many p) h
  | forever {h i : Bool} {p : Prog ρ β} : Disciplined h p h → Disciplined h (.forever p) i

/-- The same for all that a core has still to run. -/
inductive RestDisciplined : Bool → List (Prog ρ β) → Prop
  | nil {h : Bool} : RestDisciplined h []
  | cons {h i : Bool} {p : Prog ρ β} {k : List (Prog ρ β)} : Disciplined exempt h p i →
      RestDisciplined i k → RestDisciplined h (p :: k)

/-- What every run of disciplined programs keeps: no two cores hold the lock, and what each has
still to run fits whether it holds it. -/
structure Ok (s : State Core ρ β) : Prop where
  rest : ∀ c, RestDisciplined exempt (s.inside c) (s.rest c)
  held : ∀ c, s.inside c = true → s.word ≠ 0
  excl : ∀ c d, s.inside c = true → s.inside d = true → c = d
  armed : ∀ c, s.armed c = true → s.monitor c = true → s.word = 0

variable {exempt} {s s' : State Core ρ β} {c d : Core} {k : List (Prog ρ β)}

theorem ok_init {programs : Core → Prog ρ β}
    (h : ∀ c, ∃ i, Disciplined exempt false (programs c) i) : Ok exempt (init programs) where
  rest c := by
    obtain ⟨i, hi⟩ := h c
    exact .cons hi .nil
  held _ h := by cases h
  excl _ _ h := by cases h
  armed _ h := by cases h

/-- A fact about two components of every core, after a step that sets both for one core. -/
theorem forall_update₂ {α γ : Type*} (P : α → γ → Prop) {f : Core → α} {g : Core → γ}
    (h : ∀ d, P (f d) (g d)) {x : α} {y : γ} (hxy : P x y) (c d : Core) :
    P (Function.update f c x d) (Function.update g c y d) := by
  by_cases hd : d = c
  · subst hd
    rwa [Function.update_self, Function.update_self]
  · rw [Function.update_of_ne hd, Function.update_of_ne hd]
    exact h d

/-- The rest of core `c` after a step that changes only it. -/
theorem Ok.goto (h : Ok exempt s) (hk : RestDisciplined exempt (s.inside c) k) :
    Ok exempt (s.goto c k) where
  rest d := by
    have hrest := forall_update₂ (RestDisciplined exempt) h.rest hk c d
    rwa [Function.update_eq_self] at hrest
  held := h.held
  excl := h.excl
  armed := h.armed

theorem Ok.write (h : Ok exempt s) (b : β) : Ok exempt (s.write c b) :=
  ⟨h.rest, h.held, h.excl, h.armed⟩

theorem Ok.load (h : Ok exempt s) : Ok exempt (s.load c) where
  rest := h.rest
  held := h.held
  excl := h.excl
  armed := by
    have hself : (s.word == 0) = true → true = true → s.word = 0 := fun hw _ => beq_iff_eq.1 hw
    exact forall_update₂ (fun a m => a = true → m = true → s.word = 0) h.armed hself c

theorem Ok.retry (h : Ok exempt s) : Ok exempt (s.retry c) where
  rest := h.rest
  held := h.held
  excl := h.excl
  armed := by
    have hself : false = true → false = true → s.word = 0 := nofun
    exact forall_update₂ (fun a m => a = true → m = true → s.word = 0) h.armed hself c

/-- A core whose store-exclusive succeeds finds nobody inside. -/
theorem Ok.take (h : Ok exempt s) (ha : s.armed c = true) (hm : s.monitor c = true)
    (hk : RestDisciplined exempt true k) : Ok exempt (s.take c k) := by
  have hnone : ∀ d, s.inside d ≠ true := fun d hd => h.held d hd (h.armed c ha hm)
  have honly : ∀ d, (s.take c k).inside d = true → d = c := by
    intro d hd
    by_contra hdc
    exact hnone d ((Function.update_of_ne hdc ..).symm.trans hd)
  refine ⟨forall_update₂ (RestDisciplined exempt) h.rest hk c,
    fun d _ => show (1 : BitVec 32) ≠ 0 by decide, fun d e hd he => ?_, fun d _ hm' => by cases hm'⟩
  rw [honly d hd, honly e he]

/-- The core that is inside releases the lock. -/
theorem Ok.free (h : Ok exempt s) (hc : s.inside c = true)
    (hk : RestDisciplined exempt false k) : Ok exempt (s.free c k) := by
  have hnone : ∀ d, (s.free c k).inside d ≠ true := by
    intro d hd
    change Function.update s.inside c false d = true at hd
    by_cases hdc : d = c
    · subst hdc
      rw [Function.update_self] at hd
      cases hd
    · rw [Function.update_of_ne hdc] at hd
      exact hdc (h.excl d c hd hc)
  exact ⟨forall_update₂ (RestDisciplined exempt) h.rest hk c, fun d hd => absurd hd (hnone d),
    fun d _ hd => absurd hd (hnone d), fun d _ hm => by cases hm⟩

theorem ok_step {a : Act Core} (h : Ok exempt s) (hs : step s a = some s') : Ok exempt s' := by
  have hrest := h.rest a.core
  generalize hin : s.inside a.core = i at hrest
  unfold step at hs
  dsimp only at hs
  cases hr : s.rest a.core with
  | nil => rw [hr] at hs; cases hs
  | cons p k =>
    rw [hr] at hs hrest
    cases hrest with | cons hp hk
    -- the cases that go on with the same lock
    have hgoto : ∀ k, RestDisciplined exempt i k → Ok exempt (s.goto a.core k) := fun k hk =>
      h.goto (hin.symm ▸ hk)
    cases hp with
    | skip => obtain rfl := Option.some.inj hs; exact hgoto k hk
    | @out r bs =>
      cases bs with
      | nil => obtain rfl := Option.some.inj hs; exact hgoto k hk
      | cons b bs =>
        obtain rfl := Option.some.inj hs
        exact (h.write b).goto (hin.symm ▸ .cons .out hk)
    | @exempt _ r bs he =>
      cases bs with
      | nil => obtain rfl := Option.some.inj hs; exact hgoto k hk
      | cons b bs =>
        obtain rfl := Option.some.inj hs
        exact (h.write b).goto (hin.symm ▸ .cons (.exempt he) hk)
    | acquire =>
      obtain rfl := Option.some.inj hs
      by_cases harmed : s.armed a.core = true
      · rw [if_pos harmed]
        by_cases hok : a.choice ≠ 0 ∧ s.monitor a.core = true
        · rw [if_pos hok]
          exact h.take harmed hok.2 hk
        · rw [if_neg hok]
          exact h.retry
      · rw [if_neg harmed]
        exact h.load
    | release => obtain rfl := Option.some.inj hs; exact h.free hin hk
    | seq hp hq => obtain rfl := Option.some.inj hs; exact hgoto _ (.cons hp (.cons hq hk))
    | any hp => obtain rfl := Option.some.inj hs; exact hgoto _ (.cons (hp a.choice) hk)
    | many hp =>
      obtain rfl := Option.some.inj hs
      by_cases hzero : a.choice = 0
      · rw [if_pos hzero]
        exact hgoto k hk
      · rw [if_neg hzero]
        exact hgoto _ (.cons hp (.cons (.many hp) hk))
    | forever hp =>
      obtain rfl := Option.some.inj hs
      exact hgoto _ (.cons hp (.cons (.forever hp) hk))

/-- Output outside exempt routines is written with the lock held. -/
theorem Ok.inside_of_writes (h : Ok exempt s) {r : ρ} (hw : s.writes c = some r) (hr : ¬ exempt r) :
    s.inside c = true := by
  have hrest := h.rest c
  generalize s.inside c = i at hrest
  unfold State.writes at hw
  cases hk : s.rest c with
  | nil => rw [hk] at hw; cases hw
  | cons p k =>
    rw [hk] at hw hrest
    cases hrest with | cons hp _
    cases hp with
    | out => rfl
    | @exempt _ r' bs he =>
      cases bs with
      | nil => cases hw
      | cons b bs => exact absurd (Option.some.inj hw ▸ he) hr
    | _ => cases hw

end Discipline

/-! ## Contiguous output -/

section Contiguous

variable (exempt : ρ → Prop) (s : State Core ρ β) (a : Act Core)

/-- The step does not write output while another core holds the lock. -/
def Contiguous : Prop :=
  ∀ c, s.inside c = true → (s.writes a.core).isSome = true → a.core = c

/-- The step does not write output of an exempt routine while another core holds the lock. -/
def ExemptApart : Prop :=
  ∀ c r, s.inside c = true → s.writes a.core = some r → exempt r → a.core = c

/-- In every stretch of the run in which a core holds the lock, the output is a block of its own
items. -/
def BlocksContiguous (as : List (Act Core)) : Prop :=
  ∀ pre mid post, as = pre ++ mid ++ post → ∀ t t' c, exec step s pre = some t →
    exec step t mid = some t' → Along step (fun u _ => u.inside c = true) t mid →
    ∃ bs : List β, t'.output = t.output ++ bs.map (Prod.mk c)

variable {exempt s a} {s' : State Core ρ β}

theorem contiguous_iff (h : Ok exempt s) : Contiguous s a ↔ ExemptApart exempt s a := by
  constructor
  · intro hcont c r hc hw _
    exact hcont c hc (by rw [hw]; rfl)
  · intro hapart c hc hw
    obtain ⟨r, hr⟩ := Option.isSome_iff_exists.1 hw
    by_cases he : exempt r
    · exact hapart c r hc hr he
    · exact h.excl a.core c (h.inside_of_writes hr he) hc

/-- A step of a core adds at most one item to the output, and it is its own. -/
theorem step_output (hs : step s a = some s') :
    (s.writes a.core = none ∧ s'.output = s.output) ∨
      ∃ r b, s.writes a.core = some r ∧ s'.output = s.output ++ [(a.core, b)] := by
  unfold step at hs
  unfold State.writes
  dsimp only at hs
  cases hr : s.rest a.core with
  | nil => rw [hr] at hs; cases hs
  | cons p k =>
    rw [hr] at hs
    cases p with
    | out r bs =>
      cases bs with
      | nil => obtain rfl := Option.some.inj hs; exact Or.inl ⟨rfl, rfl⟩
      | cons b bs => obtain rfl := Option.some.inj hs; exact Or.inr ⟨r, b, rfl, rfl⟩
    | acquire =>
      obtain rfl := Option.some.inj hs
      refine Or.inl ⟨rfl, ?_⟩
      by_cases harmed : s.armed a.core = true
      · rw [if_pos harmed]
        by_cases hok : a.choice ≠ 0 ∧ s.monitor a.core = true
        · rw [if_pos hok]; rfl
        · rw [if_neg hok]; rfl
      · rw [if_neg harmed]; rfl
    | _ => obtain rfl := Option.some.inj hs; exact Or.inl ⟨rfl, rfl⟩

theorem along_contiguous_iff (h : Ok exempt s) {as : List (Act Core)} {s' : State Core ρ β}
    (hs : exec step s as = some s') :
    Along step Contiguous s as ↔ Along step (ExemptApart exempt) s as := by
  induction as generalizing s with
  | nil => exact Iff.rfl
  | cons a as ih =>
    obtain ⟨s₁, hs₁, hs⟩ := exec_cons_eq_some.1 hs
    rw [along_cons_of_step _ _ hs₁, along_cons_of_step _ _ hs₁, contiguous_iff h,
      ih (ok_step h hs₁) hs]

theorem block_of_along {c : Core} {as : List (Act Core)} (hcont : Along step Contiguous s as)
    (hin : Along step (fun u _ => u.inside c = true) s as) (hs : exec step s as = some s') :
    ∃ bs : List β, s'.output = s.output ++ bs.map (Prod.mk c) := by
  induction as generalizing s with
  | nil => exact ⟨[], by rw [Option.some.inj hs]; simp⟩
  | cons a as ih =>
    obtain ⟨s₁, hs₁, hs⟩ := exec_cons_eq_some.1 hs
    obtain ⟨bs, hbs⟩ := ih (hcont.2 s₁ hs₁) (hin.2 s₁ hs₁) hs
    rcases step_output hs₁ with ⟨-, hout⟩ | ⟨r, b, hw, hout⟩
    · exact ⟨bs, by rw [hbs, hout]⟩
    · have hc : a.core = c := hcont.1 c hin.1 (by rw [hw]; rfl)
      exact ⟨b :: bs, by rw [hbs, hout, hc]; simp⟩

/-- **Blocks of output.** The output of each core that holds the lock is contiguous exactly if no
step writes while another core holds it. -/
theorem blocksContiguous_iff {as : List (Act Core)} (hs : exec step s as = some s') :
    BlocksContiguous s as ↔ Along step Contiguous s as := by
  constructor
  · intro hblocks
    refine along_of_forall_prefix fun pre a t hpre ht _ c hc hw => ?_
    obtain ⟨post, hpost⟩ := hpre
    obtain ⟨t', ht'⟩ : ∃ t', step t a = some t' := by
      obtain ⟨u, hu, -⟩ := exec_append_eq_some.1 (hpost ▸ hs)
      obtain ⟨t₁, ht₁, hta⟩ := exec_concat_eq_some.1 hu
      exact ⟨u, Option.some.inj (ht.symm.trans ht₁) ▸ hta⟩
    obtain ⟨bs, hbs⟩ := hblocks pre [a] post hpost.symm t t' c ht
      (exec_cons_eq_some.2 ⟨t', ht', rfl⟩) ⟨hc, fun _ _ => trivial⟩
    rcases step_output ht' with ⟨hnone, -⟩ | ⟨r, b, -, hout⟩
    · rw [hnone] at hw
      cases hw
    · have hlist : [(a.core, b)] = bs.map (Prod.mk c) := List.append_cancel_left (hout.symm.trans hbs)
      have hmem : (a.core, b) ∈ bs.map (Prod.mk c) := hlist ▸ List.mem_singleton_self _
      obtain ⟨b', -, hb'⟩ := List.mem_map.1 hmem
      exact (congrArg Prod.fst hb').symm
  · rintro hcont pre mid post rfl t t' c hpre hmid hin
    rw [List.append_assoc] at hcont
    have hmid' := ((along_append hmid).1 ((along_append hpre).1 hcont).2).1
    exact block_of_along hmid' hin hmid

end Contiguous

end LockDiscipline
