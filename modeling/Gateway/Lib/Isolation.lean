import Mathlib.Tactic.Common
import Gateway.Lib.Exec

/-!
# Isolation of the users of one state

Several users act on one state, of which each has its own view. `Unwinding` is a condition on single
steps: a step changes only the view of the user who makes it, and what it makes of that view depends
on nothing else. Then a user sees after any interleaved run what it sees after its own actions alone
(`Unwinding.alone`). The condition need only hold of the steps that satisfy `G`.
-/

namespace Isolation

open Runs

variable {ι α σ : Type*} {ν : ι → Type*} [DecidableEq ι]

/-- The actions of the user `i`. -/
def actionsOf (i : ι) (as : List (ι × α)) : List (ι × α) := as.filter fun a => a.1 = i

theorem actionsOf_cons_self (i : ι) (x : α) (as : List (ι × α)) :
    actionsOf i ((i, x) :: as) = (i, x) :: actionsOf i as := by simp [actionsOf]

theorem actionsOf_cons_of_ne {i j : ι} (h : j ≠ i) (x : α) (as : List (ι × α)) :
    actionsOf i ((j, x) :: as) = actionsOf i as := by simp [actionsOf, h]

variable (step : σ → ι × α → Option σ) (view : ∀ i, σ → ν i) (G : σ → ι × α → Prop)

structure Unwinding : Prop where
  /-- The others see nothing of a step. -/
  others : ∀ s i j x s', G s (j, x) → step s (j, x) = some s' → j ≠ i → view i s' = view i s
  /-- What a step does to the view of its user depends on that view only. -/
  own : ∀ s t i x s', G s (i, x) → view i t = view i s → step s (i, x) = some s' →
    ∃ t', step t (i, x) = some t' ∧ view i t' = view i s'

variable {step view G}

/-- **Isolation.** After an interleaved run a user sees what it sees after its own actions alone. -/
theorem Unwinding.alone (hU : Unwinding step view G) {s t s' : σ} {as : List (ι × α)} {i : ι}
    (hG : Along step G s as) (h : exec step s as = some s') (hv : view i t = view i s) :
    ∃ t', exec step t (actionsOf i as) = some t' ∧ view i t' = view i s' := by
  induction as generalizing s t with
  | nil =>
    rw [← Option.some.inj h]
    exact ⟨t, rfl, hv⟩
  | cons a as ih =>
    obtain ⟨j, x⟩ := a
    obtain ⟨s₁, hs, h⟩ := exec_cons_eq_some.1 h
    obtain ⟨hGs, hG⟩ := (along_cons_of_step step G hs).1 hG
    by_cases hji : j = i
    · subst hji
      obtain ⟨t₁, ht, hv₁⟩ := hU.own s t j x s₁ hGs hv hs
      obtain ⟨t', ht', hv'⟩ := ih hG h hv₁
      refine ⟨t', ?_, hv'⟩
      rw [actionsOf_cons_self]
      exact exec_cons_eq_some.2 ⟨t₁, ht, ht'⟩
    · rw [actionsOf_cons_of_ne hji]
      apply ih hG h
      rw [hv, hU.others s i j x s₁ hGs hs hji]

end Isolation
