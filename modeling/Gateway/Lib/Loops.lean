import Mathlib.Data.Nat.Notation
import Mathlib.Tactic.Common

/-!
# The invariant rule of a counting loop

A C loop that counts from zero to a bound is a fold over the counter's values. An invariant indexed
by the counter holds after the loop when it holds before it and an iteration carries it one further.
-/

namespace Loops

variable {σ : Type*} {I : ℕ → σ → Prop} {n : ℕ} {s : σ}

theorem foldl_finRange_inv {f : σ → Fin n → σ} (hstep : ∀ i s, I i.val s → I (i.val + 1) (f s i))
    (h : I 0 s) : I n ((List.finRange n).foldl f s) := by
  induction n with
  | zero => exact h
  | succ n ih =>
    rw [List.finRange_succ_last, List.foldl_append, List.foldl_map]
    exact hstep (Fin.last n) _ (ih fun i s hs => hstep i.castSucc s hs)

end Loops
