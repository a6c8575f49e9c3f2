import Mathlib.Data.Nat.Notation
import Mathlib.Tactic.Common

/-!
# A sequence kept in a circular window

A recurrence that looks back at most `n` terms needs no more than `n` slots: term `i` of the
sequence is stored in slot `i % n`, over term `i - n`. `HoldsLast` is what the window then contains.
-/

namespace SlidingWindow

variable {α : Type*} {n : ℕ}

/-- The window holds the last `n` terms before term `t`. -/
def HoldsLast (seq : ℕ → α) (t : ℕ) (window : Vector α n) : Prop :=
  ∀ i slot (hslot : slot < n), i < t → t ≤ i + n → i % n = slot → window[slot] = seq i

variable {seq : ℕ → α} {t : ℕ} {window : Vector α n}

theorem holdsLast_zero (window : Vector α n) : HoldsLast seq 0 window :=
  fun _ _ _ hlt => absurd hlt (Nat.not_lt_zero _)

/-- Storing the next term drops the oldest one only. -/
theorem HoldsLast.push (h : HoldsLast seq t window) {slot : ℕ} (hslot : slot < n) (ht : t % n = slot) :
    HoldsLast seq (t + 1) (window.set slot (seq t) hslot) := by
  intro i j hj hlt hle hmod
  rcases Nat.lt_succ_iff_lt_or_eq.1 hlt with hold | rfl
  · have hne : slot ≠ j := by
      rintro rfl
      -- two terms of one slot are a whole window apart
      have hmul : (t - i) % n = 0 := Nat.sub_mod_eq_zero_of_mod_eq (ht.trans hmod.symm)
      have hge := Nat.le_of_dvd (by omega) (Nat.dvd_of_mod_eq_zero hmul)
      omega
    rw [Vector.getElem_set_ne _ _ hne]
    exact h i j hj hold (by omega) hmod
  · obtain rfl : slot = j := ht.symm.trans hmod
    exact Vector.getElem_set_self hslot

end SlidingWindow
