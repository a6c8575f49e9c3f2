import Gateway.Lib.CyclicQueue

/-!
# Round robin

`n` stations in a circle, some of them ready. Starting behind the station `cur`, the scan asks one
after the other and takes the first that is ready; if it comes round without finding one, it stays
at `cur`. The distance from `cur` forward to a ready station drops with every scan (`next_closer`),
so the station is reached.
-/

namespace RoundRobin

open CyclicQueue

variable (ready : ℕ → Bool) (n cur : ℕ)

/-- The scan from the `i`-th station after `cur`, with `k` stations still to ask. -/
def scan : ℕ → ℕ → ℕ
  | 0, _ => cur
  | k + 1, i => if ready ((cur + i) % n) then (cur + i) % n else scan k (i + 1)

/-- The station the scan takes. -/
def next : ℕ := scan ready n cur n 1

/-- The distance from `cur` forward to `j`. -/
def distance (j : ℕ) : ℕ := used n j cur

theorem scan_eq (k i : ℕ) :
    scan ready n cur k i = cur ∨
      ∃ d, i ≤ d ∧ scan ready n cur k i = (cur + d) % n ∧ ready ((cur + d) % n) := by
  induction k generalizing i with
  | zero => exact .inl rfl
  | succ k ih =>
    unfold scan
    split
    · next h => exact .inr ⟨i, Nat.le_refl i, rfl, h⟩
    · obtain h | ⟨d, hd, h⟩ := ih (i + 1)
      · exact .inl h
      · exact .inr ⟨d, by omega, h⟩

variable {n cur}

theorem next_lt (hcur : cur < n) : next ready n cur < n := by
  obtain h | ⟨d, -, h, -⟩ := scan_eq ready n cur n 1
  · rw [next, h]
    exact hcur
  · rw [next, h]
    exact Nat.mod_lt _ (by omega)

variable {ready}

/-- The scan does not pass a ready station. -/
theorem scan_le {k i d : ℕ} (hi : i ≤ d) (hd : d < i + k) (hr : ready ((cur + d) % n)) :
    ∃ e, i ≤ e ∧ e ≤ d ∧ scan ready n cur k i = (cur + e) % n ∧ ready ((cur + e) % n) := by
  induction k generalizing i with
  | zero => omega
  | succ k ih =>
    unfold scan
    split
    · next h => exact ⟨i, Nat.le_refl i, hi, rfl, h⟩
    · next h =>
      have hne : i ≠ d := by
        rintro rfl
        exact h hr
      obtain ⟨e, he, hed, h⟩ := ih (i := i + 1) (by omega) (by omega)
      exact ⟨e, by omega, hed, h⟩

/-- The scan leaves `cur` only for a ready station. -/
theorem ready_next (h : next ready n cur ≠ cur) : ready (next ready n cur) := by
  obtain h' | ⟨d, -, h', hr⟩ := scan_eq ready n cur n 1
  · exact absurd h' h
  · rw [next, h']
    exact hr

/-- The station behind `cur` comes first. -/
theorem next_eq_succ (hcur : cur < n) (hr : ready ((cur + 1) % n)) :
    next ready n cur = (cur + 1) % n := by
  obtain ⟨k, rfl⟩ : ∃ k, n = k + 1 := ⟨n - 1, by omega⟩
  exact if_pos hr

variable {j : ℕ} (hcur : cur < n) (hj : j < n)
include hcur hj

theorem distance_eq_zero : distance n cur j = 0 ↔ j = cur := used_eq_zero hj hcur

omit hj in
theorem distance_lt : distance n cur j < n := used_lt hcur

/-- **Progress.** The scan comes nearer to every ready station other than the one it starts from. -/
theorem next_closer (hr : ready j) (hne : j ≠ cur) :
    distance n (next ready n cur) j < distance n cur j := by
  have hpos : distance n cur j ≠ 0 := fun h => hne ((distance_eq_zero hcur hj).1 h)
  have hlt : distance n cur j < n := used_lt hcur
  have hcell : (cur + distance n cur j) % n = j := cell_used hj hcur
  have hready : ready ((cur + distance n cur j) % n) := by rwa [hcell]
  obtain ⟨e, he, hle, hnext, -⟩ := scan_le (k := n) (i := 1) (by omega) (by omega) hready
  have hn : (cur + e) % n < n := Nat.mod_lt _ (by omega)
  rw [cell_eq hcur (by omega)] at hnext hn
  rw [next, hnext]
  unfold distance at *
  rw [used_eq hj hcur] at *
  rw [used_eq hj hn]
  split at hn <;> split at hle <;> simp only [*, if_true, if_false] at * <;> split <;> omega

end RoundRobin
