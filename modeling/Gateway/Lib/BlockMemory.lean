import Gateway.Lib.ByteMemory

/-!
# Copying and clearing doublewords

What a loop that copies `n` doublewords upwards leaves in memory when source and destination are
apart, and what a loop that clears them leaves.
-/

namespace ByteMemory

variable {n : ℕ}

/-- `n` doublewords from `src` copied to `dst`, one after the other. -/
def copyWords : ℕ → Memory → ℕ → ℕ → Memory
  | 0, m, _, _ => m
  | n + 1, m, src, dst => copyWords n (write 8 m dst (read 8 m src)) (src + 8) (dst + 8)

/-- Zero stored to `n` doublewords from `dst` on. -/
def clearWords : ℕ → Memory → ℕ → Memory
  | 0, m, _ => m
  | n + 1, m, dst => clearWords n (write 8 m dst 0) (dst + 8)

theorem readNat_div (m : Memory) (a : ℕ) {i : ℕ} (hi : i < n) :
    readNat n m a / 2 ^ (8 * i) % 2 ^ 8 = (m (a + i)).toNat := by
  induction n generalizing a i with
  | zero => omega
  | succ n ih =>
    have hbyte : (m a).toNat < 2 ^ 8 := (m a).isLt
    cases i with
    | zero =>
      rw [readNat, Nat.mul_zero, Nat.pow_zero, Nat.div_one, Nat.add_mul_mod_self_left,
        Nat.mod_eq_of_lt hbyte, Nat.add_zero]
    | succ i =>
      have hrest : readNat (n + 1) m a / 2 ^ 8 = readNat n m (a + 1) := by
        rw [readNat, Nat.add_mul_div_left _ _ (by decide), Nat.div_eq_of_lt hbyte, Nat.zero_add]
      rw [Nat.mul_succ, Nat.add_comm (8 * i), Nat.pow_add, ← Nat.div_div_eq_div_mul, hrest,
        ih (a + 1) (by omega), Nat.add_right_comm, Nat.add_assoc]

theorem readNat_lt (n : ℕ) (m : Memory) (a : ℕ) : readNat n m a < 2 ^ (8 * n) := by
  induction n generalizing a with
  | zero => exact Nat.two_pow_pos _
  | succ n ih =>
    have hbyte : (m a).toNat < 2 ^ 8 := (m a).isLt
    have hrest := ih (a + 1)
    rw [readNat, Nat.mul_succ, Nat.add_comm (8 * n), Nat.pow_add]
    calc (m a).toNat + 2 ^ 8 * readNat n m (a + 1)
        < 2 ^ 8 + 2 ^ 8 * readNat n m (a + 1) := Nat.add_lt_add_right hbyte _
      _ = 2 ^ 8 * (readNat n m (a + 1) + 1) := by rw [Nat.mul_succ, Nat.add_comm]
      _ ≤ 2 ^ 8 * 2 ^ (8 * n) := Nat.mul_le_mul_left _ hrest

/-- A byte of a value that was read. -/
theorem extract_read (m : Memory) (a : ℕ) {i : ℕ} (hi : i < n) :
    (read n m a).extractLsb' (8 * i) 8 = m (a + i) := by
  apply BitVec.eq_of_toNat_eq
  rw [BitVec.extractLsb'_toNat, Nat.shiftRight_eq_div_pow, read, BitVec.toNat_ofNat,
    Nat.mod_eq_of_lt (readNat_lt n m a), readNat_div m a hi]

/-- A value that is read and stored again is copied byte by byte. -/
theorem write_read (m : Memory) (src dst a : ℕ) : write n m dst (read n m src) a =
    if dst ≤ a ∧ a < dst + n then m (src + (a - dst)) else m a := by
  unfold write
  split
  · next h => exact extract_read m src (by omega)
  · rfl

theorem copyWords_eq (m : Memory) (src dst a : ℕ) (h : Apart src (8 * n) dst (8 * n)) :
    copyWords n m src dst a =
      if dst ≤ a ∧ a < dst + 8 * n then m (src + (a - dst)) else m a := by
  unfold Apart at h
  induction n generalizing m src dst with
  | zero => rw [copyWords, if_neg (by omega)]
  | succ n ih =>
    rw [copyWords, ih _ _ _ (by omega), write_read, write_read]
    by_cases hrest : dst + 8 ≤ a ∧ a < dst + 8 + 8 * n
    · -- the words still to be copied have not been overwritten
      rw [if_pos hrest, if_neg (by omega), if_pos (by omega)]
      congr 1
      omega
    · rw [if_neg hrest]
      by_cases hfirst : dst ≤ a ∧ a < dst + 8
      · rw [if_pos hfirst, if_pos (by omega)]
      · rw [if_neg hfirst, if_neg (by omega)]

theorem write_zero (m : Memory) (dst a : ℕ) :
    write n m dst 0 a = if dst ≤ a ∧ a < dst + n then 0 else m a := by
  unfold write
  split
  · exact BitVec.extractLsb'_zero
  · rfl

theorem clearWords_eq (m : Memory) (dst a : ℕ) :
    clearWords n m dst a = if dst ≤ a ∧ a < dst + 8 * n then 0 else m a := by
  induction n generalizing m dst with
  | zero => rw [clearWords, if_neg (by omega)]
  | succ n ih =>
    rw [clearWords, ih, write_zero]
    by_cases hrest : dst + 8 ≤ a ∧ a < dst + 8 + 8 * n
    · rw [if_pos hrest, if_pos (by omega)]
    · rw [if_neg hrest]
      by_cases hfirst : dst ≤ a ∧ a < dst + 8
      · rw [if_pos hfirst, if_pos (by omega)]
      · rw [if_neg hfirst, if_neg (by omega)]

end ByteMemory
