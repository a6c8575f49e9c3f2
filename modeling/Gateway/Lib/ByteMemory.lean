import Mathlib.Algebra.Group.Nat.Defs
import Mathlib.Data.Nat.Notation
import Mathlib.Tactic.Common

/-!
# Byte-addressed memory

A memory gives every address a byte. `read n` and `write n` access `n` bytes as one little-endian
word. A read sees the last write to its bytes (`read_write`), and only that (`read_write_of_apart`,
`read_congr`).
-/

namespace ByteMemory

abbrev Memory := ℕ → BitVec 8

variable {n k : ℕ}

/-- The value of the `n` bytes from `a`, the least significant first. -/
def readNat : ℕ → Memory → ℕ → ℕ
  | 0, _, _ => 0
  | n + 1, m, a => (m a).toNat + 2 ^ 8 * readNat n m (a + 1)

/-- The `n` bytes from `a` as one word. -/
def read (n : ℕ) (m : Memory) (a : ℕ) : BitVec (8 * n) := BitVec.ofNat (8 * n) (readNat n m a)

/-- The bytes of `v` stored from `a` on. -/
def write (n : ℕ) (m : Memory) (a : ℕ) (v : BitVec (8 * n)) : Memory := fun b =>
  if a ≤ b ∧ b < a + n then v.extractLsb' (8 * (b - a)) 8 else m b

/-- The addresses of `n` bytes from `a` and of `k` bytes from `b` have none in common. -/
def Apart (a n b k : ℕ) : Prop := a + n ≤ b ∨ b + k ≤ a

theorem write_of_lt {m : Memory} {a b : ℕ} {v : BitVec (8 * n)} (h : b < a ∨ a + n ≤ b) :
    write n m a v b = m b := by
  unfold write
  rw [if_neg]
  omega

theorem readNat_congr {m m' : Memory} {a : ℕ} (h : ∀ b, a ≤ b → b < a + n → m b = m' b) :
    readNat n m a = readNat n m' a := by
  induction n generalizing a with
  | zero => rfl
  | succ n ih =>
    unfold readNat
    rw [h a (by omega) (by omega), ih fun b h₁ h₂ => h b (by omega) (by omega)]

theorem read_congr {m m' : Memory} {a : ℕ} (h : ∀ b, a ≤ b → b < a + n → m b = m' b) :
    read n m a = read n m' a := by
  rw [read, read, readNat_congr h]

theorem read_write_of_apart {m : Memory} {a b : ℕ} {v : BitVec (8 * k)} (h : Apart a n b k) :
    read n (write k m b v) a = read n m a := by
  refine read_congr fun c h₁ h₂ => write_of_lt ?_
  unfold Apart at h
  omega

/-- Bytes that are the base 256 digits of `x` read as `x`. -/
theorem readNat_digits {m : Memory} {a x : ℕ}
    (h : ∀ i, i < n → (m (a + i)).toNat = x / 2 ^ (8 * i) % 2 ^ 8) :
    readNat n m a = x % 2 ^ (8 * n) := by
  induction n generalizing a x with
  | zero => exact (Nat.mod_one x).symm
  | succ n ih =>
    have hrest : readNat n m (a + 1) = x / 2 ^ 8 % 2 ^ (8 * n) := by
      refine ih fun i hi => ?_
      have := h (i + 1) (by omega)
      rwa [Nat.div_div_eq_div_mul, ← Nat.pow_add, Nat.add_assoc, Nat.add_comm 1,
        Nat.add_comm 8, ← Nat.mul_succ]
    have hfirst : (m a).toNat = x % 2 ^ 8 := by simpa using h 0 (by omega)
    rw [readNat, hrest, hfirst, Nat.mul_succ, Nat.add_comm (8 * n), Nat.pow_add, Nat.mod_mul]

@[simp] theorem read_write (m : Memory) (a : ℕ) (v : BitVec (8 * n)) :
    read n (write n m a v) a = v := by
  apply BitVec.eq_of_toNat_eq
  rw [read, BitVec.toNat_ofNat, readNat_digits (x := v.toNat), Nat.mod_mod,
    Nat.mod_eq_of_lt v.isLt]
  intro i hi
  have hmem : a ≤ a + i ∧ a + i < a + n := by omega
  rw [write, if_pos hmem, BitVec.extractLsb'_toNat, Nat.shiftRight_eq_div_pow, Nat.add_sub_cancel_left]

end ByteMemory
