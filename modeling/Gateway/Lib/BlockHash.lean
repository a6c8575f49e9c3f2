import Mathlib.Data.List.Basic
import Mathlib.Data.List.GetD
import Mathlib.Tactic.Common

/-!
# Hashing block by block

A message is cut into blocks of `n` symbols, and a compression function folds them into a chaining
value (`foldBlocks`). A streaming hash keeps the chaining value of the full blocks and the symbols
after them in a buffer. `Absorbed` relates what it keeps to the message so far: a symbol goes to the
buffer (`Absorbed.push`), or a tail fills the block up and is compressed (`Absorbed.complete`).
-/

namespace BlockHash

variable {α C : Type*} [Inhabited α] {n : ℕ}

/-- Block `i` of a message. -/
def block (n : ℕ) (msg : List α) (i : ℕ) : Vector α n :=
  Vector.ofFn fun j => msg.getD (n * i + j) default

/-- The chaining value after the full blocks of a message. -/
def foldBlocks (f : C → Vector α n → C) (c : C) (msg : List α) : C :=
  (List.range (msg.length / n)).foldl (fun c i => f c (block n msg i)) c

/-- The buffer with a tail from `off` on. -/
def fill (buf : Vector α n) (off : ℕ) (tail : List α) : Vector α n :=
  Vector.ofFn fun j => if j < off then buf[j] else tail.getD (j - off) default

/-- `c`, `buf` and `off` are what a streaming hash keeps of `msg`. -/
structure Absorbed (f : C → Vector α n → C) (c₀ : C) (msg : List α) (c : C) (buf : Vector α n)
    (off : ℕ) : Prop where
  chain : c = foldBlocks f c₀ msg
  offset : off = msg.length % n
  buffer : ∀ j : Fin n, j < off → buf[j] = msg.getD (n * (msg.length / n) + j) default

variable {f : C → Vector α n → C} {c₀ c : C} {msg tail : List α} {buf : Vector α n} {off : ℕ}

/-! ## The buffer -/

theorem getElem_fill {j : ℕ} (hj : j < n) :
    (fill buf off tail)[j] = if j < off then buf[j] else tail.getD (j - off) default := by
  simp [fill]

/-- The first symbol of the tail may be stored on its own. -/
theorem fill_cons (a : α) (h : off < n) :
    fill (buf.setIfInBounds off a) (off + 1) tail = fill buf off (a :: tail) := by
  refine Vector.ext fun j hj => ?_
  rw [getElem_fill hj, getElem_fill hj, Vector.getElem_setIfInBounds]
  rcases Nat.lt_trichotomy j off with hlt | rfl | hgt
  · rw [if_pos (by omega), if_neg (by omega), if_pos hlt]
  · simp
  · rw [if_neg (by omega), if_neg (by omega), show j - off = j - (off + 1) + 1 by omega]
    rfl

theorem fill_full (h : n ≤ off) : fill buf off [] = buf :=
  Vector.ext fun j hj => by rw [getElem_fill hj, if_pos (by omega)]

/-! ## Blocks of a longer message -/

theorem block_append {i : ℕ} (hi : i < msg.length / n) :
    block n (msg ++ tail) i = block n msg i := by
  refine Vector.ext fun j hj => ?_
  have hlt : n * i + j < msg.length := by
    have hle := Nat.mul_le_mul_left n (Nat.succ_le_of_lt hi)
    have hdiv := Nat.mul_div_le msg.length n
    rw [Nat.mul_succ] at hle
    omega
  unfold block
  rw [Vector.getElem_ofFn, Vector.getElem_ofFn, List.getD_append _ _ _ _ hlt]

theorem foldl_append_blocks :
    (List.range (msg.length / n)).foldl (fun c i => f c (block n (msg ++ tail) i)) c =
      foldBlocks f c msg :=
  List.foldl_ext _ _ _ fun c i hi => by rw [block_append (List.mem_range.1 hi)]

/-- A tail that does not end a block. -/
theorem foldBlocks_append (h : (msg ++ tail).length / n = msg.length / n) :
    foldBlocks f c (msg ++ tail) = foldBlocks f c msg := by
  rw [foldBlocks, h]
  exact foldl_append_blocks

/-- A tail that ends one block. -/
theorem foldBlocks_append_block (h : (msg ++ tail).length / n = msg.length / n + 1) :
    foldBlocks f c (msg ++ tail) =
      f (foldBlocks f c msg) (block n (msg ++ tail) (msg.length / n)) := by
  rw [foldBlocks, h, List.range_succ, List.foldl_append, foldl_append_blocks]
  rfl

/-! ## Absorbing -/

theorem absorbed_nil (buf : Vector α n) : Absorbed f c [] c buf 0 where
  chain := by simp [foldBlocks]
  offset := by simp
  buffer _ h := by simp at h

/-- The block that a tail ends: the buffered symbols and the tail. -/
theorem Absorbed.block_eq_fill (h : Absorbed f c₀ msg c buf off) :
    block n (msg ++ tail) (msg.length / n) = fill buf off tail := by
  refine Vector.ext fun j hj => ?_
  have hlen : n * (msg.length / n) + off = msg.length := by
    rw [h.offset, Nat.div_add_mod]
  unfold block
  rw [Vector.getElem_ofFn, getElem_fill hj]
  dsimp only
  by_cases hj' : j < off
  · rw [if_pos hj', List.getD_append _ _ _ _ (by omega)]
    exact (h.buffer ⟨j, hj⟩ hj').symm
  · rw [if_neg hj', List.getD_append_right _ _ _ _ (by omega)]
    congr 1
    omega

/-- A symbol that does not end the block is kept in the buffer. -/
theorem Absorbed.push (h : Absorbed f c₀ msg c buf off) (hoff : off + 1 < n) (a : α) :
    Absorbed f c₀ (msg ++ [a]) c (buf.setIfInBounds off a) (off + 1) := by
  have hlen : n * (msg.length / n) + off = msg.length := by
    rw [h.offset, Nat.div_add_mod]
  have hsplit : (msg ++ [a]).length = off + 1 + n * (msg.length / n) := by
    rw [List.length_append, List.length_singleton]
    omega
  have hdiv : (msg ++ [a]).length / n = msg.length / n := by
    rw [hsplit, Nat.add_mul_div_left _ _ (by omega), Nat.div_eq_of_lt hoff, Nat.zero_add]
  refine ⟨?_, ?_, fun j hj => ?_⟩
  · rw [foldBlocks_append hdiv, h.chain]
  · rw [hsplit, Nat.add_mul_mod_self_left, Nat.mod_eq_of_lt hoff]
  · rw [hdiv, Fin.getElem_fin, Vector.getElem_setIfInBounds]
    by_cases hlast : off = j.val
    · rw [if_pos hlast, List.getD_append_right _ _ _ _ (by omega),
        show n * (msg.length / n) + j.val - msg.length = 0 by omega]
      rfl
    · rw [if_neg hlast, List.getD_append _ _ _ _ (by omega)]
      exact h.buffer j (by omega)

/-- A tail that fills the block up is compressed with it; the buffer counts as empty. -/
theorem Absorbed.complete (h : Absorbed f c₀ msg c buf off) (buf' : Vector α n)
    (htail : off + tail.length = n) (hn : 0 < n) : Absorbed f c₀ (msg ++ tail) (f c (fill buf off tail)) buf' 0 := by
  have hlen : n * (msg.length / n) + off = msg.length := by
    rw [h.offset, Nat.div_add_mod]
  have hsplit : (msg ++ tail).length = n * (msg.length / n + 1) := by
    rw [List.length_append, Nat.mul_succ]
    omega
  have hdiv : (msg ++ tail).length / n = msg.length / n + 1 := by
    rw [hsplit, Nat.mul_div_cancel_left _ hn]
  refine ⟨?_, ?_, fun j hj => absurd hj (Nat.not_lt_zero _)⟩
  · rw [foldBlocks_append_block hdiv, h.block_eq_fill, h.chain]
  · rw [hsplit, Nat.mul_mod_right]

end BlockHash
