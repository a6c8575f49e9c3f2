import Mathlib.Logic.Function.Basic
import Gateway.Lib.ByteMemory

/-!
# Objects in memory

A `View` is what the bytes of an object mean: a value that depends on no other byte. A write that
is apart from the object leaves the value alone (`View.load_write`), and a write to one of several
objects that are apart changes the value of that one only (`load_write_update`).
-/

namespace ByteMemory

variable {ρ ι : Type*} {n : ℕ}

/-- The memories agree on the `size` bytes from `base`. -/
def AgreeOn (base size : ℕ) (m m' : Memory) : Prop := ∀ a, base ≤ a → a < base + size → m a = m' a

instance instDecidableApart (a n b k : ℕ) : Decidable (Apart a n b k) :=
  inferInstanceAs (Decidable (a + n ≤ b ∨ b + k ≤ a))

/-- A part of an object is apart from what the object is apart from. -/
theorem Apart.part {b k base size o : ℕ} (h : Apart b k base size) (ho : o + n ≤ k) :
    Apart (b + o) n base size := by
  unfold Apart at *
  omega

structure View (ρ : Type*) where
  base : ℕ
  size : ℕ
  load : Memory → ρ
  load_congr : ∀ m m', AgreeOn base size m m' → load m = load m'

theorem agreeOn_write {base size a : ℕ} (h : Apart a n base size) (m : Memory)
    (v : BitVec (8 * n)) : AgreeOn base size (write n m a v) m := by
  intro b hb hlt
  refine write_of_lt ?_
  unfold Apart at h
  omega

theorem View.load_write (V : View ρ) {a : ℕ} (h : Apart a n V.base V.size) (m : Memory)
    (v : BitVec (8 * n)) : V.load (write n m a v) = V.load m :=
  V.load_congr _ _ (agreeOn_write h m v)

/-- A write into the object at index `i` of a family of objects that are apart. -/
theorem load_write_update [DecidableEq ι] (V : ι → View ρ)
    (hV : ∀ i j, i ≠ j → Apart (V i).base (V i).size (V j).base (V j).size) {i : ι} {a : ℕ}
    (hlo : (V i).base ≤ a) (hhi : a + n ≤ (V i).base + (V i).size) (m : Memory)
    (v : BitVec (8 * n)) {x : ρ} (hx : (V i).load (write n m a v) = x) :
    (fun j => (V j).load (write n m a v)) = Function.update (fun j => (V j).load m) i x := by
  funext j
  by_cases hji : j = i
  · subst hji
    rw [Function.update_self, hx]
  · rw [Function.update_of_ne hji]
    refine (V j).load_write ?_ m v
    have := hV i j (Ne.symm hji)
    unfold Apart at this ⊢
    omega

/-! ## Words and arrays of bytes -/

theorem read_agreeOn {base size a : ℕ} {m m' : Memory} (h : AgreeOn base size m m')
    (hlo : base ≤ a) (hhi : a + n ≤ base + size) : read n m a = read n m' a :=
  read_congr fun b h₁ h₂ => h b (by omega) (by omega)

/-- The `n` bytes from `base`. -/
def bytesAt (n : ℕ) (m : Memory) (base : ℕ) : Vector (BitVec 8) n := Vector.ofFn fun i => m (base + i)

@[simp] theorem getElem_bytesAt (m : Memory) (base : ℕ) {i : ℕ} (hi : i < n) :
    (bytesAt n m base)[i] = m (base + i) := Vector.getElem_ofFn ..

theorem bytesAt_agreeOn {base size a : ℕ} {m m' : Memory} (h : AgreeOn base size m m')
    (hlo : base ≤ a) (hhi : a + n ≤ base + size) : bytesAt n m a = bytesAt n m' a := by
  refine Vector.ext fun i hi => ?_
  rw [getElem_bytesAt, getElem_bytesAt]
  exact h _ (by omega) (by omega)

/-- A write of one byte. -/
theorem write_one (m : Memory) (a : ℕ) (v : BitVec (8 * 1)) : write 1 m a v = Function.update m a v := by
  funext b
  unfold write
  by_cases hb : b = a
  · subst hb
    rw [if_pos (by omega), Function.update_self, Nat.sub_self]
    simp
  · rw [if_neg (by omega), Function.update_of_ne hb]

theorem bytesAt_write_one (m : Memory) (base : ℕ) {i : ℕ} (hi : i < n) (v : BitVec (8 * 1)) :
    bytesAt n (write 1 m (base + i) v) base = (bytesAt n m base).set i v := by
  refine Vector.ext fun j hj => ?_
  rw [getElem_bytesAt, Vector.getElem_set, write_one]
  by_cases hij : i = j
  · subst hij
    rw [if_pos rfl, Function.update_self]
  · rw [if_neg hij, Function.update_of_ne (by omega), getElem_bytesAt]

end ByteMemory
