import Mathlib.Data.BitVec
import Mathlib.Data.Int.Notation
import Mathlib.Tactic.Common

/-!
# Machine words

The fixed-width integers of the C sources (`uint8_t`, `unsigned int`, `uint64_t`) and the core
number that every per-core function reads from `mpidr_el1`.
-/

namespace Gateway

abbrev Byte := BitVec 8
abbrev Word := BitVec 32
abbrev DWord := BitVec 64

/-- `CORE_COUNT`: the BCM2712 has four cores. -/
def coreCount : ℕ := 4

-- literals of `Fin 4` and `Fin 2` number the cores
instance neZero_four : NeZero 4 := ⟨by decide⟩

instance neZero_two : NeZero 2 := ⟨by decide⟩

/-- `get_core_id`, `get_cpu_id`: affinity level 0 of `mpidr_el1`. -/
def getCoreId (mpidr : DWord) : Word := (mpidr &&& 0xFF).setWidth 32

/-- Byte `k` of a word, counted from the least significant: the cast `(uint8_t)(w >> 8 * k)`. -/
def byteOf (w : Word) (k : ℕ) : Byte := (w >>> (8 * k)).setWidth 8

end Gateway
