import Mathlib.Data.BitVec
import Mathlib.Tactic.Common

/-!
# The physical timer of a core

The timer compares a counter that only counts up with the value to which the program armed it. Its
output is asserted while the timer is enabled, not masked, and the counter has reached that value.
-/

namespace GenericTimer

structure Timer where
  /-- `cntp_ctl_el0` -/
  ctl : BitVec 64
  /-- `cntp_cval_el0` -/
  cval : BitVec 64

/-- `msr cntp_ctl_el0, v`. -/
def Timer.writeCtl (t : Timer) (v : BitVec 64) : Timer := { t with ctl := v }

/-- `msr cntp_tval_el0, v` while the counter is `now`: the low 32 bits of `v`, signed, from now
on. -/
def Timer.writeTval (t : Timer) (now v : BitVec 64) : Timer :=
  { t with cval := now + (v.setWidth 32).signExtend 64 }

def Timer.asserted (t : Timer) (now : BitVec 64) : Bool :=
  t.ctl.getLsbD 0 && !t.ctl.getLsbD 1 && decide (t.cval ≤ now)

/-- The value of the counter, which counts from 0 when the machine starts. -/
def counter (now : ℕ) : BitVec 64 := BitVec.ofNat 64 now

variable {t : Timer} {now : ℕ} {v c : BitVec 64}

theorem toNat_counter (h : now < 2 ^ 63) : (counter now).toNat = now := by
  rw [counter, BitVec.toNat_ofNat, Nat.mod_eq_of_lt (by omega)]

/-- A positive interval is added to the counter. -/
theorem toNat_writeTval (h : now < 2 ^ 63) (hv : v.toNat < 2 ^ 31) :
    (t.writeTval (counter now) v).cval.toNat = now + v.toNat := by
  have hlow : ((v.setWidth 32).signExtend 64).toNat = v.toNat := by
    have hmsb : (v.setWidth 32).msb = false := by
      rw [BitVec.msb_eq_decide, BitVec.toNat_setWidth, Nat.mod_eq_of_lt (by omega)]
      exact decide_eq_false (by omega)
    rw [BitVec.signExtend_eq_setWidth_of_msb_false hmsb, BitVec.toNat_setWidth,
      BitVec.toNat_setWidth, Nat.mod_eq_of_lt (by omega), Nat.mod_eq_of_lt (by omega)]
  show (counter now + (v.setWidth 32).signExtend 64).toNat = _
  rw [BitVec.toNat_add, hlow, toNat_counter h, Nat.mod_eq_of_lt (by omega)]

theorem asserted_iff_le (h : now < 2 ^ 63) (hon : t.ctl = 1) :
    t.asserted (counter now) = true ↔ t.cval.toNat ≤ now := by
  have hle : t.cval ≤ counter now ↔ t.cval.toNat ≤ now := by rw [BitVec.le_def, toNat_counter h]
  rw [Timer.asserted, hon]
  simpa using hle

theorem asserted_of_masked (h : t.ctl = 3) : t.asserted c = false := by
  rw [Timer.asserted, h]
  simp

theorem asserted_of_off (h : t.ctl = 0) : t.asserted c = false := by
  rw [Timer.asserted, h]
  simp

end GenericTimer
