import Mathlib.Data.BitVec
import Mathlib.Tactic.Common

/-!
# The GICv2 distributor and a CPU interface

The registers through which a program configures the interrupts of one core, field by field: an
interrupt has an enable bit, a priority, a set of target cores and a trigger. A write to a register
changes the fields of the interrupts that it packs. The interface signals an IRQ to the core for an
interrupt that is enabled, pending, of a priority that the mask lets pass, and routed to the core,
unless the core has acknowledged one and not ended it yet.
-/

namespace Gicv2

structure Gic where
  /-- `GICD_CTLR` -/
  ctlr : BitVec 32
  enabled : ℕ → Bool
  priority : ℕ → BitVec 8
  targets : ℕ → BitVec 8
  edge : ℕ → Bool
  /-- `GICC_PMR` -/
  pmr : BitVec 32
  /-- `GICC_BPR` -/
  bpr : BitVec 32
  /-- `GICC_CTLR` -/
  cpuCtlr : BitVec 32
  /-- The interrupt that the core has acknowledged and not ended. -/
  active : Option ℕ

inductive Reg where
  | ctlr
  | isenabler (n : ℕ)
  | icenabler (n : ℕ)
  | ipriorityr (n : ℕ)
  | itargetsr (n : ℕ)
  | icfgr (n : ℕ)
  | pmr
  | bpr
  | cpuCtlr
  deriving DecidableEq

/-- Byte `k` of a register. -/
def field (v : BitVec 32) (k : ℕ) : BitVec 8 := v.extractLsb' (8 * k) 8

/-- A store of `v` to a register. A bit that is 0 leaves `ISENABLERn` and `ICENABLERn` as they
are. -/
def Gic.write (g : Gic) (r : Reg) (v : BitVec 32) : Gic :=
  match r with
  | .ctlr => { g with ctlr := v }
  | .isenabler n =>
    { g with enabled := fun id =>
        if id / 32 = n ∧ v.getLsbD (id % 32) = true then true else g.enabled id }
  | .icenabler n =>
    { g with enabled := fun id =>
        if id / 32 = n ∧ v.getLsbD (id % 32) = true then false else g.enabled id }
  | .ipriorityr n =>
    { g with priority := fun id => if id / 4 = n then field v (id % 4) else g.priority id }
  | .itargetsr n =>
    { g with targets := fun id => if id / 4 = n then field v (id % 4) else g.targets id }
  | .icfgr n =>
    { g with edge := fun id => if id / 16 = n then v.getLsbD (2 * (id % 16) + 1) else g.edge id }
  | .pmr => { g with pmr := v }
  | .bpr => { g with bpr := v }
  | .cpuCtlr => { g with cpuCtlr := v }

/-- The interface of core 0 signals interrupt `id`, when the interrupts `pending` are pending. -/
def Gic.signals (g : Gic) (pending : ℕ → Bool) (id : ℕ) : Bool :=
  g.ctlr.getLsbD 0 && g.cpuCtlr.getLsbD 0 && g.active.isNone && g.enabled id && pending id &&
    decide ((g.priority id).setWidth 32 < g.pmr) && (decide (id < 32) || (g.targets id).getLsbD 0)

/-- The interface signals an IRQ. INTIDs from 1020 on are not interrupts. -/
def Gic.signalsIrq (g : Gic) (pending : ℕ → Bool) : Bool :=
  (List.range 1020).any (g.signals pending)

/-- A load from `GICC_IAR` that gives `id`. -/
def Gic.acknowledge (g : Gic) (id : ℕ) : Gic := { g with active := some id }

/-- A store to `GICC_EOIR`. -/
def Gic.endOfInterrupt (g : Gic) : Gic := { g with active := none }

variable {g : Gic} {pending : ℕ → Bool} {id : ℕ}

theorem enabled_of_signals (h : g.signals pending id = true) : g.enabled id = true := by
  unfold Gic.signals at h
  simp only [Bool.and_eq_true] at h
  exact h.1.1.1.2

theorem pending_of_signals (h : g.signals pending id = true) : pending id = true := by
  unfold Gic.signals at h
  simp only [Bool.and_eq_true] at h
  exact h.1.1.2

theorem signalsIrq_of_signals (hid : id < 1020) (h : g.signals pending id = true) :
    g.signalsIrq pending = true := List.any_eq_true.2 ⟨id, List.mem_range.2 hid, h⟩

/-! ## Registers in a row -/

/-- The same store to registers `a`, …, `a + k - 1` of a kind. -/
def Gic.writeRange (g : Gic) (r : ℕ → Reg) (a k : ℕ) (v : BitVec 32) : Gic :=
  (List.range' a k).foldl (fun g i => g.write (r i) v) g

section Range

variable {α : Type*} {m a k : ℕ} {new old : ℕ → α} {v : BitVec 32}

/-- What registers `a`, …, `a + k - 1` that pack `m` interrupts each set. -/
def overRange (m a k : ℕ) (new old : ℕ → α) (id : ℕ) : α :=
  if a ≤ id / m ∧ id / m < a + k then new id else old id

theorem overRange_of_mem (ha : a ≤ id / m) (hk : id / m < a + k) :
    overRange m a k new old id = new id := if_pos ⟨ha, hk⟩

theorem foldl_eq_overRange (m a k : ℕ) (new old : ℕ → α) :
    (List.range' a k).foldl (fun f n id => if id / m = n then new id else f id) old =
      overRange m a k new old := by
  induction k with
  | zero =>
    funext id
    exact (if_neg (by omega)).symm
  | succ k ih =>
    rw [List.range'_concat, List.foldl_append, ih, Nat.one_mul]
    funext id
    show (if id / m = a + k then new id else overRange m a k new old id) = _
    unfold overRange
    grind

theorem writeRange_eq {r : ℕ → Reg} (put : (ℕ → α) → Gic) (new old : ℕ → α) (a k : ℕ)
    (h : ∀ f n, (put f).write (r n) v = put fun id => if id / m = n then new id else f id) :
    (put old).writeRange r a k v = put (overRange m a k new old) := by
  rw [← foldl_eq_overRange]
  exact List.foldl_hom put h

theorem writeRange_icenabler (g : Gic) (a k : ℕ) : g.writeRange .icenabler a k 0xFFFFFFFF =
    { g with enabled := overRange 32 a k (fun _ => false) g.enabled } := by
  have hones (id : ℕ) : (0xFFFFFFFF : BitVec 32).getLsbD (id % 32) = true := by
    rw [show (0xFFFFFFFF : BitVec 32) = BitVec.allOnes 32 from rfl, BitVec.getLsbD_allOnes]
    exact decide_eq_true (Nat.mod_lt _ (by decide))
  refine writeRange_eq (fun e => { g with enabled := e }) _ g.enabled a k fun e n => ?_
  simp only [Gic.write, hones, and_true]

theorem writeRange_ipriorityr (g : Gic) (a k : ℕ) (v : BitVec 32) :
    g.writeRange .ipriorityr a k v =
      { g with priority := overRange 4 a k (fun id => field v (id % 4)) g.priority } :=
  writeRange_eq (fun p => { g with priority := p }) _ g.priority a k fun _ _ => rfl

theorem writeRange_itargetsr (g : Gic) (a k : ℕ) (v : BitVec 32) :
    g.writeRange .itargetsr a k v =
      { g with targets := overRange 4 a k (fun id => field v (id % 4)) g.targets } :=
  writeRange_eq (fun t => { g with targets := t }) _ g.targets a k fun _ _ => rfl

theorem writeRange_icfgr (g : Gic) (a k : ℕ) (v : BitVec 32) : g.writeRange .icfgr a k v =
    { g with edge := overRange 16 a k (fun id => v.getLsbD (2 * (id % 16) + 1)) g.edge } :=
  writeRange_eq (fun e => { g with edge := e }) _ g.edge a k fun _ _ => rfl

end Range

end Gicv2
