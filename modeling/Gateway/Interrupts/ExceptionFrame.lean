import Gateway.Basic
import Gateway.Lib.Exceptions

/-!
# The exception frame

`save_regs` and `restore_regs` of `vector.S`, instruction by instruction, and the structure
`exc_frame_t` through which C code reads what `save_regs` stored. `save_regs` makes a frame of
`EXC_FRAME_SIZE` bytes below the stack pointer that reads as the interrupted core
(`saveRegs_spec`); `restore_regs` returns to the core that the frame reads as
(`restoreRegs_spec`).
-/

namespace Gateway

open ByteMemory AArch64

/-- `EXC_FRAME_SIZE`. -/
def excFrameSize : ℕ := 0x110

/-- `save_regs exc_id`. -/
def saveRegs (excId : ℕ) : List Insn :=
  [ .subSp excFrameSize,
    .stp 0 1 0x000,
    .stp 2 3 0x010,
    .stp 4 5 0x020,
    .stp 6 7 0x030,
    .stp 8 9 0x040,
    .stp 10 11 0x050,
    .stp 12 13 0x060,
    .stp 14 15 0x070,
    .stp 16 17 0x080,
    .stp 18 19 0x090,
    .stp 20 21 0x0A0,
    .stp 22 23 0x0B0,
    .stp 24 25 0x0C0,
    .stp 26 27 0x0D0,
    .stp 28 29 0x0E0,
    .str 30 0x0F0,
    .addFromSp 10 excFrameSize,
    .str 10 0x0F8,
    .mrsElr 10,
    .mrsSpsr 11,
    .stp 10 11 0x100,
    .mov 0 excId,
    .movFromSp 1 ]

/-- `restore_regs`. -/
def restoreRegs : List Insn :=
  [ .ldp 10 11 0x100,
    .msrElr 10,
    .msrSpsr 11,
    .ldr 30 0x0F0,
    .ldp 28 29 0x0E0,
    .ldp 26 27 0x0D0,
    .ldp 24 25 0x0C0,
    .ldp 22 23 0x0B0,
    .ldp 20 21 0x0A0,
    .ldp 18 19 0x090,
    .ldp 16 17 0x080,
    .ldp 14 15 0x070,
    .ldp 12 13 0x060,
    .ldp 10 11 0x050,
    .ldp 8 9 0x040,
    .ldp 6 7 0x030,
    .ldp 4 5 0x020,
    .ldp 2 3 0x010,
    .ldp 0 1 0x000,
    .addSp excFrameSize,
    .eret ]

/-- `exc_frame_t`. -/
@[ext]
structure ExcFrame where
  x : Fin 31 → DWord
  spEl1 : DWord
  elrEl1 : DWord
  spsrEl1 : DWord

/-- The `exc_frame_t` at address `a`: its fields in order, eight bytes each. -/
def excFrame (m : Memory) (a : ℕ) : ExcFrame where
  x i := read 8 m (a + 8 * i.val)
  spEl1 := read 8 m (a + 8 * 31)
  elrEl1 := read 8 m (a + 8 * 32)
  spsrEl1 := read 8 m (a + 8 * 33)

/-- A frame is the bytes from `a` to `a + EXC_FRAME_SIZE`. -/
theorem excFrame_congr {m m' : Memory} {a : ℕ}
    (h : ∀ b, a ≤ b → b < a + excFrameSize → m b = m' b) : excFrame m a = excFrame m' a := by
  have hread : ∀ k, k < 34 → read 8 m (a + 8 * k) = read 8 m' (a + 8 * k) := by
    intro k hk
    have hsize : excFrameSize = 8 * 34 := rfl
    exact read_congr fun b h₁ h₂ => h b (by omega) (by omega)
  exact ExcFrame.ext (funext fun i => hread i (by omega)) (hread 31 (by omega))
    (hread 32 (by omega)) (hread 33 (by omega))

/-- The registers that the pair stores of `save_regs` and the store of x30 put in the frame. -/
def savedSlots : List (Fin 31 × ℕ) := (List.finRange 31).map fun r => (r, 8 * r.val)

/-- The registers in the order in which `restore_regs` takes them from the frame. -/
def restoredSlots : List (Fin 31 × ℕ) :=
  (30, 0x0F0) :: [28, 26, 24, 22, 20, 18, 16, 14, 12, 10, 8, 6, 4, 2, 0].flatMap
    fun r => [(r, 8 * r.val), (r + 1, 8 * r.val + 8)]

theorem saveRegs_flatMap (excId : ℕ) : (saveRegs excId).flatMap Insn.single =
    [Insn.subSp excFrameSize] ++ stores savedSlots ++ [Insn.addFromSp 10 excFrameSize] ++
      stores [(10, 0x0F8)] ++ [Insn.mrsElr 10, Insn.mrsSpsr 11] ++
      stores [(10, 0x100), (11, 0x108)] ++ [Insn.mov 0 excId, Insn.movFromSp 1] := rfl

theorem restoreRegs_flatMap : restoreRegs.flatMap Insn.single =
    loads [(10, 0x100), (11, 0x108)] ++ [Insn.msrElr 10, Insn.msrSpsr 11] ++ loads restoredSlots ++
      [Insn.addSp excFrameSize, Insn.eret] := rfl

theorem mem_savedSlots {p : Fin 31 × ℕ} : p ∈ savedSlots ↔ p.2 = 8 * p.1.val := by
  unfold savedSlots
  rw [List.mem_map]
  constructor
  · rintro ⟨r, -, rfl⟩
    rfl
  · intro hp
    exact ⟨p.1, List.mem_finRange _, Prod.ext rfl hp.symm⟩

theorem apart_savedSlots : savedSlots.Pairwise fun p q => Apart p.2 8 q.2 8 := by
  unfold savedSlots Apart
  rw [List.pairwise_map]
  refine (List.pairwise_lt_finRange 31).imp fun {r t} hlt => ?_
  dsimp only
  omega

theorem mem_restoredSlots (r : Fin 31) : (r, 8 * r.val) ∈ restoredSlots := by
  revert r
  decide

theorem restoredSlots_lt : ∀ p ∈ restoredSlots, p.2 < excFrameSize := by decide

theorem nodup_restoredSlots : (restoredSlots.map Prod.fst).Nodup := by decide

/-- The registers, the stack pointer and the exception registers are stored one part after the
other, each above the ones before it. -/
theorem excFrame_of_stores {m₁ m₂ m₃ : Memory} {a : ℕ} {f : ExcFrame}
    (hx : ∀ r : Fin 31, read 8 m₁ (a + 8 * r.val) = f.x r)
    (hsp : read 8 m₂ (a + 0x0F8) = f.spEl1) (h₂ : ∀ b, b < a + 0x0F8 → m₂ b = m₁ b)
    (helr : read 8 m₃ (a + 0x100) = f.elrEl1) (hspsr : read 8 m₃ (a + 0x108) = f.spsrEl1)
    (h₃ : ∀ b, b < a + 0x100 → m₃ b = m₂ b) : excFrame m₃ a = f := by
  refine ExcFrame.ext (funext fun r => ?_) ?_ helr hspsr
  · rw [← hx r]
    exact read_congr fun b _ hb => by rw [h₃ b (by omega), h₂ b (by omega)]
  · rw [← hsp]
    exact read_congr fun b _ hb => h₃ b (by omega)

/-- What `save_regs` does to the core `s`: the frame below its stack pointer reads as `s`, and it is
the second argument of the handler. -/
structure SavedFrame (excId : ℕ) (s c : Machine) : Prop where
  sp : c.sp.toNat + excFrameSize = s.sp.toNat
  excId : c.x 0 = BitVec.ofNat 64 excId
  framePtr : c.x 1 = c.sp
  frame : excFrame c.mem c.sp.toNat = ⟨s.x, s.sp, s.elr, s.spsr⟩
  mem : ∀ b, b < c.sp.toNat ∨ s.sp.toNat ≤ b → c.mem b = s.mem b

theorem saveRegs_spec (excId : ℕ) (s : Machine) (hroom : excFrameSize ≤ s.sp.toNat) :
    SavedFrame excId s (runInsns (saveRegs excId) s) := by
  have hsize : excFrameSize = 0x110 := rfl
  have hlt := s.sp.isLt
  have hsp : (s.sp - BitVec.ofNat 64 excFrameSize).toNat + excFrameSize = s.sp.toNat := by
    rw [BitVec.toNat_sub_of_le (by rw [BitVec.le_def]; exact hroom)]
    exact Nat.sub_add_cancel hroom
  -- the core before each group of stores
  let c₁ := (Insn.subSp excFrameSize).exec s
  have hsp₁ : c₁.sp.toNat + excFrameSize = s.sp.toNat := hsp
  obtain ⟨m₁, hrun₁, hslot₁, hframe₁⟩ := run_stores savedSlots c₁
    (fun p hp => by rw [mem_savedSlots.1 hp]; omega) apart_savedSlots
  let c₂ := (Insn.addFromSp 10 excFrameSize).exec { c₁ with mem := m₁ }
  obtain ⟨m₂, hrun₂, hslot₂, hframe₂⟩ := run_stores [(10, 0x0F8)] c₂
    (fun p hp => by
      rw [List.mem_singleton.1 hp]
      show c₁.sp.toNat + 0x0F8 < 2 ^ 64
      omega) (by simp)
  let c₃ := (Insn.mrsSpsr 11).exec ((Insn.mrsElr 10).exec { c₂ with mem := m₂ })
  obtain ⟨m₃, hrun₃, hslot₃, hframe₃⟩ := run_stores [(10, 0x100), (11, 0x108)] c₃
    (fun p hp => by
      have hp' : p.2 ≤ 0x108 := by revert p; decide
      show c₁.sp.toNat + p.2 < 2 ^ 64
      omega) (by unfold Apart; decide)
  have hrun : runInsns (saveRegs excId) s =
      (Insn.movFromSp 1).exec ((Insn.mov 0 excId).exec { c₃ with mem := m₃ }) := by
    rw [← runInsns_flatMap_single, saveRegs_flatMap]
    simp only [runInsns_append, runInsns_cons, runInsns_nil]
    rw [hrun₁, hrun₂, hrun₃]
  rw [hrun]
  -- what each group leaves in the frame
  have hx : ∀ r : Fin 31, read 8 m₁ (c₁.sp.toNat + 8 * r.val) = s.x r := fun r =>
    hslot₁ (r, 8 * r.val) (mem_savedSlots.2 rfl)
  have hold : read 8 m₂ (c₁.sp.toNat + 0x0F8) = s.sp := by
    refine (hslot₂ (10, 0x0F8) (by simp)).trans ?_
    show c₁.sp + BitVec.ofNat 64 excFrameSize = s.sp
    exact BitVec.sub_add_cancel ..
  have helr : read 8 m₃ (c₁.sp.toNat + 0x100) = s.elr := hslot₃ (10, 0x100) (by simp)
  have hspsr : read 8 m₃ (c₁.sp.toNat + 0x108) = s.spsr := hslot₃ (11, 0x108) (by simp)
  have h₁ : ∀ b, b < c₁.sp.toNat ∨ s.sp.toNat ≤ b → m₁ b = s.mem b := by
    refine fun b hb => hframe₁ b fun p hp => ?_
    rw [mem_savedSlots.1 hp]
    omega
  have h₂ : ∀ b, b < c₁.sp.toNat + 0x0F8 ∨ s.sp.toNat ≤ b → m₂ b = m₁ b := by
    refine fun b hb => hframe₂ b fun p hp => ?_
    rw [List.mem_singleton.1 hp]
    show b < c₁.sp.toNat + 0x0F8 ∨ c₁.sp.toNat + 0x0F8 + 8 ≤ b
    omega
  have h₃ : ∀ b, b < c₁.sp.toNat + 0x100 ∨ s.sp.toNat ≤ b → m₃ b = m₂ b := by
    refine fun b hb => hframe₃ b fun p hp => ?_
    have hp' : 0x100 ≤ p.2 ∧ p.2 ≤ 0x108 := by revert p; decide
    show b < c₁.sp.toNat + p.2 ∨ c₁.sp.toNat + p.2 + 8 ≤ b
    omega
  refine ⟨hsp, rfl, rfl, ?_, fun b hb => ?_⟩
  · exact excFrame_of_stores hx hold (fun b hb => h₂ b (Or.inl hb)) helr hspsr
      fun b hb => h₃ b (Or.inl hb)
  · replace hb : b < c₁.sp.toNat ∨ s.sp.toNat ≤ b := hb
    exact (h₃ b (by omega)).trans ((h₂ b (by omega)).trans (h₁ b hb))

/-- What `restore_regs` does: the core becomes what the frame at its stack pointer reads as. -/
structure RestoredFrame (f : ExcFrame) (c c' : Machine) : Prop where
  x : c'.x = f.x
  sp : c'.sp.toNat = c.sp.toNat + excFrameSize
  pc : c'.pc = f.elrEl1
  pstate : c'.pstate = f.spsrEl1
  mem : c'.mem = c.mem

theorem restoreRegs_spec (c : Machine) (hfits : c.sp.toNat + excFrameSize < 2 ^ 64) :
    RestoredFrame (excFrame c.mem c.sp.toNat) c (runInsns restoreRegs c) := by
  have hsize : excFrameSize = 0x110 := rfl
  obtain ⟨x₁, hrun₁, hslot₁, -⟩ := run_loads [(10, 0x100), (11, 0x108)] c
    (fun p hp => by
      have hp' : p.2 ≤ 0x108 := by revert p; decide
      omega) (by decide)
  have helr : x₁ 10 = (excFrame c.mem c.sp.toNat).elrEl1 := hslot₁ (10, 0x100) (by simp)
  have hspsr : x₁ 11 = (excFrame c.mem c.sp.toNat).spsrEl1 := hslot₁ (11, 0x108) (by simp)
  -- x10 and x11 still get their own values after they carried the exception registers
  let c₂ := (Insn.msrSpsr 11).exec ((Insn.msrElr 10).exec { c with x := x₁ })
  obtain ⟨x₂, hrun₂, hslot₂, -⟩ := run_loads restoredSlots c₂
    (fun p hp => by
      have hp' := restoredSlots_lt p hp
      show c.sp.toNat + p.2 < 2 ^ 64
      omega) nodup_restoredSlots
  have hrun : runInsns restoreRegs c =
      Insn.eret.exec ((Insn.addSp excFrameSize).exec { c₂ with x := x₂ }) := by
    rw [← runInsns_flatMap_single, restoreRegs_flatMap]
    simp only [runInsns_append, runInsns_cons, runInsns_nil]
    rw [hrun₁, hrun₂]
  rw [hrun]
  exact ⟨funext fun r => hslot₂ (r, 8 * r.val) (mem_restoredSlots r), toNat_slot hfits, helr, hspsr,
    rfl⟩

end Gateway
