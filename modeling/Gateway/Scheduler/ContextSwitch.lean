import Gateway.Lib.AArch64
import Gateway.Scheduler.Tcb

/-!
# `sched_context_switch`

The routine of `sched.S`, instruction by instruction, and what it does as a whole: it leaves the
registers x19 to x30 in a frame of twelve words below the stack pointer and the address of the frame
in the old TCB, and takes the registers and the stack pointer from the frame whose address is in the
new TCB (`contextSwitch_spec`). x30 is the second word of the frame, where `sched_add_task` puts the
entry point (`frameIndex_lr`).
-/

namespace Gateway

open ByteMemory AArch64

/-- The pairs of registers in the order in which they are pushed. -/
def pushOrder : List (Fin 31 × Fin 31) := [(19, 20), (21, 22), (23, 24), (25, 26), (27, 28), (29, 30)]

/-- The pairs of registers in the order in which they are popped. -/
def popOrder : List (Fin 31 × Fin 31) := [(29, 30), (27, 28), (25, 26), (23, 24), (21, 22), (19, 20)]

/-- `sched_context_switch`: x0 and x1 are the addresses of the old and of the new TCB. -/
def schedContextSwitch : List Instr :=
  [ .stpPre 19 20 (-16),
    .stpPre 21 22 (-16),
    .stpPre 23 24 (-16),
    .stpPre 25 26 (-16),
    .stpPre 27 28 (-16),
    .stpPre 29 30 (-16),
    .movFromSp 2,
    .str 2 0 0,
    .ldr 2 1 0,
    .movToSp 2,
    .ldpPost 29 30 16,
    .ldpPost 27 28 16,
    .ldpPost 25 26 16,
    .ldpPost 23 24 16,
    .ldpPost 21 22 16,
    .ldpPost 19 20 16,
    .ret ]

/-- The word of the frame, counted from its lowest address, that holds the register. -/
def frameIndex (r : Fin 31) : ℕ := 2 * (5 - (r - 19) / 2) + (r - 19) % 2

/-- The registers that a call keeps: x19 to x30. -/
def calleeSaved (r : Fin 31) : Prop := 19 ≤ r

theorem frameIndex_lr : frameIndex 30 = 1 := rfl

theorem frameIndex_lt (r : Fin 31) : frameIndex r < 12 := by
  unfold frameIndex
  omega

theorem schedContextSwitch_eq : schedContextSwitch =
    pushes pushOrder ++ [Instr.movFromSp 2, Instr.str 2 0 0, Instr.ldr 2 1 0, Instr.movToSp 2] ++
      pops popOrder ++ [Instr.ret] := rfl

/-- Each register is pushed where its frame index says. -/
theorem pushOrder_frameIndex (r : Fin 31) (hr : calleeSaved r) : ∃ k p, pushOrder[k]? = some p ∧
    (p.1 = r ∧ 16 * (k + 1) + 8 * frameIndex r = frameSize ∨
      p.2 = r ∧ 16 * (k + 1) + 8 * frameIndex r = frameSize + 8) := by
  unfold calleeSaved at hr
  refine ⟨(r - 19 : ℕ) / 2, (pushOrder[(r - 19 : ℕ) / 2]?).getD (0, 0), ?_⟩
  revert r
  decide

/-- Each register is popped from where its frame index says. -/
theorem popOrder_frameIndex (r : Fin 31) (hr : calleeSaved r) : ∃ k p, popOrder[k]? = some p ∧
    (p.1 = r ∧ 8 * frameIndex r = 16 * k ∨ p.2 = r ∧ 8 * frameIndex r = 16 * k + 8) := by
  unfold calleeSaved at hr
  refine ⟨5 - (r - 19 : ℕ) / 2, (popOrder[5 - (r - 19 : ℕ) / 2]?).getD (0, 0), ?_⟩
  revert r
  decide

/-- The middle part stores the old stack pointer and loads the new one. -/
theorem run_swapStacks (c : Cpu) :
    (run [.movFromSp 2, .str 2 0 0, .ldr 2 1 0, .movToSp 2] c).mem =
      write 8 c.mem (c.x 0).toNat c.sp ∧
    (run [.movFromSp 2, .str 2 0 0, .ldr 2 1 0, .movToSp 2] c).sp =
      read 8 (write 8 c.mem (c.x 0).toNat c.sp) (c.x 1).toNat := by
  have h₀ : Function.update c.x 2 c.sp 0 = c.x 0 := Function.update_of_ne (by decide) ..
  have h₁ : Function.update c.x 2 c.sp 1 = c.x 1 := Function.update_of_ne (by decide) ..
  have h₂ : Function.update c.x 2 c.sp 2 = c.sp := Function.update_self ..
  simp only [run_cons, run_nil, exec_movFromSp, exec_str, exec_ldr, exec_movToSp]
  rw [h₀, h₁, h₂, Function.update_self]
  exact ⟨by rw [show c.x 0 + 0 = c.x 0 from BitVec.add_zero _],
    by rw [show c.x 0 + 0 = c.x 0 from BitVec.add_zero _,
      show c.x 1 + 0 = c.x 1 from BitVec.add_zero _]⟩

/-- What `sched_context_switch` does: the old context goes into a frame below its stack pointer, the
new one comes from the frame that its TCB points to. -/
structure Switched (c c' : Cpu) : Prop where
  /-- Only the frame and the `sp` of the old TCB are stored. -/
  frame : ∀ b, b < c.sp.toNat - frameSize ∨ c.sp.toNat ≤ b →
    b < (c.x 0).toNat ∨ (c.x 0).toNat + 8 ≤ b → c'.mem b = c.mem b
  savedSp : (read 8 c'.mem (c.x 0).toNat).toNat + frameSize = c.sp.toNat
  saved : ∀ r, calleeSaved r →
    read 8 c'.mem (c.sp.toNat - frameSize + 8 * frameIndex r) = c.x r
  sp : c'.sp.toNat = (read 8 c.mem (c.x 1).toNat).toNat + frameSize
  x : ∀ r, calleeSaved r →
    c'.x r = read 8 c'.mem ((read 8 c.mem (c.x 1).toNat).toNat + 8 * frameIndex r)
  pc : c'.pc = c'.x 30

theorem contextSwitch_spec (c : Cpu) (hroom : frameSize ≤ c.sp.toNat)
    (hold : Apart (c.x 0).toNat 8 (c.sp.toNat - frameSize) frameSize)
    (hnew : Apart (c.x 1).toNat 8 (c.sp.toNat - frameSize) frameSize)
    (hne : Apart (c.x 1).toNat 8 (c.x 0).toNat 8)
    (hfits : (read 8 c.mem (c.x 1).toNat).toNat + frameSize < 2 ^ 64) :
    Switched c (run schedContextSwitch c) := by
  have hpushed : Pushed pushOrder c (run (pushes pushOrder) c) := run_pushes pushOrder c hroom
  rw [schedContextSwitch_eq, run_append, run_append, run_append]
  generalize run (pushes pushOrder) c = c₁ at hpushed ⊢
  obtain ⟨hx₁, hsp₁, hfst₁, hsnd₁, hframe₁⟩ := hpushed
  have hlen : 16 * pushOrder.length = frameSize := rfl
  have hlen' : 16 * popOrder.length = frameSize := rfl
  rw [hlen] at hsp₁
  have hsp₁' : c₁.sp.toNat = c.sp.toNat - frameSize := by omega
  obtain ⟨hmem₂, hsp₂⟩ := run_swapStacks c₁
  rw [hx₁] at hmem₂ hsp₂
  generalize run [.movFromSp 2, .str 2 0 0, .ldr 2 1 0, .movToSp 2] c₁ = c₂ at hmem₂ hsp₂ ⊢
  unfold Apart at hold hnew hne
  -- the new TCB is read as it was before the call
  have hload : read 8 (write 8 c₁.mem (c.x 0).toNat c₁.sp) (c.x 1).toNat =
      read 8 c.mem (c.x 1).toNat := by
    rw [read_write_of_apart hne]
    exact read_congr fun b h₁ h₂ => hframe₁ b (by omega)
  rw [hload] at hsp₂
  have hpopped : Popped popOrder c₂ (run (pops popOrder) c₂) :=
    run_pops popOrder c₂ (by rw [hsp₂, hlen']; exact hfits) (by decide)
  generalize run (pops popOrder) c₂ = c₃ at hpopped ⊢
  obtain ⟨hmem₃, hsp₃, hfst₃, hsnd₃, -⟩ := hpopped
  rw [hlen', hsp₂] at hsp₃
  rw [hsp₂] at hfst₃ hsnd₃
  rw [run_cons, exec_ret, run_nil]
  have hmem : c₃.mem = write 8 c₁.mem (c.x 0).toNat c₁.sp := by rw [hmem₃, hmem₂]
  constructor
  · intro b hb hb'
    dsimp only
    rw [hmem, write_of_lt hb', hframe₁ b (by omega)]
  · dsimp only
    rw [hmem, read_write]
    exact hsp₁
  · intro r hr
    have hlt := frameIndex_lt r
    have hsize : frameSize = 96 := rfl
    dsimp only
    rw [hmem, read_write_of_apart (by unfold Apart; omega)]
    obtain ⟨k, p, hp, ⟨rfl, hk⟩ | ⟨rfl, hk⟩⟩ := pushOrder_frameIndex r hr
    · rw [← hfst₁ k p hp]
      congr 1
      omega
    · rw [← hsnd₁ k p hp]
      congr 1
      omega
  · exact hsp₃
  · intro r hr
    dsimp only
    rw [hmem, ← hmem₂]
    obtain ⟨k, p, hp, ⟨rfl, hk⟩ | ⟨rfl, hk⟩⟩ := popOrder_frameIndex r hr
    · rw [hfst₃ k p hp, hk]
    · rw [hsnd₃ k p hp, hk, Nat.add_assoc]
  · rfl

end Gateway
