import Gateway.Lib.AArch64

/-!
# Exceptions at EL1

A core with the registers that an exception saves in hardware, and the instructions of a routine
that saves the others in a frame at the stack pointer and restores them from it. As in
`Gateway.Lib.AArch64` code is a list of instructions that run in order.

* `run_stores`: what stores of registers at distinct offsets from `sp` leave in memory.
* `run_loads`: what loads of distinct registers take from it.
-/

namespace AArch64

open ByteMemory

/-- A core with its processor state and the two registers that keep it during an exception. -/
structure Machine extends Cpu where
  pstate : BitVec 64
  elr : BitVec 64
  spsr : BitVec 64

inductive Insn where
  /-- `sub sp, sp, #imm` -/
  | subSp (imm : ℕ)
  /-- `add sp, sp, #imm` -/
  | addSp (imm : ℕ)
  /-- `stp t₁, t₂, [sp, #imm]` -/
  | stp (t₁ t₂ : Fin 31) (imm : ℕ)
  /-- `str t, [sp, #imm]` -/
  | str (t : Fin 31) (imm : ℕ)
  /-- `ldp t₁, t₂, [sp, #imm]` -/
  | ldp (t₁ t₂ : Fin 31) (imm : ℕ)
  /-- `ldr t, [sp, #imm]` -/
  | ldr (t : Fin 31) (imm : ℕ)
  /-- `add d, sp, #imm` -/
  | addFromSp (d : Fin 31) (imm : ℕ)
  | mrsElr (d : Fin 31)
  | mrsSpsr (d : Fin 31)
  | msrElr (n : Fin 31)
  | msrSpsr (n : Fin 31)
  /-- `mov d, #imm` -/
  | mov (d : Fin 31) (imm : ℕ)
  /-- `mov d, sp` -/
  | movFromSp (d : Fin 31)
  | eret

/-- The address `[sp, #imm]`. -/
def Machine.slot (c : Machine) (imm : ℕ) : BitVec 64 := c.sp + BitVec.ofNat 64 imm

def Machine.setX (c : Machine) (d : Fin 31) (v : BitVec 64) : Machine :=
  { c with x := Function.update c.x d v }

def Machine.store (c : Machine) (a v : BitVec 64) : Machine :=
  { c with mem := write 8 c.mem a.toNat v }

def Machine.load (c : Machine) (a : BitVec 64) : BitVec 64 := read 8 c.mem a.toNat

def Insn.exec (c : Machine) : Insn → Machine
  | .subSp imm => { c with sp := c.sp - BitVec.ofNat 64 imm }
  | .addSp imm => { c with sp := c.sp + BitVec.ofNat 64 imm }
  | .stp t₁ t₂ imm => (c.store (c.slot imm) (c.x t₁)).store (c.slot (imm + 8)) (c.x t₂)
  | .str t imm => c.store (c.slot imm) (c.x t)
  | .ldp t₁ t₂ imm => (c.setX t₁ (c.load (c.slot imm))).setX t₂ (c.load (c.slot (imm + 8)))
  | .ldr t imm => c.setX t (c.load (c.slot imm))
  | .addFromSp d imm => c.setX d (c.slot imm)
  | .mrsElr d => c.setX d c.elr
  | .mrsSpsr d => c.setX d c.spsr
  | .msrElr n => { c with elr := c.x n }
  | .msrSpsr n => { c with spsr := c.x n }
  | .mov d imm => c.setX d (BitVec.ofNat 64 imm)
  | .movFromSp d => c.setX d c.sp
  | .eret => { c with pc := c.elr, pstate := c.spsr }

/-- The instructions run one after the other. -/
def runInsns (code : List Insn) (c : Machine) : Machine := code.foldl Insn.exec c

@[simp] theorem runInsns_nil (c : Machine) : runInsns [] c = c := rfl

@[simp] theorem runInsns_cons (i : Insn) (code : List Insn) (c : Machine) :
    runInsns (i :: code) c = runInsns code (i.exec c) := rfl

theorem runInsns_append (code code' : List Insn) (c : Machine) :
    runInsns (code ++ code') c = runInsns code' (runInsns code c) := List.foldl_append

/-- A pair of registers is stored and loaded one after the other. -/
def Insn.single : Insn → List Insn
  | .stp t₁ t₂ imm => [.str t₁ imm, .str t₂ (imm + 8)]
  | .ldp t₁ t₂ imm => [.ldr t₁ imm, .ldr t₂ (imm + 8)]
  | i => [i]

theorem runInsns_single (i : Insn) (c : Machine) : runInsns i.single c = i.exec c := by
  cases i <;> rfl

theorem runInsns_flatMap_single (code : List Insn) (c : Machine) :
    runInsns (code.flatMap Insn.single) c = runInsns code c := by
  induction code generalizing c with
  | nil => rfl
  | cons i code ih => rw [List.flatMap_cons, runInsns_append, runInsns_single, ih, runInsns_cons]

theorem toNat_slot {c : Machine} {imm : ℕ} (h : c.sp.toNat + imm < 2 ^ 64) :
    (c.slot imm).toNat = c.sp.toNat + imm := by
  rw [Machine.slot, BitVec.toNat_add, BitVec.toNat_ofNat, Nat.add_mod_mod, Nat.mod_eq_of_lt h]

/-- The code that stores registers at offsets from `sp`. -/
def stores (l : List (Fin 31 × ℕ)) : List Insn := l.map fun p => .str p.1 p.2

/-- The code that loads registers from offsets from `sp`. -/
def loads (l : List (Fin 31 × ℕ)) : List Insn := l.map fun p => .ldr p.1 p.2

/-- The memory `m` is that of `c` after `stores l`. -/
structure Stored (l : List (Fin 31 × ℕ)) (c : Machine) (m : Memory) : Prop where
  slot : ∀ p ∈ l, read 8 m (c.sp.toNat + p.2) = c.x p.1
  frame : ∀ b, (∀ p ∈ l, b < c.sp.toNat + p.2 ∨ c.sp.toNat + p.2 + 8 ≤ b) → m b = c.mem b

/-- The registers `x` are those of `c` after `loads l`. -/
structure Loaded (l : List (Fin 31 × ℕ)) (c : Machine) (x : Fin 31 → BitVec 64) : Prop where
  slot : ∀ p ∈ l, x p.1 = read 8 c.mem (c.sp.toNat + p.2)
  frame : ∀ r, r ∉ l.map Prod.fst → x r = c.x r

theorem run_stores (l : List (Fin 31 × ℕ)) (c : Machine)
    (hfits : ∀ p ∈ l, c.sp.toNat + p.2 < 2 ^ 64)
    (hapart : l.Pairwise fun p q => Apart p.2 8 q.2 8) :
    ∃ m, runInsns (stores l) c = { c with mem := m } ∧ Stored l c m := by
  induction l generalizing c with
  | nil => exact ⟨c.mem, rfl, by simp, fun _ _ => rfl⟩
  | cons p l ih =>
    rw [List.pairwise_cons] at hapart
    obtain ⟨m, hrun, hslot, hframe⟩ := ih ((Insn.str p.1 p.2).exec c)
      (fun q hq => hfits q (List.mem_cons_of_mem p hq)) hapart.2
    have ha : (c.slot p.2).toNat = c.sp.toNat + p.2 := toNat_slot (hfits p List.mem_cons_self)
    have hmem : ((Insn.str p.1 p.2).exec c).mem = write 8 c.mem (c.sp.toNat + p.2) (c.x p.1) := by
      show write 8 c.mem (c.slot p.2).toNat (c.x p.1) = _
      rw [ha]
    have hsp : ((Insn.str p.1 p.2).exec c).sp = c.sp := rfl
    rw [hmem, hsp] at hframe
    refine ⟨m, hrun, fun q hq => ?_, fun b hb => ?_⟩
    · rcases List.mem_cons.1 hq with rfl | hq
      · -- the later stores are elsewhere
        rw [read_congr fun b h₁ h₂ => hframe b fun q' hq' => ?_, read_write]
        have := hapart.1 q' hq'
        unfold Apart at this
        omega
      · exact hslot q hq
    · rw [hframe b fun q hq => hb q (List.mem_cons_of_mem p hq),
        write_of_lt (hb p List.mem_cons_self)]

theorem run_loads (l : List (Fin 31 × ℕ)) (c : Machine)
    (hfits : ∀ p ∈ l, c.sp.toNat + p.2 < 2 ^ 64) (hnodup : (l.map Prod.fst).Nodup) :
    ∃ x, runInsns (loads l) c = { c with x := x } ∧ Loaded l c x := by
  induction l generalizing c with
  | nil => exact ⟨c.x, rfl, by simp, fun _ _ => rfl⟩
  | cons p l ih =>
    rw [List.map_cons, List.nodup_cons] at hnodup
    obtain ⟨x, hrun, hslot, hframe⟩ := ih ((Insn.ldr p.1 p.2).exec c)
      (fun q hq => hfits q (List.mem_cons_of_mem p hq)) hnodup.2
    have hx : ((Insn.ldr p.1 p.2).exec c).x =
        Function.update c.x p.1 (read 8 c.mem (c.sp.toNat + p.2)) := by
      show Function.update c.x p.1 (read 8 c.mem (c.slot p.2).toNat) = _
      rw [toNat_slot (hfits p List.mem_cons_self)]
    rw [hx] at hframe
    refine ⟨x, hrun, fun q hq => ?_, fun r hr => ?_⟩
    · rcases List.mem_cons.1 hq with rfl | hq
      · rw [hframe _ hnodup.1, Function.update_self]
      · exact hslot q hq
    · rw [List.map_cons, List.mem_cons, not_or] at hr
      rw [hframe r hr.2, Function.update_of_ne hr.1]

end AArch64
