import Mathlib.Algebra.GroupWithZero.Nat
import Mathlib.Logic.Function.Basic
import Gateway.Lib.ByteMemory

/-!
# A fragment of AArch64

The registers x0 to x30, the stack pointer and the instructions that a routine needs which saves
registers on one stack and restores them from another. Code is a list of instructions that run in
order; a branch only sets the program counter. There are no alignment faults, as on a core whose
SCTLR_EL1 has the bits A and SA clear.

* `run_pushes`: what a sequence of pre-indexed pair stores leaves on the stack.
* `run_pops`: what a sequence of post-indexed pair loads takes from it.
-/

namespace AArch64

open ByteMemory

-- literals of `Fin 31` name the registers
instance neZero_reg : NeZero 31 := ⟨by decide⟩

/-- The state of a core together with its memory. -/
structure Cpu where
  x : Fin 31 → BitVec 64
  sp : BitVec 64
  pc : BitVec 64
  mem : Memory

inductive Instr where
  /-- `stp t₁, t₂, [sp, #imm]!` -/
  | stpPre (t₁ t₂ : Fin 31) (imm : BitVec 64)
  /-- `ldp t₁, t₂, [sp], #imm` -/
  | ldpPost (t₁ t₂ : Fin 31) (imm : BitVec 64)
  /-- `mov d, sp` -/
  | movFromSp (d : Fin 31)
  /-- `mov sp, n` -/
  | movToSp (n : Fin 31)
  /-- `str t, [n, #imm]` -/
  | str (t n : Fin 31) (imm : BitVec 64)
  /-- `ldr t, [n, #imm]` -/
  | ldr (t n : Fin 31) (imm : BitVec 64)
  | ret

def Instr.exec (c : Cpu) : Instr → Cpu
  | .stpPre t₁ t₂ imm =>
    let a := c.sp + imm
    { c with sp := a, mem := write 8 (write 8 c.mem a.toNat (c.x t₁)) (a + 8).toNat (c.x t₂) }
  | .ldpPost t₁ t₂ imm =>
    { c with
      x := Function.update (Function.update c.x t₁ (read 8 c.mem c.sp.toNat)) t₂
        (read 8 c.mem (c.sp + 8).toNat)
      sp := c.sp + imm }
  | .movFromSp d => { c with x := Function.update c.x d c.sp }
  | .movToSp n => { c with sp := c.x n }
  | .str t n imm => { c with mem := write 8 c.mem (c.x n + imm).toNat (c.x t) }
  | .ldr t n imm => { c with x := Function.update c.x t (read 8 c.mem (c.x n + imm).toNat) }
  | .ret => { c with pc := c.x 30 }

section Exec

variable (c : Cpu) (t₁ t₂ : Fin 31) (imm : BitVec 64)

@[simp] theorem sp_stpPre : ((Instr.stpPre t₁ t₂ imm).exec c).sp = c.sp + imm := rfl

@[simp] theorem x_stpPre : ((Instr.stpPre t₁ t₂ imm).exec c).x = c.x := rfl

theorem mem_stpPre : ((Instr.stpPre t₁ t₂ imm).exec c).mem =
    write 8 (write 8 c.mem (c.sp + imm).toNat (c.x t₁)) (c.sp + imm + 8).toNat (c.x t₂) := rfl

@[simp] theorem sp_ldpPost : ((Instr.ldpPost t₁ t₂ imm).exec c).sp = c.sp + imm := rfl

@[simp] theorem mem_ldpPost : ((Instr.ldpPost t₁ t₂ imm).exec c).mem = c.mem := rfl

theorem x_ldpPost : ((Instr.ldpPost t₁ t₂ imm).exec c).x =
    Function.update (Function.update c.x t₁ (read 8 c.mem c.sp.toNat)) t₂
      (read 8 c.mem (c.sp + 8).toNat) := rfl

@[simp] theorem exec_movFromSp (d : Fin 31) :
    (Instr.movFromSp d).exec c = { c with x := Function.update c.x d c.sp } := rfl

@[simp] theorem exec_movToSp (n : Fin 31) : (Instr.movToSp n).exec c = { c with sp := c.x n } := rfl

@[simp] theorem exec_str (t n : Fin 31) : (Instr.str t n imm).exec c =
    { c with mem := write 8 c.mem (c.x n + imm).toNat (c.x t) } := rfl

@[simp] theorem exec_ldr (t n : Fin 31) : (Instr.ldr t n imm).exec c =
    { c with x := Function.update c.x t (read 8 c.mem (c.x n + imm).toNat) } := rfl

@[simp] theorem exec_ret : Instr.ret.exec c = { c with pc := c.x 30 } := rfl

end Exec

/-- The instructions run one after the other. -/
def run (code : List Instr) (c : Cpu) : Cpu := code.foldl Instr.exec c

@[simp] theorem run_nil (c : Cpu) : run [] c = c := rfl

@[simp] theorem run_cons (i : Instr) (code : List Instr) (c : Cpu) :
    run (i :: code) c = run code (i.exec c) := rfl

theorem run_append (code code' : List Instr) (c : Cpu) :
    run (code ++ code') c = run code' (run code c) := List.foldl_append

/-- The code that pushes pairs of registers, in this order. -/
def pushes (ps : List (Fin 31 × Fin 31)) : List Instr := ps.map fun p => .stpPre p.1 p.2 (-16)

/-- The code that pops pairs of registers, in this order. -/
def pops (ps : List (Fin 31 × Fin 31)) : List Instr := ps.map fun p => .ldpPost p.1 p.2 16

theorem pushes_cons (p : Fin 31 × Fin 31) (ps : List (Fin 31 × Fin 31)) :
    pushes (p :: ps) = .stpPre p.1 p.2 (-16) :: pushes ps := rfl

theorem pops_cons (p : Fin 31 × Fin 31) (ps : List (Fin 31 × Fin 31)) :
    pops (p :: ps) = .ldpPost p.1 p.2 16 :: pops ps := rfl

/-- The registers of the pairs. -/
def regs (ps : List (Fin 31 × Fin 31)) : List (Fin 31) := ps.flatMap fun p => [p.1, p.2]

/-- What `run (pushes ps)` does from `c`: each pair lies below the ones before it, and the rest of
the memory is as it was. -/
structure Pushed (ps : List (Fin 31 × Fin 31)) (c c' : Cpu) : Prop where
  x : c'.x = c.x
  sp : c'.sp.toNat + 16 * ps.length = c.sp.toNat
  fst : ∀ k p, ps[k]? = some p → read 8 c'.mem (c.sp.toNat - 16 * (k + 1)) = c.x p.1
  snd : ∀ k p, ps[k]? = some p → read 8 c'.mem (c.sp.toNat - 16 * (k + 1) + 8) = c.x p.2
  frame : ∀ b, b < c'.sp.toNat ∨ c.sp.toNat ≤ b → c'.mem b = c.mem b

/-- What `run (pops ps)` does from `c`. -/
structure Popped (ps : List (Fin 31 × Fin 31)) (c c' : Cpu) : Prop where
  mem : c'.mem = c.mem
  sp : c'.sp.toNat = c.sp.toNat + 16 * ps.length
  fst : ∀ k p, ps[k]? = some p → c'.x p.1 = read 8 c.mem (c.sp.toNat + 16 * k)
  snd : ∀ k p, ps[k]? = some p → c'.x p.2 = read 8 c.mem (c.sp.toNat + 16 * k + 8)
  frame : ∀ r, r ∉ regs ps → c'.x r = c.x r

theorem toNat_push {a : BitVec 64} (h : 16 ≤ a.toNat) : (a + -16).toNat = a.toNat - 16 := by
  bv_omega

theorem run_pushes (ps : List (Fin 31 × Fin 31)) (c : Cpu) (h : 16 * ps.length ≤ c.sp.toNat) :
    Pushed ps c (run (pushes ps) c) := by
  induction ps generalizing c with
  | nil =>
    exact ⟨rfl, rfl, (fun k p hp => nomatch hp), (fun k p hp => nomatch hp), fun b _ => rfl⟩
  | cons q ps ih =>
    rw [List.length_cons] at h
    have hsp : (c.sp + -16).toNat = c.sp.toNat - 16 := toNat_push (by omega)
    have hsnd : (c.sp + -16 + 8).toNat = c.sp.toNat - 16 + 8 := by bv_omega
    have hrest := ih ((Instr.stpPre q.1 q.2 (-16)).exec c) (by rw [sp_stpPre, hsp]; omega)
    rw [pushes_cons, run_cons]
    generalize run (pushes ps) ((Instr.stpPre q.1 q.2 (-16)).exec c) = c' at hrest ⊢
    obtain ⟨hx, hsp', hfst, hsnd', hframe⟩ := hrest
    rw [sp_stpPre, hsp] at hsp' hfst hsnd' hframe
    rw [x_stpPre] at hx hfst hsnd'
    rw [mem_stpPre, hsp, hsnd] at hframe
    refine ⟨hx, ?_, ?_, ?_, ?_⟩
    · rw [List.length_cons]
      omega
    · intro k p hp
      cases k with
      | zero =>
        obtain rfl := Option.some.inj hp
        -- the later pushes stay below this one
        rw [Nat.mul_one, read_congr fun b h₁ _ => hframe b (.inr h₁),
          read_write_of_apart (.inl (by omega)), read_write]
      | succ k =>
        have hk : c.sp.toNat - 16 * (k + 1 + 1) = c.sp.toNat - 16 - 16 * (k + 1) := by omega
        rw [hk]
        exact hfst k p hp
    · intro k p hp
      cases k with
      | zero =>
        obtain rfl := Option.some.inj hp
        rw [Nat.mul_one, read_congr fun b h₁ _ => hframe b (.inr (by omega)), read_write]
      | succ k =>
        have hk : c.sp.toNat - 16 * (k + 1 + 1) = c.sp.toNat - 16 - 16 * (k + 1) := by omega
        rw [hk]
        exact hsnd' k p hp
    · intro b hb
      rw [hframe b (by omega), write_of_lt (by omega), write_of_lt (by omega)]

theorem run_pops (ps : List (Fin 31 × Fin 31)) (c : Cpu)
    (h : c.sp.toNat + 16 * ps.length < 2 ^ 64) (hnodup : (regs ps).Nodup) :
    Popped ps c (run (pops ps) c) := by
  induction ps generalizing c with
  | nil =>
    exact ⟨rfl, rfl, (fun k p hp => nomatch hp), (fun k p hp => nomatch hp), fun r _ => rfl⟩
  | cons q ps ih =>
    rw [List.length_cons] at h
    have hsp : (c.sp + 16).toNat = c.sp.toNat + 16 := by bv_omega
    have hsnd : (c.sp + 8).toNat = c.sp.toNat + 8 := by bv_omega
    have hregs : regs (q :: ps) = q.1 :: q.2 :: regs ps := rfl
    rw [hregs, List.nodup_cons, List.nodup_cons, List.mem_cons, not_or] at hnodup
    obtain ⟨⟨hne, hmem₁⟩, hmem₂, hnodup⟩ := hnodup
    have hrest := ih ((Instr.ldpPost q.1 q.2 16).exec c) (by rw [sp_ldpPost, hsp]; omega) hnodup
    rw [pops_cons, run_cons]
    generalize run (pops ps) ((Instr.ldpPost q.1 q.2 16).exec c) = c' at hrest ⊢
    obtain ⟨hmem, hsp', hfst, hsnd', hframe⟩ := hrest
    rw [sp_ldpPost, hsp] at hsp' hfst hsnd'
    rw [mem_ldpPost] at hmem hfst hsnd'
    rw [x_ldpPost, hsnd] at hframe
    refine ⟨hmem, ?_, ?_, ?_, ?_⟩
    · rw [List.length_cons]
      omega
    · intro k p hp
      cases k with
      | zero =>
        obtain rfl := Option.some.inj hp
        rw [hframe _ hmem₁, Function.update_of_ne hne, Function.update_self]
        rfl
      | succ k =>
        rw [hfst k p hp]
        congr 1
        omega
    · intro k p hp
      cases k with
      | zero =>
        obtain rfl := Option.some.inj hp
        rw [hframe _ hmem₂, Function.update_self]
      | succ k =>
        rw [hsnd' k p hp]
        congr 1
        omega
    · intro r hr
      rw [hregs, List.mem_cons, List.mem_cons, not_or, not_or] at hr
      rw [hframe r hr.2.2, Function.update_of_ne hr.2.1, Function.update_of_ne hr.1]

end AArch64
