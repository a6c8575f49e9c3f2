import Mathlib.Data.Set.Basic
import Gateway.Interrupts.ExceptionFrame

/-!
# Interrupts that interrupt handlers

An IRQ taken by `_exc_spx_irq`: the exception entry of the core, `save_regs`, `common_trap_handler`
with the handler that `irq_table` names, `restore_regs`. The handler is any code; further IRQs may
be taken between its instructions, and handled in the same way.

`irq n` relates the state in which an IRQ is taken to the state after the `eret` of the stub, when
at most `n` IRQs are in service at a time. Besides the two states it relates the frames that the
IRQs in service before it have on the stack, and the addresses at which handlers changed memory.
-/

namespace Gateway

open ByteMemory AArch64

/-- `IRQ_MAX_HANDLERS`. -/
def irqMaxHandlers : ℕ := 64

/-- `EXC_SPX_IRQ`. -/
def excSpxIrq : ℕ := 0x12

/-- `EXC_A64_IRQ`. -/
def excA64Irq : ℕ := 0x22

/-- The core with its memory, and the values written to `GICC_EOIR` so far. -/
structure IrqState where
  cpu : Machine
  eoir : List Word

/-- `GICC_EOIR = iar`. -/
def IrqState.writeEoir (s : IrqState) (iar : Word) : IrqState := { s with eoir := s.eoir ++ [iar] }

def IrqState.withCpu (s : IrqState) (c : Machine) : IrqState := { s with cpu := c }

/-- The stack pointer. -/
def IrqState.sp (s : IrqState) : ℕ := s.cpu.sp.toNat

/-- The instructions of a handler called with an INTID: what one step of its code may do. -/
abbrev Handler := Word → IrqState → IrqState → Prop

/-- `irq_table[irq_id]` for `irq_id < IRQ_MAX_HANDLERS`, if it is not 0. -/
def lookup (irqTable : Fin irqMaxHandlers → Option Handler) (irqId : Word) : Option Handler :=
  if h : irqId.toNat < irqMaxHandlers then irqTable ⟨irqId.toNat, h⟩ else none

/-- What the core does when it takes an IRQ: the interrupted program counter and processor state go
to `elr_el1` and `spsr_el1`, interrupts are masked, and the core branches to `vector`, the entry of
`vectors` at 0x280, which branches to `_exc_spx_irq`. -/
def takeIrq (vector : DWord) (c : Machine) : Machine :=
  { c with
    elr := c.pc
    spsr := c.pstate
    pc := vector
    pstate := (c.pstate &&& 0xF0000000) ||| 0x3C5 }

/-- The core when it calls `common_trap_handler`. -/
def enterIrq (vector : DWord) (s : IrqState) : IrqState :=
  s.withCpu (runInsns (saveRegs excSpxIrq) (takeIrq vector s.cpu))

/-- The core after `restore_regs`. -/
def leaveIrq (s : IrqState) : IrqState := s.withCpu (runInsns restoreRegs s.cpu)

/-- The byte `b` is in one of the frames. -/
def InFrames (frames : List ℕ) (b : ℕ) : Prop := ∃ a ∈ frames, a ≤ b ∧ b < a + excFrameSize

/-- The addresses at which a step changes memory. -/
def changed (s s' : IrqState) : Set ℕ := {b | s'.cpu.mem b ≠ s.cpu.mem b}

/-- What the compiled code of `common_trap_handler` does between its C statements, when its stack
pointer was `e` at the call: it changes any registers, `bl` included, and stores below `e`. -/
structure OwnCode (e : ℕ) (s s' : IrqState) : Prop where
  eoir : s'.eoir = s.eoir
  sp : s'.sp ≤ e
  mem : ∀ b, e ≤ b → s'.cpu.mem b = s.cpu.mem b

section Service

/-- The IRQs that may be taken while a handler runs: the frames in use, the addresses at which the
handlers change memory, and the states before and after. -/
abbrev Service := List ℕ → Set ℕ → IrqState → IrqState → Prop

variable (service : Service) (frames : List ℕ)

/-- The states of a handler called in state `s`: it makes its own steps, which do not store into the
saved frames, and IRQs are taken while its stack pointer is not above that of the call. -/
inductive HandlerRun (h : IrqState → IrqState → Prop) (s : IrqState) : Set ℕ → IrqState → Prop
  | call : HandlerRun h s ∅ s
  | own {W : Set ℕ} {u v : IrqState} : HandlerRun h s W u → h u v →
      (∀ b, InFrames frames b → v.cpu.mem b = u.cpu.mem b) → HandlerRun h s (W ∪ changed u v) v
  | irq {W W' : Set ℕ} {u v : IrqState} : HandlerRun h s W u → u.sp ≤ s.sp →
      service frames W' u v → HandlerRun h s (W ∪ W') v

/-- `if (irq_id < IRQ_MAX_HANDLERS && irq_table[irq_id]) irq_table[irq_id](irq_id);`. The handler
returns with the stack pointer of the call. -/
def callHandler (irqTable : Fin irqMaxHandlers → Option Handler) (irqId : Word) (W : Set ℕ)
    (s s' : IrqState) : Prop :=
  match lookup irqTable irqId with
  | some h => HandlerRun service frames (h irqId) s W s' ∧ s'.sp = s.sp
  | none => W = ∅ ∧ s' = s

/-- The statements of the IRQ case, from `uint32_t irq_id` to `break`. -/
def trapIrq (irqTable : Fin irqMaxHandlers → Option Handler) (iar : Word) (W : Set ℕ)
    (s s' : IrqState) : Prop :=
  let irqId := iar &&& 0x3FF
  if irqId = 1023 then W = ∅ ∧ s' = s
  else ∃ t, callHandler service frames irqTable irqId W s t ∧ s' = t.writeEoir iar

/-- `common_trap_handler(exc_id, frame)` with its arguments in x0 and x1, when `GICC_IAR` reads as
`iar`. For every other exception it never returns. -/
def commonTrapHandler (irqTable : Fin irqMaxHandlers → Option Handler) (iar : Word) (W : Set ℕ)
    (s s' : IrqState) : Prop :=
  (s.cpu.x 0 = BitVec.ofNat 64 excSpxIrq ∨ s.cpu.x 0 = BitVec.ofNat 64 excA64Irq) ∧
  ∃ u v, OwnCode s.sp s u ∧ trapIrq service frames irqTable iar W u v ∧ OwnCode s.sp v s' ∧
    s'.sp = s.sp

end Service

/-- An IRQ with at most `n` levels of IRQs in service. The frame lies below the stack pointer: the
core has no memory where a stack pointer near address 0 would put it. -/
def irq (irqTable : Fin irqMaxHandlers → Option Handler) (vector : DWord) : ℕ → Service
  | 0, _, _, _, _ => False
  | n + 1, frames, W, s, s' =>
    excFrameSize ≤ s.sp ∧ ∃ iar t,
      commonTrapHandler (irq irqTable vector n) ((enterIrq vector s).sp :: frames) irqTable iar W
        (enterIrq vector s) t ∧
      s' = leaveIrq t

/-- The handler of an IRQ taken in state `s` runs, with at most `n` levels of IRQs above it, and has
come to state `u`. -/
def Handling (irqTable : Fin irqMaxHandlers → Option Handler) (vector : DWord) (n : ℕ)
    (frames : List ℕ) (s u : IrqState) : Prop :=
  excFrameSize ≤ s.sp ∧ ∃ irqId h c W, lookup irqTable irqId = some h ∧
    OwnCode (enterIrq vector s).sp (enterIrq vector s) c ∧
    HandlerRun (irq irqTable vector n) ((enterIrq vector s).sp :: frames) (h irqId) c W u

/-! ## Frames stay as they are -/

section Invariant

variable {service : Service} {frames : List ℕ} {W : Set ℕ} {s s' u v : IrqState}

/-- Handlers did not change the frames, and memory from `e` on changed only where they did. -/
structure Keeps (frames : List ℕ) (e : ℕ) (W : Set ℕ) (s s' : IrqState) : Prop where
  frames : ∀ b, InFrames frames b → b ∉ W
  mem : ∀ b, e ≤ b → b ∉ W → s'.cpu.mem b = s.cpu.mem b

theorem keeps_refl (e : ℕ) (s : IrqState) : Keeps frames e ∅ s s := by
  constructor <;> simp

theorem Keeps.trans {e : ℕ} {W' : Set ℕ} (h : Keeps frames e W s u) (h' : Keeps frames e W' u v) :
    Keeps frames e (W ∪ W') s v := by
  refine ⟨fun b hb hmem => ?_, fun b hb hmem => ?_⟩
  · rcases hmem with hmem | hmem
    · exact h.frames b hb hmem
    · exact h'.frames b hb hmem
  · rw [Set.mem_union, not_or] at hmem
    rw [h'.mem b hb hmem.2, h.mem b hb hmem.1]

theorem Keeps.mono {e e' : ℕ} (h : Keeps frames e W s s') (he : e ≤ e') : Keeps frames e' W s s' :=
  ⟨h.frames, fun b hb => h.mem b (Nat.le_trans he hb)⟩

/-- The IRQs that interrupt a handler keep what is above its stack pointer. -/
def ServiceKeeps (service : Service) : Prop :=
  ∀ frames W s s', service frames W s s' → Keeps frames s.sp W s s'

theorem HandlerRun.keeps {h : IrqState → IrqState → Prop} (hs : ServiceKeeps service)
    (hrun : HandlerRun service frames h s W u) : Keeps frames s.sp W s u := by
  induction hrun with
  | call => exact keeps_refl ..
  | own _ _ hframes ih =>
    refine ih.trans ⟨fun b hb hmem => hmem (hframes b hb), fun b _ hmem => ?_⟩
    exact not_not.1 hmem
  | irq _ hsp hirq ih => exact ih.trans ((hs _ _ _ _ hirq).mono hsp)

theorem OwnCode.keeps {e : ℕ} (h : OwnCode e s s') : Keeps frames e ∅ s s' :=
  ⟨fun _ _ => Set.notMem_empty _, fun b hb _ => h.mem b hb⟩

variable {irqTable : Fin irqMaxHandlers → Option Handler} {iar irqId : Word} {vector : DWord}

theorem callHandler_keeps (hs : ServiceKeeps service)
    (h : callHandler service frames irqTable irqId W s s') : Keeps frames s.sp W s s' := by
  unfold callHandler at h
  cases hl : lookup irqTable irqId with
  | some f =>
    rw [hl] at h
    exact h.1.keeps hs
  | none =>
    rw [hl] at h
    obtain ⟨rfl, rfl⟩ := h
    exact keeps_refl ..

theorem trapIrq_keeps (hs : ServiceKeeps service)
    (h : trapIrq service frames irqTable iar W s s') : Keeps frames s.sp W s s' := by
  unfold trapIrq at h
  by_cases hspurious : iar &&& 0x3FF = 1023
  · rw [if_pos hspurious] at h
    obtain ⟨rfl, rfl⟩ := h
    exact keeps_refl ..
  · rw [if_neg hspurious] at h
    obtain ⟨t, ht, rfl⟩ := h
    have hkeep := callHandler_keeps hs ht
    exact ⟨hkeep.frames, hkeep.mem⟩

theorem commonTrapHandler_keeps (hs : ServiceKeeps service)
    (h : commonTrapHandler service frames irqTable iar W s s') : Keeps frames s.sp W s s' := by
  obtain ⟨-, u, v, hu, htrap, hv, -⟩ := h
  have hkeep := (hu.keeps.trans ((trapIrq_keeps hs htrap).mono hu.sp)).trans hv.keeps
  rwa [Set.empty_union, Set.union_empty] at hkeep

/-! ## Interrupts are transparent -/

/-- The interrupted code goes on with its registers, stack pointer, program counter and processor
state, and with the memory outside its stack that handlers did not change. -/
structure Resumed (W : Set ℕ) (s s' : IrqState) : Prop where
  x : s'.cpu.x = s.cpu.x
  sp : s'.cpu.sp = s.cpu.sp
  pc : s'.cpu.pc = s.cpu.pc
  pstate : s'.cpu.pstate = s.cpu.pstate
  mem : ∀ b, s.sp ≤ b → b ∉ W → s'.cpu.mem b = s.cpu.mem b

/-- The interrupted core as `exc_frame_t` shows it. -/
def interrupted (s : IrqState) : ExcFrame := ⟨s.cpu.x, s.cpu.sp, s.cpu.pc, s.cpu.pstate⟩

theorem enterIrq_spec (hroom : excFrameSize ≤ s.sp) :
    SavedFrame excSpxIrq (takeIrq vector s.cpu) (enterIrq vector s).cpu :=
  saveRegs_spec excSpxIrq (takeIrq vector s.cpu) hroom

/-- A frame that handlers do not change keeps showing the interrupted core. -/
theorem excFrame_of_keeps (hroom : excFrameSize ≤ s.sp)
    (h : Keeps ((enterIrq vector s).sp :: frames) (enterIrq vector s).sp W (enterIrq vector s) u) :
    excFrame u.cpu.mem (enterIrq vector s).sp = interrupted s := by
  refine Eq.trans (excFrame_congr fun b h₁ h₂ => h.mem b h₁ (h.frames b ?_))
    (enterIrq_spec hroom).frame
  exact ⟨_, List.mem_cons_self, h₁, h₂⟩

theorem irq_succ_resumed {n : ℕ} (hs : ServiceKeeps (irq irqTable vector n))
    (h : irq irqTable vector (n + 1) frames W s s') :
    Resumed W s s' ∧ ∀ b, InFrames frames b → b ∉ W := by
  obtain ⟨hroom, iar, t, htrap, rfl⟩ := h
  have hsaved : SavedFrame excSpxIrq (takeIrq vector s.cpu) (enterIrq vector s).cpu :=
    enterIrq_spec hroom
  have hkeep := commonTrapHandler_keeps hs htrap
  obtain ⟨-, u, v, -, -, -, htsp⟩ := htrap
  have hentry : (enterIrq vector s).sp + excFrameSize = s.sp := hsaved.sp
  have hsp : t.sp + excFrameSize = s.sp := by rw [htsp, hentry]
  have hfits : t.sp + excFrameSize < 2 ^ 64 := by
    rw [hsp]
    exact s.cpu.sp.isLt
  have hframe : excFrame t.cpu.mem t.cpu.sp.toNat = interrupted s := by
    rw [← excFrame_of_keeps hroom hkeep, ← htsp]
    rfl
  have hback : RestoredFrame (interrupted s) t.cpu (leaveIrq t).cpu :=
    hframe ▸ restoreRegs_spec t.cpu hfits
  refine ⟨⟨hback.x, ?_, hback.pc, hback.pstate, fun b hb hW => ?_⟩, fun b ⟨a, ha, hab⟩ => ?_⟩
  · exact BitVec.eq_of_toNat_eq (hback.sp.trans hsp)
  · rw [hback.mem, hkeep.mem b (by omega) hW]
    exact hsaved.mem b (Or.inr hb)
  · exact hkeep.frames b ⟨a, List.mem_cons_of_mem _ ha, hab⟩

theorem irq_keeps (irqTable : Fin irqMaxHandlers → Option Handler) (vector : DWord) (n : ℕ) :
    ServiceKeeps (irq irqTable vector n) := by
  induction n with
  | zero => exact fun _ _ _ _ h => h.elim
  | succ n ih =>
    intro frames W s s' h
    obtain ⟨hresumed, hframes⟩ := irq_succ_resumed ih h
    exact ⟨hframes, hresumed.mem⟩

/-- **Interrupts are transparent.** At every depth of nesting: the code that an IRQ interrupts is
resumed as it was, and while the handler of the IRQ runs the frame pointer that
`common_trap_handler` got shows the interrupted core. -/
theorem irq_transparent (irqTable : Fin irqMaxHandlers → Option Handler) (vector : DWord) (n : ℕ)
    (frames : List ℕ) (s : IrqState) :
    (∀ W s', irq irqTable vector n frames W s s' → Resumed W s s') ∧
    ∀ u, Handling irqTable vector n frames s u →
      excFrame u.cpu.mem ((enterIrq vector s).cpu.x 1).toNat = interrupted s := by
  refine ⟨fun W s' h => ?_, fun u h => ?_⟩
  · cases n with
    | zero => exact h.elim
    | succ n => exact (irq_succ_resumed (irq_keeps irqTable vector n) h).1
  · obtain ⟨hroom, irqId, f, c, W, -, hc, hrun⟩ := h
    have hkeep := hc.keeps.trans ((hrun.keeps (irq_keeps irqTable vector n)).mono hc.sp)
    rw [(enterIrq_spec hroom).framePtr]
    exact excFrame_of_keeps hroom hkeep

/-! ## Interrupts are served -/

theorem ownCode_refl {e : ℕ} (h : s.sp ≤ e) : OwnCode e s s := ⟨rfl, h, fun _ _ => rfl⟩

theorem enterIrq_excId (hroom : excFrameSize ≤ s.sp) :
    (enterIrq vector s).cpu.x 0 = BitVec.ofNat 64 excSpxIrq := (enterIrq_spec hroom).excId

/-- An IRQ that went away before it was acknowledged is ignored. -/
theorem irq_spurious (n : ℕ) (hroom : excFrameSize ≤ s.sp) :
    irq irqTable vector (n + 1) frames ∅ s (leaveIrq (enterIrq vector s)) := by
  have hown : OwnCode (enterIrq vector s).sp (enterIrq vector s) (enterIrq vector s) :=
    ownCode_refl (Nat.le_refl _)
  exact ⟨hroom, 1023, enterIrq vector s,
    ⟨Or.inl (enterIrq_excId hroom), _, _, hown, ⟨rfl, rfl⟩, hown, rfl⟩, rfl⟩

/-- The stub returns when the handler does. -/
theorem irq_of_handlerRun {n : ℕ} {h : Handler} (hroom : excFrameSize ≤ s.sp)
    (hid : iar &&& 0x3FF ≠ 1023) (hlookup : lookup irqTable (iar &&& 0x3FF) = some h)
    (hrun : HandlerRun (irq irqTable vector n) ((enterIrq vector s).sp :: frames)
      (h (iar &&& 0x3FF)) (enterIrq vector s) W u) (hsp : u.sp = (enterIrq vector s).sp) :
    irq irqTable vector (n + 1) frames W s (leaveIrq (u.writeEoir iar)) := by
  refine ⟨hroom, iar, u.writeEoir iar, ⟨Or.inl (enterIrq_excId hroom), enterIrq vector s,
    u.writeEoir iar, ownCode_refl (Nat.le_refl _), ?_, ownCode_refl (Nat.le_of_eq hsp), hsp⟩, rfl⟩
  unfold trapIrq callHandler
  rw [if_neg hid, hlookup]
  exact ⟨u, ⟨hrun, hsp⟩, rfl⟩

/-- A handler that clears x0 to x30 and unmasks interrupts. -/
def clobber : Handler := fun _ u v =>
  v = u.withCpu { u.cpu with x := fun _ => 0, pstate := 0x5 }

/-- Core 0 in `main`, about to take the IRQ of the UART. -/
def interruptedMain : IrqState :=
  ⟨{ x := fun r => BitVec.ofNat 64 r.val, sp := 0x40200000, pc := 0x40101000,
     mem := fun _ => 0, pstate := 0x60000005, elr := 0, spsr := 0 }, []⟩

theorem irq_transparent_clobber : ∃ W s', irq (fun _ => some clobber) 0x40100A80 2 [] W
    interruptedMain s' ∧ s'.cpu.x = interruptedMain.cpu.x ∧ s'.cpu.pc = 0x40101000 := by
  have hroom : excFrameSize ≤ interruptedMain.sp := by decide
  have hentry : (enterIrq 0x40100A80 interruptedMain).sp + excFrameSize = interruptedMain.sp :=
    (enterIrq_spec hroom).sp
  generalize hs : enterIrq 0x40100A80 interruptedMain = e at hentry
  -- the handler has cleared the registers, and a spurious IRQ comes
  let v := e.withCpu { e.cpu with x := fun _ => 0, pstate := 0x5 }
  have hv : v.sp = e.sp := rfl
  have hroom' : excFrameSize ≤ v.sp := by
    have hsp : interruptedMain.sp = 0x40200000 := rfl
    have hsize : excFrameSize = 0x110 := rfl
    omega
  have hnested : irq (fun _ => some clobber) 0x40100A80 1 [e.sp] ∅ v _ := irq_spurious 0 hroom'
  have hsame : (leaveIrq (enterIrq 0x40100A80 v)).sp = v.sp := congrArg BitVec.toNat
    ((irq_transparent (fun _ => some clobber) 0x40100A80 1 [e.sp] v).1 _ _ hnested).sp
  have hown : HandlerRun (irq (fun _ => some clobber) 0x40100A80 1) [e.sp] (clobber 33) e
      (∅ ∪ changed e v) v := .own .call rfl fun _ _ => rfl
  have hrun := hown.irq (Nat.le_of_eq hv) hnested
  have hserved : irq (fun _ => some clobber) 0x40100A80 2 [] _ interruptedMain _ :=
    irq_of_handlerRun hroom (by decide : (33 : Word) &&& 0x3FF ≠ 1023) rfl
      (by rw [hs]; exact hrun) (by rw [hs]; exact hsame)
  have hresumed :=
    (irq_transparent (fun _ => some clobber) 0x40100A80 2 [] interruptedMain).1 _ _ hserved
  exact ⟨_, _, hserved, hresumed.x, hresumed.pc⟩

end Invariant

end Gateway
