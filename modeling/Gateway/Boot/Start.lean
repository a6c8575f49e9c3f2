import Mathlib.Logic.Relation
import Gateway.Lib.BlockMemory
import Gateway.Ipc.SharedMemory

/-!
# The entry point

`_start` of `boot.S` up to the call of `mmu_on`, a few instructions a step. Every core sets its stack
pointer and its vector table; core 0 then copies `.data`, if it is loaded elsewhere, and clears
`.bss`. The MMU is off: addresses are physical. Alignment faults are not modelled.

`start_boots`: the loops end with the sections as a C program expects them. They work on doublewords
and may go up to seven bytes past the end of a section, nowhere else. The stacks of the cores are
apart from each other and from the shared memory (`stacks_apart`, `Booted.stack`).
-/

namespace Gateway

open ByteMemory Relation

/-- The doublewords from `a` on that reach an end address. -/
def doublewords (a e : ℕ) : ℕ := (e - a + 7) / 8

/-- The symbols of the linker script. -/
structure Sections where
  vectors : DWord
  dataStart : DWord
  dataLoad : DWord
  dataEnd : DWord
  bssStart : DWord
  bssEnd : DWord
  /-- The sections follow each other, in the lower half of the address space. -/
  data_le : dataStart.toNat ≤ dataEnd.toNat
  data_bss : dataEnd.toNat ≤ bssStart.toNat
  bss_le : bssStart.toNat ≤ bssEnd.toNat
  bss_lt : bssEnd.toNat + 8 < 2 ^ 63
  /-- `.data` is loaded in place, or apart from where it belongs. -/
  load : dataLoad = dataStart ∨
    dataLoad.toNat + 8 * doublewords dataStart.toNat dataEnd.toNat < 2 ^ 64 ∧
      Apart dataLoad.toNat (8 * doublewords dataStart.toNat dataEnd.toNat)
        dataStart.toNat (8 * doublewords dataStart.toNat dataEnd.toNat)

/-- `linkerqemu.ld` loads `.data` in place. -/
example : Sections where
  vectors := 0x40100800
  dataStart := 0x40108000
  dataLoad := 0x40108000
  dataEnd := 0x40108014
  bssStart := 0x40108018
  bssEnd := 0x4011B000
  data_le := by decide
  data_bss := by decide
  bss_le := by decide
  bss_lt := by decide
  load := Or.inl rfl

inductive StartPc where
  /-- From `_start` to `mov sp, x1`. -/
  | setStack
  /-- `ldr x0, =vectors; msr vbar_el1, x0; isb`. -/
  | setVectors
  /-- `cbnz x0, secondary_cpu`, twice. -/
  | branch
  /-- `primary_cpu`. -/
  | dataInit
  | copyData
  /-- `skip_data_init`. -/
  | bssInit
  | clearBss
  /-- `bl mmu_on; bl main`. -/
  | main
  /-- `bl mmu_on; bl secondary_main`. -/
  | secondaryMain
  deriving DecidableEq

/-- The registers that `_start` uses, and the memory. -/
structure StartCpu where
  x0 : DWord
  x1 : DWord
  x2 : DWord
  x3 : DWord
  sp : DWord
  vbar : DWord
  mem : Memory
  pc : StartPc

/-- `b.ge` after `cmp a, b`: the comparison is signed. -/
def ge (a b : DWord) : Bool := b.sle a

section Program

variable (sec : Sections) (mpidr : DWord)

def startStep (s : StartCpu) : Option StartCpu :=
  match s.pc with
  | .setStack =>
    let x0 := mpidr &&& 0xFF
    let x1 : DWord := 0x40200000
    let x0 := x0 + 1
    let x2 := x0 * 0x4000
    let x1 := x1 + x2
    some { s with x0, x1, x2, sp := x1, pc := .setVectors }
  | .setVectors => some { s with x0 := sec.vectors, vbar := sec.vectors, pc := .branch }
  | .branch =>
    let x0 := mpidr &&& 0xFF
    some { s with x0, pc := if x0 ≠ 0 then .secondaryMain else .dataInit }
  | .dataInit =>
    some { s with
      x0 := sec.dataStart
      x1 := sec.dataLoad
      x2 := sec.dataEnd
      pc := if sec.dataStart = sec.dataLoad ∨ ge sec.dataStart sec.dataEnd then .bssInit
        else .copyData }
  | .copyData =>
    if ge s.x0 s.x2 then some { s with pc := .bssInit }
    else
      let x3 := read 8 s.mem s.x1.toNat
      some { s with x3, x1 := s.x1 + 8, mem := write 8 s.mem s.x0.toNat x3, x0 := s.x0 + 8 }
  | .bssInit => some { s with x0 := sec.bssStart, x1 := sec.bssEnd, pc := .clearBss }
  | .clearBss =>
    if ge s.x0 s.x1 then some { s with pc := .main }
    else some { s with mem := write 8 s.mem s.x0.toNat 0, x0 := s.x0 + 8 }
  | .main | .secondaryMain => none

/-- The core gets from `s` to `s'`. -/
abbrev Boots : StartCpu → StartCpu → Prop := ReflTransGen fun s s' => startStep sec mpidr s = some s'

end Program

/-- What `_start` leaves behind when it calls `mmu_on`. -/
structure Booted (sec : Sections) (mpidr : DWord) (s s' : StartCpu) : Prop where
  sp : s'.sp.toNat = 0x40200000 + ((getCoreId mpidr).toNat + 1) * 0x4000
  vbar : s'.vbar = sec.vectors
  secondary : getCoreId mpidr ≠ 0 → s'.pc = .secondaryMain ∧ s'.mem = s.mem
  primary : getCoreId mpidr = 0 → s'.pc = .main
  bss : getCoreId mpidr = 0 → ∀ a, sec.bssStart.toNat ≤ a → a < sec.bssEnd.toNat → s'.mem a = 0
  data : getCoreId mpidr = 0 → ∀ a, sec.dataStart.toNat ≤ a → a < sec.dataEnd.toNat →
    s'.mem a = s.mem (sec.dataLoad.toNat + (a - sec.dataStart.toNat))
  frame : ∀ a, a < sec.dataStart.toNat ∨ sec.dataEnd.toNat + 7 ≤ a →
    a < sec.bssStart.toNat ∨ sec.bssEnd.toNat + 7 ≤ a → s'.mem a = s.mem a

section Loops

variable {sec : Sections} {mpidr : DWord} {s : StartCpu}

theorem ge_iff {a b : DWord} (ha : a.toNat < 2 ^ 63) (hb : b.toNat < 2 ^ 63) :
    ge a b = true ↔ b.toNat ≤ a.toNat := by
  unfold ge
  rw [BitVec.sle_iff_toInt_le, BitVec.toInt_eq_toNat_of_lt (by omega),
    BitVec.toInt_eq_toNat_of_lt (by omega)]
  exact Int.ofNat_le

theorem doublewords_zero {a e : ℕ} : doublewords a e = 0 ↔ e ≤ a := by
  unfold doublewords
  omega

theorem doublewords_succ {a e : ℕ} (h : a < e) : doublewords a e = doublewords (a + 8) e + 1 := by
  unfold doublewords
  omega

theorem toNat_add_eight {a : DWord} (h : a.toNat + 8 < 2 ^ 64) : (a + 8).toNat = a.toNat + 8 := by
  rw [BitVec.toNat_add]
  exact Nat.mod_eq_of_lt h

variable (sec mpidr) in
/-- `copy_data`. -/
theorem starts_copyData (n : ℕ) (hpc : s.pc = .copyData)
    (hn : doublewords s.x0.toNat s.x2.toNat = n) (hx2 : s.x2.toNat + 8 < 2 ^ 63)
    (hx0 : s.x0.toNat < 2 ^ 63) (hx1 : s.x1.toNat + 8 * n < 2 ^ 64) :
    ∃ s', Boots sec mpidr s s' ∧ s'.pc = .bssInit ∧ s'.sp = s.sp ∧ s'.vbar = s.vbar ∧
      s'.mem = copyWords n s.mem s.x1.toNat s.x0.toNat := by
  induction n generalizing s with
  | zero =>
    have hge : ge s.x0 s.x2 = true := (ge_iff hx0 (by omega)).2 (doublewords_zero.1 hn)
    refine ⟨{ s with pc := .bssInit }, .single ?_, rfl, rfl, rfl, rfl⟩
    simp [startStep, hpc, hge]
  | succ n ih =>
    have hlt : s.x0.toNat < s.x2.toNat := by
      by_contra hle
      have := doublewords_zero.2 (Nat.le_of_not_lt hle)
      omega
    have hge : ¬ge s.x0 s.x2 = true := by
      rw [ge_iff hx0 (by omega)]
      omega
    have hdst := toNat_add_eight (a := s.x0) (by omega)
    have hsrc := toNat_add_eight (a := s.x1) (by omega)
    have hrest : doublewords (s.x0 + 8).toNat s.x2.toNat = n := by
      rw [doublewords_succ hlt] at hn
      rw [hdst]
      omega
    let s₁ : StartCpu := { s with
      x3 := read 8 s.mem s.x1.toNat
      x1 := s.x1 + 8
      mem := write 8 s.mem s.x0.toNat (read 8 s.mem s.x1.toNat)
      x0 := s.x0 + 8 }
    have hstep : startStep sec mpidr s = some s₁ := by simp [startStep, hpc, hge, s₁]
    obtain ⟨s', hs', hpc', hsp, hvbar, hmem⟩ :=
      ih (s := s₁) hpc hrest hx2 (show (s.x0 + 8).toNat < 2 ^ 63 by omega)
        (show (s.x1 + 8).toNat + 8 * n < 2 ^ 64 by omega)
    refine ⟨s', .head hstep hs', hpc', hsp, hvbar, hmem.trans ?_⟩
    show copyWords n _ (s.x1 + 8).toNat (s.x0 + 8).toNat = _
    rw [hdst, hsrc]
    rfl

variable (sec mpidr) in
/-- `clear_bss`. -/
theorem starts_clearBss (n : ℕ) (hpc : s.pc = .clearBss)
    (hn : doublewords s.x0.toNat s.x1.toNat = n) (hx1 : s.x1.toNat + 8 < 2 ^ 63)
    (hx0 : s.x0.toNat < 2 ^ 63) :
    ∃ s', Boots sec mpidr s s' ∧ s'.pc = .main ∧ s'.sp = s.sp ∧ s'.vbar = s.vbar ∧
      s'.mem = clearWords n s.mem s.x0.toNat := by
  induction n generalizing s with
  | zero =>
    have hge : ge s.x0 s.x1 = true := (ge_iff hx0 (by omega)).2 (doublewords_zero.1 hn)
    refine ⟨{ s with pc := .main }, .single ?_, rfl, rfl, rfl, rfl⟩
    simp [startStep, hpc, hge]
  | succ n ih =>
    have hlt : s.x0.toNat < s.x1.toNat := by
      by_contra hle
      have := doublewords_zero.2 (Nat.le_of_not_lt hle)
      omega
    have hge : ¬ge s.x0 s.x1 = true := by
      rw [ge_iff hx0 (by omega)]
      omega
    have hdst := toNat_add_eight (a := s.x0) (by omega)
    have hrest : doublewords (s.x0 + 8).toNat s.x1.toNat = n := by
      rw [doublewords_succ hlt] at hn
      rw [hdst]
      omega
    let s₁ : StartCpu := { s with mem := write 8 s.mem s.x0.toNat 0, x0 := s.x0 + 8 }
    have hstep : startStep sec mpidr s = some s₁ := by simp [startStep, hpc, hge, s₁]
    obtain ⟨s', hs', hpc', hsp, hvbar, hmem⟩ :=
      ih (s := s₁) hpc hrest hx1 (show (s.x0 + 8).toNat < 2 ^ 63 by omega)
    refine ⟨s', .head hstep hs', hpc', hsp, hvbar, hmem.trans ?_⟩
    show clearWords n _ (s.x0 + 8).toNat = _
    rw [hdst]
    rfl

variable (sec mpidr) in
/-- `primary_cpu`: a section that is loaded in place is left as it is. -/
theorem starts_data (hpc : s.pc = .dataInit) :
    ∃ s', Boots sec mpidr s s' ∧ s'.pc = .bssInit ∧ s'.sp = s.sp ∧ s'.vbar = s.vbar ∧
      ∀ a, s'.mem a =
        if sec.dataStart.toNat ≤ a ∧
          a < sec.dataStart.toNat + 8 * doublewords sec.dataStart.toNat sec.dataEnd.toNat
        then s.mem (sec.dataLoad.toNat + (a - sec.dataStart.toNat)) else s.mem a := by
  have hle := sec.data_le
  have hbss := sec.data_bss
  have hbss' := sec.bss_le
  have hlt := sec.bss_lt
  let s₁ : StartCpu := { s with
    x0 := sec.dataStart
    x1 := sec.dataLoad
    x2 := sec.dataEnd
    pc := if sec.dataStart = sec.dataLoad ∨ ge sec.dataStart sec.dataEnd then .bssInit
      else .copyData }
  have hstep : startStep sec mpidr s = some s₁ := by simp [startStep, hpc, s₁]
  by_cases hskip : sec.dataStart = sec.dataLoad ∨ ge sec.dataStart sec.dataEnd
  · refine ⟨s₁, .single hstep, if_pos hskip, rfl, rfl, fun a => ?_⟩
    show s.mem a = _
    split
    · next ha =>
      rcases hskip with heq | hge
      · rw [← heq]
        congr 1
        omega
      · rw [ge_iff (by omega) (by omega)] at hge
        have := doublewords_zero.2 hge
        omega
    · rfl
  · obtain ⟨hne, -⟩ := not_or.1 hskip
    obtain ⟨hload, hapart⟩ := sec.load.resolve_left fun heq => hne heq.symm
    obtain ⟨s', hs', hpc', hsp, hvbar, hmem⟩ := starts_copyData sec mpidr (s := s₁) _
      (if_neg hskip) rfl (show sec.dataEnd.toNat + 8 < 2 ^ 63 by omega)
      (show sec.dataStart.toNat < 2 ^ 63 by omega) hload
    refine ⟨s', .head hstep hs', hpc', hsp, hvbar, fun a => ?_⟩
    rw [hmem]
    exact copyWords_eq s.mem sec.dataLoad.toNat sec.dataStart.toNat a hapart

variable (sec mpidr) in
/-- `.bss` is cleared. -/
theorem starts_bss (hpc : s.pc = .bssInit) :
    ∃ s', Boots sec mpidr s s' ∧ s'.pc = .main ∧ s'.sp = s.sp ∧ s'.vbar = s.vbar ∧
      ∀ a, s'.mem a =
        if sec.bssStart.toNat ≤ a ∧
          a < sec.bssStart.toNat + 8 * doublewords sec.bssStart.toNat sec.bssEnd.toNat
        then 0 else s.mem a := by
  have hle := sec.bss_le
  have hlt := sec.bss_lt
  let s₁ : StartCpu := { s with x0 := sec.bssStart, x1 := sec.bssEnd, pc := .clearBss }
  have hstep : startStep sec mpidr s = some s₁ := by simp [startStep, hpc, s₁]
  obtain ⟨s', hs', hpc', hsp, hvbar, hmem⟩ := starts_clearBss sec mpidr (s := s₁) _ rfl rfl
    (show sec.bssEnd.toNat + 8 < 2 ^ 63 by omega) (show sec.bssStart.toNat < 2 ^ 63 by omega)
  refine ⟨s', .head hstep hs', hpc', hsp, hvbar, fun a => ?_⟩
  rw [hmem]
  exact clearWords_eq s.mem sec.bssStart.toNat a

end Loops

/-! ## The way to `mmu_on` -/

section Boot

variable (sec : Sections) (mpidr : DWord) (s : StartCpu)

theorem toNat_aff0_lt : (mpidr &&& 0xFF).toNat < 256 := by
  rw [BitVec.toNat_and]
  exact Nat.lt_succ_of_le Nat.and_le_right

theorem toNat_getCoreId : (getCoreId mpidr).toNat = (mpidr &&& 0xFF).toNat := by
  have := toNat_aff0_lt mpidr
  unfold getCoreId
  rw [BitVec.toNat_setWidth, Nat.mod_eq_of_lt (by omega)]

theorem aff0_eq_zero : mpidr &&& 0xFF = 0 ↔ getCoreId mpidr = 0 := by
  rw [← BitVec.toNat_inj, ← BitVec.toNat_inj, toNat_getCoreId]
  rfl

/-- The stack pointer of a core. -/
def bootSp : DWord := 0x40200000 + ((mpidr &&& 0xFF) + 1) * 0x4000

theorem toNat_bootSp :
    (bootSp mpidr).toNat = 0x40200000 + ((getCoreId mpidr).toNat + 1) * 0x4000 := by
  have := toNat_aff0_lt mpidr
  rw [toNat_getCoreId]
  unfold bootSp
  generalize mpidr &&& 0xFF = aff0 at *
  bv_omega

/-- The part that every core executes. -/
theorem starts_branch : ∃ s', Boots sec mpidr { s with pc := .setStack } s' ∧
    s'.mem = s.mem ∧ s'.sp = bootSp mpidr ∧ s'.vbar = sec.vectors ∧
    s'.pc = if mpidr &&& 0xFF ≠ 0 then .secondaryMain else .dataInit :=
  ⟨_, .head rfl (.head rfl (.single rfl)), rfl, rfl, rfl, rfl⟩

/-- **The entry point.** Whatever the registers and the memory hold, every core gets to its call of
`mmu_on` with its own stack and the vector table in place, and core 0 with `.data` copied and `.bss`
cleared. -/
theorem start_boots : ∃ s', Boots sec mpidr { s with pc := .setStack } s' ∧
    Booted sec mpidr s s' := by
  obtain ⟨s₁, hs₁, hmem₁, hsp₁, hvbar₁, hpc₁⟩ := starts_branch sec mpidr s
  by_cases hcore : mpidr &&& 0xFF = 0
  · rw [if_neg (not_not_intro hcore)] at hpc₁
    have hid := (aff0_eq_zero mpidr).1 hcore
    obtain ⟨s₂, hs₂, hpc₂, hsp₂, hvbar₂, hmem₂⟩ := starts_data sec mpidr hpc₁
    obtain ⟨s₃, hs₃, hpc₃, hsp₃, hvbar₃, hmem₃⟩ := starts_bss sec mpidr hpc₂
    have hle := sec.data_le
    have hle' := sec.bss_le
    have hbelow := sec.data_bss
    refine ⟨s₃, (hs₁.trans hs₂).trans hs₃, {
      sp := by rw [hsp₃, hsp₂, hsp₁, toNat_bootSp]
      vbar := by rw [hvbar₃, hvbar₂, hvbar₁]
      secondary := fun h => absurd hid h
      primary := fun _ => hpc₃
      bss := fun _ a hlo hhi => ?_
      data := fun _ a hlo hhi => ?_
      frame := fun a hdata hbss => ?_ }⟩
    · rw [hmem₃, if_pos ⟨hlo, by unfold doublewords; omega⟩]
    · -- `.bss` lies behind `.data`
      rw [hmem₃, if_neg (by omega), hmem₂, if_pos ⟨hlo, by unfold doublewords; omega⟩, hmem₁]
    · rw [hmem₃, if_neg (by unfold doublewords; omega), hmem₂,
        if_neg (by unfold doublewords; omega), hmem₁]
  · rw [if_pos hcore] at hpc₁
    have hid : getCoreId mpidr ≠ 0 := fun h => hcore ((aff0_eq_zero mpidr).2 h)
    exact ⟨s₁, hs₁, {
      sp := by rw [hsp₁, toNat_bootSp]
      vbar := hvbar₁
      secondary := fun _ => ⟨hpc₁, hmem₁⟩
      primary := fun h => absurd h hid
      bss := fun h => absurd h hid
      data := fun h => absurd h hid
      frame := fun a _ _ => by rw [hmem₁] }⟩

variable {sec mpidr s} {s' t t' : StartCpu} {mpidr' : DWord}

/-- The stacks of 16 KiB below the stack pointers of two cores. -/
theorem stacks_apart (h : Booted sec mpidr s s') (h' : Booted sec mpidr' t t')
    (hne : getCoreId mpidr ≠ getCoreId mpidr') :
    Apart (s'.sp.toNat - 0x4000) 0x4000 (t'.sp.toNat - 0x4000) 0x4000 := by
  have hcore : (getCoreId mpidr).toNat ≠ (getCoreId mpidr').toNat :=
    fun heq => hne (BitVec.eq_of_toNat_eq heq)
  rw [h.sp, h'.sp]
  unfold Apart
  omega

/-- What a core pushes on its stack stays out of the shared memory. -/
theorem Booted.stack (h : Booted sec mpidr s s') (hcore : (getCoreId mpidr).toNat < 4) {a : ℕ}
    (ha : a < s'.sp.toNat) : Outside a := by
  rw [h.sp] at ha
  unfold Outside Apart mailboxBase mailboxSize ringBufferBase hmacKeyAddr
  omega

end Boot

end Gateway
