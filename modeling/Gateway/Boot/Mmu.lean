import Gateway.Basic
import Gateway.Lib.ByteMemory
import Gateway.Lib.CriticalSection

/-!
# The page table of `mmu_on`

Every core calls `mmu_on` while it boots. One page table at `TTB_BASE` serves them all: under
`mmu_lock` the first core to find `mmu_init` 0 clears the 512 entries, fills two of them and sets
`mmu_init`. Still under the lock, each core then loads its own system registers and turns its MMU
on.

A step is one access to memory or one write of a system register. The linker places `mmu_lock` and
`mmu_init` above `0x40100000`, so no store to the table reaches them. `SEVL`, `WFE` and the barriers
change nothing here.
-/

namespace Gateway

open Runs CriticalSection ByteMemory

/-- `TTB_BASE`. -/
def ttbBase : DWord := 0x40080000

/-- `MAIR_VAL`. -/
def mairVal : DWord := 0x00FF

/-- `TCR_VAL`. -/
def tcrVal : DWord := 0x803520

/-- `SCTLR_VAL`. -/
def sctlrVal : DWord := 0x30C51835

/-- `DEVICE_BLOCK`. -/
def deviceBlock : DWord := 0x00000000000705

/-- `NORMAL_BLOCK`. -/
def normalBlock : DWord := 0x00000000000701

/-- The system registers of a core that `mmu_on` writes. -/
structure SysRegs where
  ttbr0 : DWord
  mair : DWord
  tcr : DWord
  sctlr : DWord
  deriving DecidableEq

/-- What is read and written under `mmu_lock`; `sys` has one value a core. -/
structure MmuMem (Core : Type*) where
  mmuInit : Word
  ram : Memory
  sys : Core → SysRegs

/-- Where a core is under the lock, named by the access it makes next. -/
inductive MmuPc where
  /-- `LDR w2, [mmu_init]; CBNZ w2, load_regs`. -/
  | checkInit
  /-- `STR x4, [x2], #8; SUBS x3, x3, #1; B.NE 2b`. -/
  | zeroTable (x2 x3 : DWord)
  | fillDevice
  | fillNormal
  | markBuilt
  | loadTtbr0
  | loadMair
  | loadTcr
  /-- `MRS x2, tcr_el1; CMP x2, x3; B.NE mmu_hang`. -/
  | readTcr
  | loadSctlr
  | mmuHang
  deriving DecidableEq

section Program

variable {Core : Type*} [DecidableEq Core]

/-- `STR` of a doubleword. -/
def MmuMem.store (m : MmuMem Core) (a v : DWord) : MmuMem Core :=
  { m with ram := write 8 m.ram a.toNat v }

/-- `MSR` on core `c`. -/
def MmuMem.msr (m : MmuMem Core) (c : Core) (r : SysRegs) : MmuMem Core :=
  { m with sys := Function.update m.sys c r }

/-- The next access of a core that holds `mmu_lock`. `accepts c v` is what `tcr_el1` of core `c`
holds once `v` is written to it. -/
def mmuAccess (accepts : Core → DWord → DWord) (l : Core × MmuPc) (m : MmuMem Core) :
    MmuMem Core × (Core × MmuPc ⊕ Unit) :=
  let c := l.1
  let r := m.sys c
  match l.2 with
  | .checkInit => (m, .inl (c, if m.mmuInit ≠ 0 then .loadTtbr0 else .zeroTable ttbBase 512))
  | .zeroTable x2 x3 =>
    (m.store x2 0, .inl (c, if x3 - 1 ≠ 0 then .zeroTable (x2 + 8) (x3 - 1) else .fillDevice))
  | .fillDevice => (m.store ttbBase deviceBlock, .inl (c, .fillNormal))
  | .fillNormal => (m.store (ttbBase + 8) (normalBlock ||| 0x40000000), .inl (c, .markBuilt))
  | .markBuilt => ({ m with mmuInit := 1 }, .inl (c, .loadTtbr0))
  | .loadTtbr0 => (m.msr c { r with ttbr0 := ttbBase }, .inl (c, .loadMair))
  | .loadMair => (m.msr c { r with mair := mairVal }, .inl (c, .loadTcr))
  | .loadTcr => (m.msr c { r with tcr := accepts c tcrVal }, .inl (c, .readTcr))
  | .readTcr => (m, .inl (c, if r.tcr ≠ tcrVal then .mmuHang else .loadSctlr))
  | .loadSctlr => (m.msr c { r with sctlr := sctlrVal }, .inr ())
  | .mmuHang => (m, .inl (c, .mmuHang))

/-- `mmu_on` on every core; the store that releases the lock is `STLR wzr, [mmu_lock]`. -/
def mmuOn (accepts : Core → DWord → DWord) :
    Client Core Unit Unit (Core × MmuPc) (MmuMem Core) Unit where
  lock _ := ()
  start c _ := (c, .checkInit)
  access := mmuAccess accepts

end Program

/-- The cores, the lock and the memory while the cores execute `mmu_on`. -/
abbrev MmuState (Core : Type*) := State Core Unit Unit (Core × MmuPc) (MmuMem Core) Unit

section Table

variable {Core : Type*}

/-- `mmu_lock` and `mmu_init` are 0; memory and system registers hold anything. -/
def mmuBoot (ram : Memory) (sys : Core → SysRegs) : MmuState Core := init fun _ => ⟨0, ram, sys⟩

/-- Entry `k` of the finished table. -/
def tableEntry : ℕ → DWord
  | 0 => deviceBlock
  | 1 => normalBlock ||| 0x40000000
  | _ => 0

/-- The 512 entries are `e`. -/
def Entries (e : ℕ → DWord) (n : ℕ) (ram : Memory) : Prop :=
  ∀ k, k < n → read 8 ram (ttbBase.toNat + 8 * k) = e k

/-- Entry 0 is the device block, entry 1 the normal block, and the others are 0. -/
def TableFinal (ram : Memory) : Prop := Entries tableEntry 512 ram

/-- The next access is a store to the table. -/
def MmuPc.storesTable : MmuPc → Bool
  | .zeroTable _ _ | .fillDevice | .fillNormal => true
  | _ => false

/-- The core that stores to the table in a step. -/
def storer (s : MmuState Core) : Act Core Unit → Option Core
  | .call _ _ => none
  | .step c _ =>
    match s.phase c with
    | .inside _ l => if l.2.storesTable then some c else none
    | _ => none

/-- Core `c` is about to write `sctlr_el1`. -/
def AtSctlr (s : MmuState Core) (c : Core) : Prop := s.phase c = .inside () (c, .loadSctlr)

end Table

/-! ## The invariant of the table -/

section Invariant

variable {Core : Type*} {m : MmuMem Core} {a v x2 x3 : DWord} {n k : ℕ}

/-- A set `mmu_init` means that the table is final. -/
def TableReady (m : MmuMem Core) : Prop := m.mmuInit ≠ 0 → TableFinal m.ram

/-- What a core knows before each access: while it builds the table `mmu_init` is 0, and from
`load_regs` on it is not. -/
def MmuPc.Knows (m : MmuMem Core) : MmuPc → Prop
  | .checkInit => True
  | .zeroTable x2 x3 => m.mmuInit = 0 ∧ ∃ k, k < 512 ∧ x2.toNat = ttbBase.toNat + 8 * k ∧
      x3.toNat = 512 - k ∧ Entries (fun _ => 0) k m.ram
  | .fillDevice => m.mmuInit = 0 ∧ Entries (fun _ => 0) 512 m.ram
  | .fillNormal => m.mmuInit = 0 ∧ Entries (fun k => if k = 0 then deviceBlock else 0) 512 m.ram
  | .markBuilt => m.mmuInit = 0 ∧ TableFinal m.ram
  | _ => m.mmuInit ≠ 0

theorem entries_zero {e : ℕ → DWord} {ram : Memory} : Entries e 0 ram := fun _ hk => by omega

/-- A store to entry `k`. -/
theorem Entries.store {e : ℕ → DWord}
    (h : ∀ j, j < n → j ≠ k → read 8 m.ram (ttbBase.toNat + 8 * j) = e j)
    (ha : a.toNat = ttbBase.toNat + 8 * k) (hv : v = e k) : Entries e n (m.store a v).ram := by
  intro j hj
  show read 8 (write 8 m.ram a.toNat v) _ = e j
  rw [ha]
  by_cases hjk : j = k
  · subst hjk
    rw [read_write, hv]
  · rw [read_write_of_apart (by unfold Apart; omega), h j hj hjk]

/-- One iteration of the loop that clears the table. -/
theorem knows_zeroTable (h : (MmuPc.zeroTable x2 x3).Knows m) :
    (if x3 - 1 ≠ 0 then MmuPc.zeroTable (x2 + 8) (x3 - 1) else .fillDevice).Knows
      (m.store x2 0) := by
  obtain ⟨hinit, k, hk, hx2, hx3, hclear⟩ := h
  have hcleared : Entries (fun _ => 0) (k + 1) (m.store x2 0).ram :=
    Entries.store (fun j hj hne => hclear j (by omega)) hx2 rfl
  have hcount : (x3 - 1).toNat = 512 - (k + 1) := by
    rw [BitVec.toNat_sub_of_le (by rw [BitVec.le_def, hx3]; simp; omega), hx3]
    simp
    omega
  by_cases hlast : x3 - 1 ≠ 0
  · rw [if_pos hlast]
    have hmore : k + 1 < 512 := by
      by_contra hk'
      exact hlast (BitVec.eq_of_toNat_eq (by rw [hcount]; simp; omega))
    refine ⟨hinit, k + 1, hmore, ?_, hcount, hcleared⟩
    have hbase : ttbBase.toNat = 0x40080000 := rfl
    rw [BitVec.toNat_add, hx2, Nat.mod_eq_of_lt (by simp; omega)]
    simp
    omega
  · rw [if_neg hlast]
    have hdone : k + 1 = 512 := by
      have := congrArg BitVec.toNat (not_not.1 hlast)
      rw [hcount] at this
      simp at this
      omega
    exact ⟨hinit, hdone ▸ hcleared⟩

theorem knows_fillDevice (h : MmuPc.fillDevice.Knows m) :
    MmuPc.fillNormal.Knows (m.store ttbBase deviceBlock) := by
  refine ⟨h.1, Entries.store (k := 0) (fun j hj hne => ?_) rfl rfl⟩
  rw [if_neg hne, h.2 j hj]

theorem knows_fillNormal (h : MmuPc.fillNormal.Knows m) :
    MmuPc.markBuilt.Knows (m.store (ttbBase + 8) (normalBlock ||| 0x40000000)) := by
  refine ⟨h.1, Entries.store (k := 1) (fun j hj hne => ?_) rfl rfl⟩
  rw [h.2 j hj]
  match j with
  | 0 => rfl
  | 1 => exact absurd rfl hne
  | _ + 2 => rfl

variable [DecidableEq Core] {accepts : Core → DWord → DWord} {l : Core × MmuPc}

/-- Only the three stores of `mmu_on` change memory. -/
theorem mmuAccess_ram (h : l.2.storesTable = false) : (mmuAccess accepts l m).1.ram = m.ram := by
  obtain ⟨c, pc⟩ := l
  cases pc <;> first | rfl | cases h

/-- The label of a store is right: the labelled accesses are those that can change memory. -/
theorem storesTable_iff : l.2.storesTable = true ↔
    ∃ ram, (mmuAccess accepts l { m with ram }).1.ram ≠ ram := by
  have hstore (a v : DWord) : ∃ ram, (MmuMem.store { m with ram } a v).ram ≠ ram := by
    refine ⟨write 8 m.ram a.toNat (v + 1), fun h => ?_⟩
    have hread := congrArg (read 8 · a.toNat) h
    dsimp only [MmuMem.store] at hread
    rw [read_write, read_write] at hread
    bv_omega
  obtain ⟨c, pc⟩ := l
  cases pc with
  | zeroTable x2 x3 => exact iff_of_true rfl (hstore x2 0)
  | fillDevice => exact iff_of_true rfl (hstore ttbBase deviceBlock)
  | fillNormal => exact iff_of_true rfl (hstore (ttbBase + 8) (normalBlock ||| 0x40000000))
  | checkInit | markBuilt | loadTtbr0 | loadMair | loadTcr | readTcr | loadSctlr | mmuHang =>
    refine iff_of_false Bool.false_ne_true ?_
    rintro ⟨ram, hram⟩
    exact hram rfl

theorem tableReady_mmuAccess (hready : TableReady m) (h : l.2.Knows m) :
    TableReady (mmuAccess accepts l m).1 := by
  obtain ⟨c, pc⟩ := l
  cases pc with
  | zeroTable x2 x3 => exact fun hinit => absurd h.1 hinit
  | fillDevice => exact fun hinit => absurd h.1 hinit
  | fillNormal => exact fun hinit => absurd h.1 hinit
  | markBuilt => exact fun _ => h.2
  | checkInit | loadTtbr0 | loadMair | loadTcr | readTcr | loadSctlr | mmuHang => exact hready

/-- The accesses of a core are its own. -/
theorem mmuAccess_core {l' : Core × MmuPc} (hl : (mmuAccess accepts l m).2 = .inl l') :
    l'.1 = l.1 := by
  obtain ⟨c, pc⟩ := l
  cases pc <;> obtain ⟨⟩ := hl <;> rfl

theorem knows_mmuAccess {l' : Core × MmuPc} (h : l.2.Knows m)
    (hl : (mmuAccess accepts l m).2 = .inl l') : l'.2.Knows (mmuAccess accepts l m).1 := by
  obtain ⟨c, pc⟩ := l
  cases pc <;> obtain ⟨⟩ := hl
  case checkInit =>
    show (if m.mmuInit ≠ 0 then MmuPc.loadTtbr0 else .zeroTable ttbBase 512).Knows m
    by_cases hinit : m.mmuInit ≠ 0
    · rwa [if_pos hinit]
    · rw [if_neg hinit]
      exact ⟨not_not.1 hinit, 0, by omega, rfl, rfl, entries_zero⟩
  case zeroTable => exact knows_zeroTable h
  case fillDevice => exact knows_fillDevice h
  case fillNormal => exact knows_fillNormal h
  case markBuilt => exact (by decide : (1 : Word) ≠ 0)
  case readTcr =>
    show (if (m.sys c).tcr ≠ tcrVal then MmuPc.mmuHang else .loadSctlr).Knows m
    by_cases htcr : (m.sys c).tcr ≠ tcrVal
    · rwa [if_pos htcr]
    · rwa [if_neg htcr]
  all_goals exact h

/-- `mmu_on` keeps the table as `mmu_init` says. -/
theorem mmuOn_guarded : Guarded (mmuOn accepts) (fun _ => TableReady)
    (fun c _ l m => l.1 = c ∧ l.2.Knows m) where
  start _ _ _ _ := ⟨rfl, trivial⟩
  keep _ _ _ _ hready h := tableReady_mmuAccess hready h.2
  next _ _ _ _ _ _ h hl := ⟨(mmuAccess_core hl).trans h.1, knows_mmuAccess h.2 hl⟩

end Invariant

/-! ## Who builds the table, and when -/

section Runs

variable {Core : Type*} {s s' : MmuState Core} {a : Act Core Unit} {c : Core} {l : Core × MmuPc}

/-- Between `zero_table` and the store to `mmu_init`. -/
def MmuPc.builds : MmuPc → Bool
  | .zeroTable _ _ | .fillDevice | .fillNormal | .markBuilt => true
  | _ => false

theorem builds_of_storesTable {pc : MmuPc} (h : pc.storesTable = true) : pc.builds = true := by
  cases pc <;> first | rfl | cases h

theorem mmuInit_of_builds {m : MmuMem Core} {pc : MmuPc} (h : pc.Knows m)
    (hb : pc.builds = true) : m.mmuInit = 0 := by
  cases pc <;> first | exact h.1 | cases hb

theorem storer_eq_some (h : storer s a = some c) :
    ∃ ok l, a = .step c ok ∧ s.phase c = .inside () l ∧ l.2.storesTable = true := by
  cases a with
  | call d op => cases h
  | step d ok =>
    unfold storer at h
    dsimp only at h
    cases hd : s.phase d with
    | inside op l =>
      rw [hd] at h
      obtain ⟨hstores, hdc⟩ := Option.ite_none_right_eq_some.1 h
      obtain rfl := Option.some.inj hdc
      exact ⟨ok, l, rfl, hd, hstores⟩
    | _ => rw [hd] at h; cases h

theorem tableReady_boot (ram : Memory) (sys : Core → SysRegs) : TableReady ⟨0, ram, sys⟩ :=
  fun hinit => absurd rfl hinit

variable [DecidableEq Core] {accepts : Core → DWord → DWord}

/-- What `mmuOn_guarded` keeps in every run. -/
abbrev MmuSafe (accepts : Core → DWord → DWord) (s : MmuState Core) : Prop :=
  Safe (mmuOn accepts) (fun _ => TableReady) (fun c _ l m => l.1 = c ∧ l.2.Knows m) s

/-- A core that builds the table goes on building it until `mmu_init` is set. -/
theorem builds_mmuAccess {m : MmuMem Core} (hb : l.2.builds = true)
    (hinit : (mmuAccess accepts l m).1.mmuInit = 0) :
    ∃ l', (mmuAccess accepts l m).2 = .inl l' ∧ l'.2.builds = true := by
  obtain ⟨d, pc⟩ := l
  cases pc with
  | zeroTable x2 x3 =>
    refine ⟨_, rfl, ?_⟩
    show (if x3 - 1 ≠ 0 then MmuPc.zeroTable (x2 + 8) (x3 - 1) else .fillDevice).builds = true
    by_cases hx : x3 - 1 ≠ 0
    · rw [if_pos hx]; rfl
    · rw [if_neg hx]; rfl
  | fillDevice => exact ⟨_, rfl, rfl⟩
  | fillNormal => exact ⟨_, rfl, rfl⟩
  | markBuilt => exact absurd hinit (by decide : (1 : Word) ≠ 0)
  | checkInit | loadTtbr0 | loadMair | loadTcr | readTcr | loadSctlr | mmuHang => cases hb

/-- Nothing sets `mmu_init` back to 0. -/
theorem mmuInit_mmuAccess {m : MmuMem Core} (h : m.mmuInit ≠ 0) :
    (mmuAccess accepts l m).1.mmuInit ≠ 0 := by
  obtain ⟨d, pc⟩ := l
  cases pc with
  | markBuilt => exact (by decide : (1 : Word) ≠ 0)
  | _ => exact h

theorem mmuInit_step (hs : step (mmuOn accepts) s a = some s') (h : (s.mem ()).mmuInit ≠ 0) :
    (s'.mem ()).mmuInit ≠ 0 := by
  rcases mem_step hs with hmem | ⟨c, ok, op, l, -, -, rfl⟩
  · rwa [hmem]
  · exact mmuInit_mmuAccess h

/-- A core inside stays at its access or makes it, and goes on. -/
theorem builds_step (hs : step (mmuOn accepts) s a = some s') (hc : s.phase c = .inside () l)
    (hb : l.2.builds = true) (hinit : (s'.mem ()).mmuInit = 0) :
    ∃ l', s'.phase c = .inside () l' ∧ l'.2.builds = true := by
  rcases inside_step hs hc with hstay | ⟨ok, -, rfl⟩
  · exact ⟨l, hstay, hb⟩
  · obtain ⟨l', hl', hb'⟩ := builds_mmuAccess hb hinit
    refine ⟨l', ?_, hb'⟩
    show ((s.setMem () _).goto c (Phase.after () _)).phase c = _
    rw [goto_phase_self]
    exact congrArg (Phase.after ()) hl'

/-- At most one core has stored to the table, and until `mmu_init` is set it has not left. -/
structure OneBuilder (accepts : Core → DWord → DWord) (s : MmuState Core)
    (stores : List (Option Core)) : Prop where
  safe : MmuSafe accepts s
  one : ∀ c d, some c ∈ stores → some d ∈ stores → c = d
  stays : (s.mem ()).mmuInit = 0 → ∀ c, some c ∈ stores →
    ∃ l, s.phase c = .inside () l ∧ l.2.builds = true

theorem holds_of_inside (h : s.phase c = .inside () l) : Holds (mmuOn accepts) s c () :=
  ⟨(), by rw [h]; rfl, rfl⟩

theorem OneBuilder.step {stores : List (Option Core)} (h : OneBuilder accepts s stores)
    (hs : step (mmuOn accepts) s a = some s') :
    OneBuilder accepts s' (stores ++ [storer s a]) := by
  -- a core that stores now is the one that stored before
  have hnew : ∀ c d, some c ∈ stores → storer s a = some d → c = d := by
    intro c d hc hd
    obtain ⟨ok, l, -, hin, hstores⟩ := storer_eq_some hd
    have hinit := mmuInit_of_builds (h.safe.inside d () l hin).2 (builds_of_storesTable hstores)
    obtain ⟨l', hin', -⟩ := h.stays hinit c hc
    exact h.safe.mutex.excl c d () (holds_of_inside hin') (holds_of_inside hin)
  refine ⟨safe_step mmuOn_guarded h.safe hs, fun c d hc hd => ?_, fun hinit c hc => ?_⟩
  · rw [List.mem_append, List.mem_singleton] at hc hd
    rcases hc with hc | hc <;> rcases hd with hd | hd
    · exact h.one c d hc hd
    · exact hnew c d hc hd.symm
    · exact (hnew d c hd hc.symm).symm
    · exact Option.some.inj (hc.trans hd.symm)
  · rw [List.mem_append, List.mem_singleton] at hc
    rcases hc with hc | hc
    · have hinit₀ : (s.mem ()).mmuInit = 0 := by
        by_contra hne
        exact mmuInit_step hs hne hinit
      obtain ⟨l, hin, hb⟩ := h.stays hinit₀ c hc
      exact builds_step hs hin hb hinit
    · obtain ⟨ok, l, -, hin, hstores⟩ := storer_eq_some hc.symm
      exact builds_step hs hin (builds_of_storesTable hstores) hinit

/-- Once `mmu_init` is set nobody stores to the table. -/
structure Built (accepts : Core → DWord → DWord) (ram : Memory) (s : MmuState Core)
    (stores : List (Option Core)) : Prop where
  safe : MmuSafe accepts s
  set : (s.mem ()).mmuInit ≠ 0
  ram_eq : (s.mem ()).ram = ram
  none_stores : ∀ c, some c ∉ stores

theorem Built.step {ram : Memory} {stores : List (Option Core)} (h : Built accepts ram s stores)
    (hs : step (mmuOn accepts) s a = some s') :
    Built accepts ram s' (stores ++ [storer s a]) := by
  have hidle : ∀ c l, s.phase c = .inside () l → l.2.storesTable = false := by
    intro c l hin
    by_contra hstores
    exact h.set (mmuInit_of_builds (h.safe.inside c () l hin).2
      (builds_of_storesTable (by simpa using hstores)))
  refine ⟨safe_step mmuOn_guarded h.safe hs, mmuInit_step hs h.set, ?_, fun c hc => ?_⟩
  · rw [← h.ram_eq]
    rcases mem_step hs with hmem | ⟨c, ok, op, l, -, hin, rfl⟩
    · rw [hmem]
    · exact mmuAccess_ram (hidle c l hin)
  · rw [List.mem_append, List.mem_singleton] at hc
    rcases hc with hc | hc
    · exact h.none_stores c hc
    · obtain ⟨ok, l, -, hin, hstores⟩ := storer_eq_some hc.symm
      rw [hidle c l hin] at hstores
      cases hstores

theorem mmuSafe_boot (ram : Memory) (sys : Core → SysRegs) : MmuSafe accepts (mmuBoot ram sys) :=
  safe_init fun _ => tableReady_boot ram sys

theorem mmuSafe_run {ram : Memory} {sys : Core → SysRegs} {as : List (Act Core Unit)}
    (h : exec (step (mmuOn accepts)) (mmuBoot ram sys) as = some s) : MmuSafe accepts s :=
  safe_exec mmuOn_guarded (fun _ => tableReady_boot ram sys) h

/-- **The page table is built once, before it is used.** Whatever the number of cores and the order
of their accesses: one core at most is under `mmu_lock`; all stores to the table are one core's; and
when a core is about to turn its MMU on, the table is final and nobody ever stores to it again. -/
theorem page_table_built_once (accepts : Core → DWord → DWord) (ram : Memory) (sys : Core → SysRegs)
    (as : List (Act Core Unit)) (s : MmuState Core)
    (h : exec (step (mmuOn accepts)) (mmuBoot ram sys) as = some s) :
    (∀ c d, Holds (mmuOn accepts) s c () → Holds (mmuOn accepts) s d () → c = d) ∧
    (∀ c d, some c ∈ labels (step (mmuOn accepts)) storer (mmuBoot ram sys) as →
      some d ∈ labels (step (mmuOn accepts)) storer (mmuBoot ram sys) as → c = d) ∧
    ∀ c, AtSctlr s c → TableFinal (s.mem ()).ram ∧
      ∀ bs s', exec (step (mmuOn accepts)) s bs = some s' →
        (∀ d, some d ∉ labels (step (mmuOn accepts)) storer s bs) ∧
        (s'.mem ()).ram = (s.mem ()).ram := by
  have hsafe : MmuSafe accepts s := mmuSafe_run h
  have hone : OneBuilder accepts s (labels (step (mmuOn accepts)) storer (mmuBoot ram sys) as) :=
    labels_invariant_along (G := fun _ _ => True) (fun _ _ _ _ hJ _ hs => OneBuilder.step hJ hs)
      ⟨mmuSafe_boot ram sys, by simp, by simp⟩ (along_of_forall fun _ _ => trivial) h
  refine ⟨fun c d => hsafe.mutex.excl c d (), hone.one, fun c hc => ?_⟩
  have hset : (s.mem ()).mmuInit ≠ 0 := (hsafe.inside c () _ hc).2
  refine ⟨hsafe.mem () hset, fun bs s' hrun => ?_⟩
  have hbuilt : Built accepts (s.mem ()).ram s' (labels (step (mmuOn accepts)) storer s bs) :=
    labels_invariant_along (G := fun _ _ => True) (fun _ _ _ _ hJ _ hs => Built.step hJ hs)
      ⟨hsafe, hset, rfl, by simp⟩ (along_of_forall fun _ _ => trivial) hrun
  exact ⟨hbuilt.none_stores, hbuilt.ram_eq⟩

/-- Core 1 loads the free lock word and loses the store to core 0, which builds the table, loads
its registers and releases the lock; one more store of core 1 fails for no reason. -/
def twoCoresBoot : List (Act (Fin 2) Unit) :=
  [.call 0 (), .call 1 (), .step 1 true, .step 0 true, .step 0 true, .step 1 true] ++
    List.replicate (1 + 512 + 3 + 6) (.step 0 true) ++
    [.step 1 true, .step 1 false, .step 1 true, .step 1 true] ++ List.replicate 5 (.step 1 true)

theorem exec_twoCoresBoot :
    ∃ s, exec (step (mmuOn fun _ v => v)) (mmuBoot (fun _ => 0xFF) fun _ => ⟨0, 0, 0, 0⟩)
      twoCoresBoot = some s ∧ AtSctlr s (1 : Fin 2) := by
  have heval : (exec (step (mmuOn fun _ v => v)) (mmuBoot (fun _ => 0xFF) fun _ => ⟨0, 0, 0, 0⟩)
      twoCoresBoot).map (fun s => s.phase 1) = some (.inside () (1, .loadSctlr)) := by
    decide +kernel
  exact Option.map_eq_some_iff.1 heval

theorem page_table_built_once_twoCoresBoot :
    ∃ s, exec (step (mmuOn fun _ v => v)) (mmuBoot (fun _ => 0xFF) fun _ => ⟨0, 0, 0, 0⟩)
        twoCoresBoot = some s ∧ AtSctlr s (1 : Fin 2) ∧ TableFinal (s.mem ()).ram := by
  obtain ⟨s, hrun, hat⟩ := exec_twoCoresBoot
  obtain ⟨-, -, hfinal⟩ := page_table_built_once _ _ _ twoCoresBoot s hrun
  exact ⟨s, hrun, hat, (hfinal 1 hat).1⟩

end Runs

end Gateway
