import Gateway.Boot.Mmu
import Gateway.Lib.Vmsa

/-!
# The memory map of `mmu_on`

The header of `mmu.S` promises an identity map: Device memory without execution below `0x40000000`,
executable Normal memory up to `0x7FFFFFFF`. The registers and the table that `mmu_on` leaves behind
are translated by the rules of VMSAv8-64 (`Gateway.Lib.Vmsa`). The map is as promised but for one
point: `DEVICE_BLOCK` does not set `PXN`, so nothing in it keeps EL1 from fetching instructions from
Device memory (`memory_map_iff`).
-/

namespace Gateway

open Runs CriticalSection ByteMemory Vmsa

/-! ## The registers -/

/-- The registers as `mmu_on` loads them. -/
def loaded : SysRegs := ⟨ttbBase, mairVal, tcrVal, sctlrVal⟩

/-- The registers that control translation; `mmu_on` leaves `ttbr1_el1` alone. -/
def SysRegs.vmsa (r : SysRegs) (ttbr1 : DWord) : Regs := ⟨r.ttbr0, ttbr1, r.mair, r.tcr, r.sctlr⟩

/-- `TCR_VAL`: `T0SZ`, `EPD0`, `TG0`, `EPD1`, `IPS` and `TBI0`. -/
theorem tcrVal_fields : field tcrVal 0 6 = 32 ∧ tcrVal.getLsbD 7 = false ∧ field tcrVal 14 2 = 0 ∧
    tcrVal.getLsbD 23 = true ∧ field tcrVal 32 3 = 0 ∧ tcrVal.getLsbD 37 = false := by decide

/-- `SCTLR_VAL`: `M`, `C`, `I`, `WXN` and `EE`. -/
theorem sctlrVal_bits : sctlrVal.getLsbD 0 = true ∧ sctlrVal.getLsbD 2 = true ∧
    sctlrVal.getLsbD 12 = true ∧ sctlrVal.getLsbD 19 = false ∧ sctlrVal.getLsbD 25 = false := by
  decide

section Map

variable {impl : Implementation} {ttbr1 v : DWord} {mem : Memory} {acc : Access}

theorem vmsa_tcr : (loaded.vmsa ttbr1).tcr = tcrVal := rfl

theorem vmsa_sctlr : (loaded.vmsa ttbr1).sctlr = sctlrVal := rfl

theorem vmsa_mair : (loaded.vmsa ttbr1).mair = mairVal := rfl

theorem outputSize_loaded : outputSize impl (loaded.vmsa ttbr1) = 32 := by
  obtain ⟨-, -, -, -, hips, -⟩ := tcrVal_fields
  unfold outputSize
  rw [vmsa_tcr, hips]
  cases impl.paSize <;> rfl

/-- The lower half: 32 address bits, granules of 4 KiB, the table at `TTB_BASE`. -/
theorem lowerHalf_loaded :
    lowerHalf impl (loaded.vmsa ttbr1) = ⟨32, false, .kb4, false, ttbBase, false⟩ := by
  obtain ⟨htsz, hepd, htg, -, -, htbi⟩ := tcrVal_fields
  unfold lowerHalf granule0
  rw [vmsa_tcr, htsz, hepd, htg, htbi]
  rfl

/-- The upper half is switched off. -/
theorem upperHalf_loaded : (upperHalf impl (loaded.vmsa ttbr1)).disabled = true := by
  obtain ⟨-, -, -, hepd, -, -⟩ := tcrVal_fields
  unfold upperHalf
  rw [vmsa_tcr, hepd]

theorem inputSize_loaded : inputSize impl 32 = some 32 := rfl

theorem readDesc_loaded : readDesc (loaded.vmsa ttbr1) mem = fun a => read 8 mem a := by
  funext a
  unfold readDesc
  rw [vmsa_sctlr, sctlrVal_bits.2.2.2.2]
  rfl

theorem contains_lowerHalf :
    (⟨32, false, .kb4, false, ttbBase, false⟩ : Half).Contains 32 v ↔ v.toNat < 2 ^ 32 := by
  have hlt := v.isLt
  show v.toNat % 2 ^ 64 / 2 ^ 32 = 0 ↔ _
  omega

/-- An address with more than 32 bits is not mapped. -/
theorem resolve_of_le (h : 2 ^ 32 ≤ v.toNat) :
    resolve impl (loaded.vmsa ttbr1) mem v = .error (.translation 0) := by
  unfold resolve
  by_cases hupper : v.getLsbD 55 = true
  · rw [if_pos hupper]
    dsimp only
    cases inputSize impl (upperHalf impl (loaded.vmsa ttbr1)).tsz with
    | none => rfl
    | some size => exact if_pos (Or.inl upperHalf_loaded)
  · rw [if_neg hupper, lowerHalf_loaded]
    dsimp only
    rw [inputSize_loaded]
    have hout : ¬ (⟨32, false, .kb4, false, ttbBase, false⟩ : Half).Contains 32 v := fun hc =>
      absurd (contains_lowerHalf.1 hc) (by omega)
    exact if_pos (Or.inr hout)

/-- The table that `ttbr0_el1` names has its first entry at `TTB_BASE`. -/
theorem walk_lowerHalf (desc : ℕ → DWord) (va : ℕ) :
    (⟨32, false, .kb4, false, ttbBase, false⟩ : Half).walk 32 32 desc va =
      Vmsa.walk .kb4 32 desc va 2 32 ttbBase.toNat ⟨false, false, false⟩ := by
  have hsmall : ¬ tooLarge 32 ttbBase := by decide
  have hbase : field ttbBase 5 43 * 2 ^ 5 = ttbBase.toNat := by decide
  unfold Half.walk
  rw [if_neg hsmall, ← hbase]
  rfl

/-- The others are looked up in the table at `TTB_BASE`, from level 1 on. -/
theorem resolve_of_lt (h : v.toNat < 2 ^ 32) :
    resolve impl (loaded.vmsa ttbr1) mem v =
      Vmsa.walk .kb4 32 (fun a => read 8 mem a) v.toNat 2 32 ttbBase.toNat ⟨false, false, false⟩ >>=
        fun leaf => leaf.mapping 32 v.toNat := by
  have hlower : ¬ v.getLsbD 55 = true := by
    rw [BitVec.getLsbD, Nat.testBit_lt_two_pow (by omega)]
    exact Bool.false_ne_true
  unfold resolve
  rw [if_neg hlower, lowerHalf_loaded, outputSize_loaded, readDesc_loaded]
  dsimp only
  rw [inputSize_loaded]
  dsimp only
  have hin : (⟨32, false, .kb4, false, ttbBase, false⟩ : Half).Contains 32 v :=
    contains_lowerHalf.2 h
  rw [if_neg (not_or.2 ⟨Bool.false_ne_true, not_not.2 hin⟩), walk_lowerHalf]

/-! ## The entries -/

/-- Where `DEVICE_BLOCK` and `NORMAL_BLOCK` map an address: `AttrIndx` is 1 and 0, and everything
is permitted at EL1. -/
def blockMapping (k : ℕ) (v : DWord) : Mapping := ⟨v.toNat, 1 - k, false, false, false, 1⟩

/-- The bits of the two block entries: valid, a block, in range, access flag set, mapped to the
gibibyte `k`. -/
theorem tableEntry_block : ∀ k < 2, (tableEntry k).getLsbD 0 = true ∧
    (tableEntry k).getLsbD 1 = false ∧ ¬ tooLarge 32 (tableEntry k) ∧
    (tableEntry k).getLsbD 10 = true ∧ field (tableEntry k) 30 18 = k := by decide

/-- `AttrIndx`, `AP` and `PXN` of the two block entries. -/
theorem tableEntry_attr : ∀ k < 2, field (tableEntry k) 2 3 = 1 - k ∧
    (tableEntry k).getLsbD 7 = false ∧ (tableEntry k).getLsbD 6 = false ∧
    (tableEntry k).getLsbD 53 = false := by decide

theorem tableEntry_invalid {k : ℕ} (h : 2 ≤ k) : (tableEntry k).getLsbD 0 = false := by
  match k, h with
  | k + 2, _ => exact BitVec.getLsbD_zero

/-- The entry that the walk reads for a 32-bit address. -/
theorem read_tableEntry (hfinal : TableFinal mem) (h : v.toNat < 2 ^ 32) :
    read 8 mem (ttbBase.toNat + 8 * (v.toNat % 2 ^ 32 / 2 ^ 30)) = tableEntry (v.toNat / 2 ^ 30) := by
  rw [Nat.mod_eq_of_lt h]
  exact hfinal _ (by omega)

/-- A level 1 entry maps one gibibyte. -/
theorem shift_level1 : (1 + 1) * Granule.kb4.stride + Granule.kb4.bits = 30 := by decide

theorem walk_block_entry (hfinal : TableFinal mem) (h : v.toNat < 2 ^ 31) :
    Vmsa.walk .kb4 32 (fun a => read 8 mem a) v.toNat 2 32 ttbBase.toNat ⟨false, false, false⟩ =
      .ok ⟨tableEntry (v.toNat / 2 ^ 30), 1, 30, ⟨false, false, false⟩⟩ := by
  obtain ⟨hvalid, hblock, -, -, -⟩ := tableEntry_block (v.toNat / 2 ^ 30) (by omega)
  exact walk_block shift_level1 (read_tableEntry hfinal (by omega)) hvalid hblock (by decide)

theorem walk_empty_entry (hfinal : TableFinal mem) (h : 2 ^ 31 ≤ v.toNat)
    (h' : v.toNat < 2 ^ 32) :
    Vmsa.walk .kb4 32 (fun a => read 8 mem a) v.toNat 2 32 ttbBase.toNat ⟨false, false, false⟩ =
      .error (.translation 1) :=
  walk_invalid shift_level1 (read_tableEntry hfinal h') (tableEntry_invalid (by omega))

theorem resolve_block (hfinal : TableFinal mem) (h : v.toNat < 2 ^ 31) :
    resolve impl (loaded.vmsa ttbr1) mem v = .ok (blockMapping (v.toNat / 2 ^ 30) v) := by
  obtain ⟨-, -, hsmall, haf, haddr⟩ := tableEntry_block (v.toNat / 2 ^ 30) (by omega)
  obtain ⟨hattr, hro, huser, hpxn⟩ := tableEntry_attr (v.toNat / 2 ^ 30) (by omega)
  rw [resolve_of_lt (by omega), walk_block_entry hfinal h]
  have hleaf := Leaf.mapping_eq ⟨tableEntry (v.toNat / 2 ^ 30), 1, 30, ⟨false, false, false⟩⟩
    v.toNat hsmall haf
  refine hleaf.trans ?_
  dsimp only
  rw [hattr, hro, huser, hpxn, haddr, Nat.div_add_mod']
  rfl

theorem resolve_empty (hfinal : TableFinal mem) (h : 2 ^ 31 ≤ v.toNat) (h' : v.toNat < 2 ^ 32) :
    resolve impl (loaded.vmsa ttbr1) mem v = .error (.translation 1) := by
  rw [resolve_of_lt h', walk_empty_entry hfinal h h']
  rfl

/-! ## The accesses -/

/-- `MAIR_VAL`: attribute 0 is Normal Write-Back memory, attribute 1 Device-nGnRnE memory. -/
theorem memTypeOf_loaded : memTypeOf impl (loaded.vmsa ttbr1) 0 = .normal .writeBack .writeBack ∧
    memTypeOf impl (loaded.vmsa ttbr1) 1 = .device .nGnRnE := by
  have hfields : field mairVal 4 4 = 15 ∧ field mairVal 0 4 = 15 ∧ field mairVal 12 4 = 0 ∧
      field mairVal 8 4 = 0 := by decide
  obtain ⟨h₁, h₂, h₃, h₄⟩ := hfields
  unfold memTypeOf
  rw [vmsa_mair]
  dsimp only
  rw [h₁, h₂, h₃, h₄]
  exact ⟨rfl, rfl⟩

theorem permits_blockMapping (k : ℕ) :
    (blockMapping k v).permits (loaded.vmsa ttbr1) acc = true := by
  cases acc with
  | read | write => rfl
  | fetch =>
    unfold Mapping.permits
    rw [vmsa_sctlr, sctlrVal_bits.2.2.2.1]
    rfl

theorem cacheEnabled_loaded : cacheEnabled (loaded.vmsa ttbr1) acc = true := by
  obtain ⟨-, hc, hi, -, -⟩ := sctlrVal_bits
  unfold cacheEnabled
  rw [vmsa_sctlr, hc, hi]
  cases acc <;> rfl

/-- An access to one of the two mapped gibibytes. -/
theorem translate_block (hfinal : TableFinal mem) (h : v.toNat < 2 ^ 31) :
    translate impl (loaded.vmsa ttbr1) mem acc v =
      (blockMapping (v.toNat / 2 ^ 30) v).target impl (loaded.vmsa ttbr1) acc :=
  translate_of_ok sctlrVal_bits.1 (resolve_block hfinal h) (permits_blockMapping _)

theorem translate_device (hfinal : TableFinal mem) (h : v.toNat < 2 ^ 30) :
    translate impl (loaded.vmsa ttbr1) mem acc v =
      if acc = .fetch then
        if impl.deviceFetchFaults then .error (.permission 1)
        else .ok ⟨v.toNat, .normal .nonCacheable .nonCacheable⟩
      else .ok ⟨v.toNat, .device .nGnRnE⟩ := by
  rw [translate_block hfinal (by omega), Nat.div_eq_of_lt h]
  unfold Mapping.target
  rw [show (blockMapping 0 v).attrIndx = 1 from rfl, memTypeOf_loaded.2]
  rfl

theorem translate_normal (hfinal : TableFinal mem) (h : 2 ^ 30 ≤ v.toNat) (h' : v.toNat < 2 ^ 31) :
    translate impl (loaded.vmsa ttbr1) mem acc v =
      .ok ⟨v.toNat, .normal .writeBack .writeBack⟩ := by
  have hk : v.toNat / 2 ^ 30 = 1 := by omega
  rw [translate_block hfinal h', hk]
  unfold Mapping.target
  rw [show (blockMapping 1 v).attrIndx = 0 from rfl, memTypeOf_loaded.1]
  dsimp only
  rw [cacheEnabled_loaded]
  rfl

theorem translate_unmapped (hfinal : TableFinal mem) (h : 2 ^ 31 ≤ v.toNat) :
    ∃ f, translate impl (loaded.vmsa ttbr1) mem acc v = .error f := by
  by_cases hsize : v.toNat < 2 ^ 32
  · exact ⟨_, translate_of_error sctlrVal_bits.1 (resolve_empty hfinal h hsize)⟩
  · exact ⟨_, translate_of_error sctlrVal_bits.1 (resolve_of_le (by omega))⟩

/-! ## The promised map -/

/-- What `mmu.S` says about address `v`: below `0x40000000` Device memory without execution, then
Normal cacheable memory for every access up to `0x7FFFFFFF`, both at the same physical address, and
nothing above. -/
def AsDocumented (t : Access → Except Fault Target) (v : DWord) : Prop :=
  if v < 0x40000000 then
    (∀ acc, acc ≠ .fetch → ∃ kind, t acc = .ok ⟨v.toNat, .device kind⟩) ∧ ∃ f, t .fetch = .error f
  else if v < 0x80000000 then
    ∀ acc, ∃ memType, memType.Cacheable ∧ t acc = .ok ⟨v.toNat, memType⟩
  else ∀ acc, ∃ f, t acc = .error f

/-- A fetch from Device memory faults only where the implementation makes it fault. -/
theorem fetch_device_iff (hfinal : TableFinal mem) (h : v.toNat < 2 ^ 30) :
    (∃ f, translate impl (loaded.vmsa ttbr1) mem .fetch v = .error f) ↔
      impl.deviceFetchFaults = true := by
  rw [translate_device hfinal h, if_pos rfl]
  cases impl.deviceFetchFaults with
  | true => exact ⟨fun _ => rfl, fun _ => ⟨_, rfl⟩⟩
  | false =>
    refine ⟨fun ⟨f, hf⟩ => ?_, fun hfalse => ?_⟩
    · cases hf
    · cases hfalse

theorem asDocumented_iff (hfinal : TableFinal mem) :
    AsDocumented (fun acc => translate impl (loaded.vmsa ttbr1) mem acc v) v ↔
      (v < 0x40000000 → impl.deviceFetchFaults = true) := by
  unfold AsDocumented
  by_cases hdevice : v < 0x40000000
  · have hv : v.toNat < 2 ^ 30 := BitVec.lt_def.1 hdevice
    have hdata : ∀ acc, acc ≠ Access.fetch →
        ∃ kind, translate impl (loaded.vmsa ttbr1) mem acc v = .ok ⟨v.toNat, .device kind⟩ := by
      intro acc hacc
      refine ⟨.nGnRnE, ?_⟩
      rw [translate_device hfinal hv, if_neg hacc]
    rw [if_pos hdevice, fetch_device_iff hfinal hv, and_iff_right hdata]
    exact (imp_iff_right hdevice).symm
  · have hv : 2 ^ 30 ≤ v.toNat := Nat.le_of_not_lt fun hlt => hdevice (BitVec.lt_def.2 hlt)
    rw [if_neg hdevice]
    refine iff_of_true ?_ fun h => absurd h hdevice
    by_cases hnormal : v < 0x80000000
    · have hv' : v.toNat < 2 ^ 31 := BitVec.lt_def.1 hnormal
      rw [if_pos hnormal]
      intro acc
      refine ⟨.normal .writeBack .writeBack, ⟨?_, ?_⟩, translate_normal hfinal hv hv'⟩
      all_goals decide
    · have hv' : 2 ^ 31 ≤ v.toNat := Nat.le_of_not_lt fun hlt => hnormal (BitVec.lt_def.2 hlt)
      rw [if_neg hnormal]
      exact fun acc => translate_unmapped hfinal hv'

end Map

/-! ## The registers along a run -/

section Registers

variable {Core : Type*} {m : MmuMem Core} {c : Core} {l : Core × MmuPc}

/-- What a core has loaded before each access; `tcr` is what it can hold in `tcr_el1` for
`TCR_VAL`. -/
def MmuPc.Loaded (tcr : DWord) (r : SysRegs) : MmuPc → Prop
  | .loadMair => r.ttbr0 = ttbBase
  | .loadTcr => r.ttbr0 = ttbBase ∧ r.mair = mairVal
  | .readTcr => r.ttbr0 = ttbBase ∧ r.mair = mairVal ∧ r.tcr = tcr
  | .loadSctlr => r.ttbr0 = ttbBase ∧ r.mair = mairVal ∧ r.tcr = tcrVal ∧ tcr = tcrVal
  | _ => True

variable [DecidableEq Core] {accepts : Core → DWord → DWord}

@[simp] theorem msr_sys_self (m : MmuMem Core) (c : Core) (r : SysRegs) : (m.msr c r).sys c = r :=
  Function.update_self ..

theorem msr_sys_of_ne {d : Core} (m : MmuMem Core) (r : SysRegs) (h : d ≠ c) :
    (m.msr c r).sys d = m.sys d := Function.update_of_ne h ..

/-- The check of `tcr_el1` lets only a core through that holds `TCR_VAL`. -/
theorem loaded_mmuAccess {l' : Core × MmuPc}
    (h : l.2.Loaded (accepts l.1 tcrVal) (m.sys l.1))
    (hl : (mmuAccess accepts l m).2 = .inl l') :
    l'.2.Loaded (accepts l.1 tcrVal) ((mmuAccess accepts l m).1.sys l.1) := by
  obtain ⟨c, pc⟩ := l
  cases pc <;> obtain ⟨⟩ := hl
  case checkInit =>
    show MmuPc.Loaded _ _ (if m.mmuInit ≠ 0 then MmuPc.loadTtbr0 else .zeroTable ttbBase 512)
    by_cases hinit : m.mmuInit ≠ 0
    · rw [if_pos hinit]; trivial
    · rw [if_neg hinit]; trivial
  case zeroTable x2 x3 =>
    show MmuPc.Loaded _ _ (if x3 - 1 ≠ 0 then MmuPc.zeroTable (x2 + 8) (x3 - 1) else .fillDevice)
    by_cases hx : x3 - 1 ≠ 0
    · rw [if_pos hx]; trivial
    · rw [if_neg hx]; trivial
  case loadTtbr0 =>
    show ((m.msr c { m.sys c with ttbr0 := ttbBase }).sys c).ttbr0 = ttbBase
    rw [msr_sys_self]
  case loadMair =>
    show MmuPc.Loaded _ ((m.msr c { m.sys c with mair := mairVal }).sys c) .loadTcr
    rw [msr_sys_self]
    exact ⟨h, rfl⟩
  case loadTcr =>
    show MmuPc.Loaded _ ((m.msr c { m.sys c with tcr := accepts c tcrVal }).sys c) .readTcr
    rw [msr_sys_self]
    exact ⟨h.1, h.2, rfl⟩
  case readTcr =>
    show MmuPc.Loaded _ (m.sys c) (if (m.sys c).tcr ≠ tcrVal then MmuPc.mmuHang else .loadSctlr)
    by_cases htcr : (m.sys c).tcr ≠ tcrVal
    · rw [if_pos htcr]; trivial
    · rw [if_neg htcr]
      exact ⟨h.1, h.2.1, not_not.1 htcr, h.2.2.symm.trans (not_not.1 htcr)⟩
  all_goals trivial

/-- The registers that a core loads are its own, whatever the memory holds. -/
theorem mmuOn_loads : Guarded (mmuOn accepts) (fun _ _ => True)
    (fun c _ l m => l.1 = c ∧ l.2.Loaded (accepts c tcrVal) (m.sys c)) where
  start _ _ _ _ := ⟨rfl, trivial⟩
  keep _ _ _ _ _ _ := trivial
  next _ _ _ _ _ _ h hl := by
    obtain ⟨rfl, hloaded⟩ := h
    exact ⟨mmuAccess_core hl, loaded_mmuAccess hloaded hl⟩

/-- A core that has loaded its registers keeps them: if it calls `mmu_on` again it writes the same
values, and the other cores write their own registers. -/
theorem sys_mmuAccess {d : Core} (haccepts : accepts d tcrVal = tcrVal) (h : m.sys d = loaded) :
    (mmuAccess accepts l m).1.sys d = loaded := by
  obtain ⟨c, pc⟩ := l
  by_cases hc : d = c
  · subst hc
    cases pc with
    | loadTtbr0 | loadMair | loadSctlr => exact (msr_sys_self ..).trans (by rw [h]; rfl)
    | loadTcr => exact (msr_sys_self ..).trans (by rw [h, haccepts]; rfl)
    | checkInit | zeroTable | fillDevice | fillNormal | markBuilt | readTcr | mmuHang => exact h
  · cases pc with
    | loadTtbr0 | loadMair | loadTcr | loadSctlr => exact (msr_sys_of_ne _ _ hc).trans h
    | checkInit | zeroTable | fillDevice | fillNormal | markBuilt | readTcr | mmuHang => exact h

variable {s s' : MmuState Core} {a : Act Core Unit} {as bs : List (Act Core Unit)} {ram : Memory}
  {sys : Core → SysRegs} {ok : Bool}

theorem sys_step (haccepts : accepts c tcrVal = tcrVal) (h : (s.mem ()).sys c = loaded)
    (hs : step (mmuOn accepts) s a = some s') : (s'.mem ()).sys c = loaded := by
  rcases mem_step hs with hmem | ⟨d, ok, op, l, -, -, rfl⟩
  · rwa [hmem]
  · exact sys_mmuAccess haccepts h

/-- The write of `sctlr_el1`. -/
theorem step_sctlr (hc : AtSctlr s c) : step (mmuOn accepts) s (.step c ok) =
    some (s.access (mmuOn accepts) c () (mmuAccess accepts (c, .loadSctlr) (s.mem ()))) := by
  unfold CriticalSection.step
  dsimp only
  rw [hc]
  rfl

/-- A core that writes `sctlr_el1` has loaded all its registers, and the hardware has accepted
`TCR_VAL`. -/
theorem loaded_sctlr (h : exec (step (mmuOn accepts)) (mmuBoot ram sys) as = some s)
    (hc : AtSctlr s c) (hs : step (mmuOn accepts) s (.step c ok) = some s') :
    accepts c tcrVal = tcrVal ∧ (s'.mem ()).sys c = loaded := by
  have hsafe := safe_exec mmuOn_loads (fun _ => trivial) h
  obtain ⟨-, httbr, hmair, htcr, haccepts⟩ := hsafe.inside c () _ hc
  refine ⟨haccepts, ?_⟩
  rw [step_sctlr hc] at hs
  obtain rfl := Option.some.inj hs
  refine (msr_sys_self ..).trans ?_
  rw [httbr, hmair, htcr]
  rfl

/-- From then on the core keeps its registers, and the table is final. -/
theorem loaded_run (h : exec (step (mmuOn accepts)) (mmuBoot ram sys) as = some s)
    (hc : AtSctlr s c) (h' : exec (step (mmuOn accepts)) s (.step c ok :: bs) = some s') :
    (s'.mem ()).sys c = loaded ∧ TableFinal (s'.mem ()).ram := by
  obtain ⟨t, hs, hrun⟩ := exec_cons_eq_some.1 h'
  obtain ⟨haccepts, hloaded⟩ := loaded_sctlr h hc hs
  have hset : (s.mem ()).mmuInit ≠ 0 := ((mmuSafe_run h).inside c () _ hc).2
  have hsafe : MmuSafe accepts s' := mmuSafe_run (exec_append_eq_some.2 ⟨s, h, h'⟩)
  refine ⟨?_, hsafe.mem () ?_⟩
  · exact exec_invariant (I := fun s => (s.mem ()).sys c = loaded)
      (fun _ _ _ hI hs => sys_step haccepts hI hs) hloaded hrun
  · exact exec_invariant (I := fun s => (s.mem ()).mmuInit ≠ 0)
      (fun _ _ _ hI hs => mmuInit_step hs hI) hset h'

/-- **The memory map.** Whatever memory and registers held before, and in whatever order the cores
go through `mmu_on`: once a core has written `sctlr_el1`, every address is as documented, except
that Device memory is kept from execution only by an implementation that never fetches from it. -/
theorem memory_map_iff (accepts : Core → DWord → DWord) (ram : Memory) (sys : Core → SysRegs)
    (as bs : List (Act Core Unit)) (s s' : MmuState Core) (c : Core) (ok : Bool)
    (h : exec (step (mmuOn accepts)) (mmuBoot ram sys) as = some s) (hc : AtSctlr s c)
    (h' : exec (step (mmuOn accepts)) s (.step c ok :: bs) = some s') (impl : Implementation)
    (ttbr1 v : DWord) :
    AsDocumented
        (fun acc => translate impl (((s'.mem ()).sys c).vmsa ttbr1) (s'.mem ()).ram acc v) v ↔
      (v < 0x40000000 → impl.deviceFetchFaults = true) := by
  obtain ⟨hloaded, hfinal⟩ := loaded_run h hc h'
  rw [hloaded]
  exact asDocumented_iff hfinal

end Registers

/-- A core with physical addresses of 44 bits. -/
def core44 (deviceFetchFaults : Bool) : Implementation :=
  ⟨.b44, .kb4, true, .device .nGnRnE, deviceFetchFaults⟩

theorem exec_twoCoresBoot_sctlr :
    ∃ s s', exec (step (mmuOn fun _ v => v)) (mmuBoot (fun _ => 0xFF) fun _ => ⟨0, 0, 0, 0⟩)
        twoCoresBoot = some s ∧ AtSctlr s (1 : Fin 2) ∧
      exec (step (mmuOn fun _ v => v)) s [.step 1 true] = some s' := by
  obtain ⟨s, hrun, hat⟩ := exec_twoCoresBoot
  exact ⟨s, _, hrun, hat, exec_cons_eq_some.2 ⟨_, step_sctlr hat, exec_nil ..⟩⟩

/-- The UART, where fetches from Device memory fault. -/
theorem memory_map_iff_uart :
    ∃ s s', exec (step (mmuOn fun _ v => v)) (mmuBoot (fun _ => 0xFF) fun _ => ⟨0, 0, 0, 0⟩)
        twoCoresBoot = some s ∧ AtSctlr s (1 : Fin 2) ∧
      exec (step (mmuOn fun _ v => v)) s [.step 1 true] = some s' ∧
      AsDocumented (fun acc => translate (core44 true) (((s'.mem ()).sys 1).vmsa 0)
        (s'.mem ()).ram acc 0x09000000) 0x09000000 := by
  obtain ⟨s, s', hrun, hat, hlast⟩ := exec_twoCoresBoot_sctlr
  exact ⟨s, s', hrun, hat, hlast,
    (memory_map_iff _ _ _ _ _ _ _ _ _ hrun hat hlast _ _ _).2 fun _ => rfl⟩

/-- The UART, where fetches from Device memory do not fault: EL1 executes what it fetches there. -/
theorem uart_executable :
    ∃ s s', exec (step (mmuOn fun _ v => v)) (mmuBoot (fun _ => 0xFF) fun _ => ⟨0, 0, 0, 0⟩)
        twoCoresBoot = some s ∧ AtSctlr s (1 : Fin 2) ∧
      exec (step (mmuOn fun _ v => v)) s [.step 1 true] = some s' ∧
      translate (core44 false) (((s'.mem ()).sys 1).vmsa 0) (s'.mem ()).ram .fetch 0x09000000 =
        .ok ⟨0x09000000, .normal .nonCacheable .nonCacheable⟩ ∧
      ¬ AsDocumented (fun acc => translate (core44 false) (((s'.mem ()).sys 1).vmsa 0)
        (s'.mem ()).ram acc 0x09000000) 0x09000000 := by
  obtain ⟨s, s', hrun, hat, hlast⟩ := exec_twoCoresBoot_sctlr
  obtain ⟨hloaded, hfinal⟩ := loaded_run hrun hat hlast
  refine ⟨s, s', hrun, hat, hlast, ?_, fun hdoc => ?_⟩
  · rw [hloaded]
    exact translate_device hfinal (by decide)
  · rw [hloaded] at hdoc
    exact Bool.false_ne_true ((asDocumented_iff hfinal).1 hdoc (by decide))

end Gateway
