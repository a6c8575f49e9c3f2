import Gateway.Lib.ByteMemory

/-!
# VMSAv8-64 address translation

Stage 1 of the EL1&0 translation regime of Armv8.0, for accesses made at EL1 with stage 2 off. `walk`
follows the descriptors from the table of `TTBR0_EL1` or `TTBR1_EL1`, and `translate` adds the
checks of the last descriptor, the permissions and the memory type. What the architecture leaves to
the implementation is a parameter. The descriptor fields that no EL1 access depends on (shareability,
`nG`, `UXN`, the contiguous hint, the security state) and allocation hints are left out.
-/

namespace Vmsa

open ByteMemory

/-! ## Registers and what they select -/

/-- The registers that control the regime. -/
structure Regs where
  ttbr0 : BitVec 64
  ttbr1 : BitVec 64
  mair : BitVec 64
  tcr : BitVec 64
  sctlr : BitVec 64

/-- The `len` bits of a register from bit `lo` on. -/
def field (x : BitVec 64) (lo len : ℕ) : ℕ := x.toNat / 2 ^ lo % 2 ^ len

inductive Granule where
  | kb4 | kb16 | kb64
  deriving DecidableEq

/-- The number of address bits inside a page. -/
def Granule.bits : Granule → ℕ
  | .kb4 => 12
  | .kb16 => 14
  | .kb64 => 16

/-- The number of address bits that one table resolves: a table fills a page. -/
def Granule.stride (g : Granule) : ℕ := g.bits - 3

/-- The first level that may hold block descriptors. -/
def Granule.firstBlockLevel : Granule → ℕ
  | .kb4 => 1
  | .kb16 | .kb64 => 2

/-- The sizes of physical addresses. -/
inductive PaSize where
  | b32 | b36 | b40 | b42 | b44 | b48

def PaSize.bits : PaSize → ℕ
  | .b32 => 32
  | .b36 => 36
  | .b40 => 40
  | .b42 => 42
  | .b44 => 44
  | .b48 => 48

/-- `IPS` of `TCR_EL1`. -/
def PaSize.ofIps : ℕ → PaSize
  | 0 => .b32
  | 1 => .b36
  | 2 => .b40
  | 3 => .b42
  | 4 => .b44
  | _ => .b48

inductive DeviceKind where
  | nGnRnE | nGnRE | nGRE | gre
  deriving DecidableEq

inductive Cache where
  | nonCacheable | writeThrough | writeBack
  deriving DecidableEq

inductive MemType where
  | device (kind : DeviceKind)
  | normal (outer inner : Cache)
  deriving DecidableEq

def MemType.Cacheable : MemType → Prop
  | .device _ => False
  | .normal outer inner => outer ≠ .nonCacheable ∧ inner ≠ .nonCacheable

/-- What the architecture leaves to the implementation. -/
structure Implementation where
  /-- `ID_AA64MMFR0_EL1.PARange`. -/
  paSize : PaSize
  /-- The granule that a reserved value of `TG0` or `TG1` stands for. -/
  reservedGranule : Granule
  /-- A `T0SZ` or `T1SZ` out of range gives faults; otherwise it counts as the nearest valid one. -/
  tszFaults : Bool
  /-- The type that a reserved attribute of `MAIR_EL1` stands for. -/
  reservedAttr : MemType
  /-- An instruction fetch from Device memory that is not execute-never gives a permission fault;
  otherwise the memory counts as Normal Non-cacheable. -/
  deviceFetchFaults : Bool

/-- What `TCR_EL1` says about one half of the address space. -/
structure Half where
  tsz : ℕ
  disabled : Bool
  granule : Granule
  topByteIgnored : Bool
  ttbr : BitVec 64
  /-- The value of the address bits above the input size. -/
  upper : Bool

section Control

variable (impl : Implementation) (r : Regs)

def granule0 : Granule :=
  match field r.tcr 14 2 with
  | 0 => .kb4
  | 1 => .kb64
  | 2 => .kb16
  | _ => impl.reservedGranule

def granule1 : Granule :=
  match field r.tcr 30 2 with
  | 1 => .kb16
  | 2 => .kb4
  | 3 => .kb64
  | _ => impl.reservedGranule

def lowerHalf : Half where
  tsz := field r.tcr 0 6
  disabled := r.tcr.getLsbD 7
  granule := granule0 impl r
  topByteIgnored := r.tcr.getLsbD 37
  ttbr := r.ttbr0
  upper := false

def upperHalf : Half where
  tsz := field r.tcr 16 6
  disabled := r.tcr.getLsbD 23
  granule := granule1 impl r
  topByteIgnored := r.tcr.getLsbD 38
  ttbr := r.ttbr1
  upper := true

/-- The number of bits of the addresses that a half translates. -/
def inputSize (tsz : ℕ) : Option ℕ :=
  if tsz < 16 then if impl.tszFaults then none else some 48
  else if 39 < tsz then if impl.tszFaults then none else some 25
  else some (64 - tsz)

/-- The number of bits of an output address. -/
def outputSize : ℕ := min (PaSize.ofIps (field r.tcr 32 3)).bits impl.paSize.bits

/-- The address bits above the input size, but for an ignored top byte. -/
def Half.extension (h : Half) (size : ℕ) (va : BitVec 64) : ℕ :=
  va.toNat % 2 ^ (if h.topByteIgnored then 56 else 64) / 2 ^ size

/-- They are all 0 in the lower half and all 1 in the upper half. -/
def Half.Contains (h : Half) (size : ℕ) (va : BitVec 64) : Prop :=
  h.extension size va =
    if h.upper then 2 ^ ((if h.topByteIgnored then 56 else 64) - size) - 1 else 0

instance (h : Half) (size : ℕ) (va : BitVec 64) : Decidable (h.Contains size va) :=
  inferInstanceAs (Decidable (_ = _))

end Control

/-! ## The walk -/

inductive Access where
  | read | write | fetch
  deriving DecidableEq

inductive Fault where
  | translation (level : ℕ)
  | addressSize (level : ℕ)
  | accessFlag (level : ℕ)
  | permission (level : ℕ)
  deriving DecidableEq

/-- `APTable` and `PXNTable` of the table descriptors on the way. -/
structure Inherited where
  readOnly : Bool
  noUser : Bool
  pxn : Bool

def Inherited.add (inh : Inherited) (desc : BitVec 64) : Inherited where
  readOnly := inh.readOnly || desc.getLsbD 62
  noUser := inh.noUser || desc.getLsbD 61
  pxn := inh.pxn || desc.getLsbD 59

/-- The block or page descriptor at the end of a walk; `shift` address bits are inside the block. -/
structure Leaf where
  desc : BitVec 64
  level : ℕ
  shift : ℕ
  inherited : Inherited

/-- A descriptor in memory, in the byte order of `SCTLR_EL1.EE`. -/
def readDesc (r : Regs) (mem : Memory) (a : ℕ) : BitVec 64 :=
  if r.sctlr.getLsbD 25 then read 8 (fun b => mem (a + (7 - (b - a)))) a else read 8 mem a

/-- The address bits of a descriptor above the output size. -/
def tooLarge (out : ℕ) (desc : BitVec 64) : Prop := field desc out (48 - out) ≠ 0

instance (out : ℕ) (desc : BitVec 64) : Decidable (tooLarge out desc) :=
  inferInstanceAs (Decidable (_ ≠ _))

/-- The walk through the table at `base`, `left` levels above the last one; the tables above have
resolved the address bits from `top` on. -/
def walk (g : Granule) (out : ℕ) (desc : ℕ → BitVec 64) (va : ℕ) :
    ℕ → ℕ → ℕ → Inherited → Except Fault Leaf
  | 0, top, base, inh =>
    let d := desc (base + 8 * (va % 2 ^ top / 2 ^ g.bits))
    if d.getLsbD 0 && d.getLsbD 1 then .ok ⟨d, 3, g.bits, inh⟩ else .error (.translation 3)
  | left + 1, top, base, inh =>
    let level := 2 - left
    let shift := (left + 1) * g.stride + g.bits
    let d := desc (base + 8 * (va % 2 ^ top / 2 ^ shift))
    if !d.getLsbD 0 then .error (.translation level)
    else if d.getLsbD 1 then
      if tooLarge out d then .error (.addressSize level)
      else walk g out desc va left shift (field d g.bits (48 - g.bits) * 2 ^ g.bits) (inh.add d)
    else if level < g.firstBlockLevel then .error (.translation level)
    else .ok ⟨d, level, shift, inh⟩

/-- The level at which the walk starts. -/
def Granule.startLevel (g : Granule) (size : ℕ) : ℕ :=
  4 - (size - g.bits + (g.stride - 1)) / g.stride

/-- The walk from a translation table base register. -/
def Half.walk (h : Half) (out size : ℕ) (desc : ℕ → BitVec 64) (va : ℕ) : Except Fault Leaf :=
  if tooLarge out h.ttbr then .error (.addressSize 0)
  else
    let left := 3 - h.granule.startLevel size
    -- the first table has one entry for each value of the address bits it resolves
    let low := 3 + size - (left * h.granule.stride + h.granule.bits)
    Vmsa.walk h.granule out desc va left size (field h.ttbr low (48 - low) * 2 ^ low)
      ⟨false, false, false⟩

/-! ## Translation -/

/-- Where a virtual address is mapped, and what may be done there. -/
structure Mapping where
  addr : ℕ
  attrIndx : ℕ
  readOnly : Bool
  user : Bool
  pxn : Bool
  level : ℕ

def Leaf.mapping (l : Leaf) (out va : ℕ) : Except Fault Mapping :=
  if tooLarge out l.desc then .error (.addressSize l.level)
  else if !l.desc.getLsbD 10 then .error (.accessFlag l.level)
  else .ok {
    addr := field l.desc l.shift (48 - l.shift) * 2 ^ l.shift + va % 2 ^ l.shift
    attrIndx := field l.desc 2 3
    readOnly := l.desc.getLsbD 7 || l.inherited.readOnly
    user := l.desc.getLsbD 6 && !l.inherited.noUser
    pxn := l.desc.getLsbD 53 || l.inherited.pxn
    level := l.level }

/-- The four bits of a `MAIR_EL1` attribute that describe the inner or the outer cache. -/
def cacheOf (attr : ℕ) : Cache :=
  if attr = 4 then .nonCacheable
  else if attr / 4 = 0 ∨ attr / 4 = 2 then .writeThrough
  else .writeBack

def deviceKindOf (attr : ℕ) : DeviceKind :=
  match attr / 4 with
  | 0 => .nGnRnE
  | 1 => .nGnRE
  | 2 => .nGRE
  | _ => .gre

/-- Attribute `i` of `MAIR_EL1`. -/
def memTypeOf (impl : Implementation) (r : Regs) (i : ℕ) : MemType :=
  let outer := field r.mair (8 * i + 4) 4
  let inner := field r.mair (8 * i) 4
  if outer = 0 then
    if inner % 4 = 0 then .device (deviceKindOf inner) else impl.reservedAttr
  else if inner = 0 then impl.reservedAttr
  else .normal (cacheOf outer) (cacheOf inner)

/-- `SCTLR_EL1.C` and `SCTLR_EL1.I` switch the caches. -/
def cacheEnabled (r : Regs) (acc : Access) : Bool :=
  match acc with
  | .read | .write => r.sctlr.getLsbD 2
  | .fetch => r.sctlr.getLsbD 12

/-- A physical address and its memory type. -/
structure Target where
  addr : ℕ
  memType : MemType
  deriving DecidableEq

/-- An access at EL1 is permitted. -/
def Mapping.permits (m : Mapping) (r : Regs) : Access → Bool
  | .read => true
  | .write => !m.readOnly
  | .fetch =>
    -- PXN, WXN over writable memory, or memory that EL0 may write
    !(m.pxn || (r.sctlr.getLsbD 19 && !m.readOnly) || (m.user && !m.readOnly))

/-- The memory type that an access sees. -/
def Mapping.target (m : Mapping) (impl : Implementation) (r : Regs) (acc : Access) :
    Except Fault Target :=
  match memTypeOf impl r m.attrIndx with
  | .device kind =>
    if acc = .fetch then
      if impl.deviceFetchFaults then .error (.permission m.level)
      else .ok ⟨m.addr, .normal .nonCacheable .nonCacheable⟩
    else .ok ⟨m.addr, .device kind⟩
  | .normal outer inner =>
    if cacheEnabled r acc then .ok ⟨m.addr, .normal outer inner⟩
    else .ok ⟨m.addr, .normal .nonCacheable .nonCacheable⟩

/-- Where `va` is mapped while the MMU is on. -/
def resolve (impl : Implementation) (r : Regs) (mem : Memory) (va : BitVec 64) :
    Except Fault Mapping :=
  let h := if va.getLsbD 55 then upperHalf impl r else lowerHalf impl r
  match inputSize impl h.tsz with
  | none => .error (.translation 0)
  | some size =>
    if h.disabled ∨ ¬ h.Contains size va then .error (.translation 0)
    else do
      let leaf ← h.walk (outputSize impl r) size (readDesc r mem) va.toNat
      leaf.mapping (outputSize impl r) va.toNat

/-- An access while the MMU is off. -/
def flat (impl : Implementation) (r : Regs) (acc : Access) (va : BitVec 64) :
    Except Fault Target :=
  let h := if va.getLsbD 55 then upperHalf impl r else lowerHalf impl r
  if h.extension impl.paSize.bits va ≠ 0 then .error (.addressSize 0)
  else if acc = .fetch then
    let cache : Cache := if cacheEnabled r .fetch then .writeThrough else .nonCacheable
    .ok ⟨va.toNat % 2 ^ 48, .normal cache cache⟩
  else .ok ⟨va.toNat % 2 ^ 48, .device .nGnRnE⟩

/-- An access at EL1. -/
def translate (impl : Implementation) (r : Regs) (mem : Memory) (acc : Access) (va : BitVec 64) :
    Except Fault Target :=
  if r.sctlr.getLsbD 0 then do
    let m ← resolve impl r mem va
    if m.permits r acc then m.target impl r acc else .error (.permission m.level)
  else flat impl r acc va

/-! ## Walks that end at the first table -/

section Walk

variable {g : Granule} {out va left top base shift : ℕ} {desc : ℕ → BitVec 64} {inh : Inherited}
  {d : BitVec 64}

/-- An invalid descriptor. -/
theorem walk_invalid (hshift : (left + 1) * g.stride + g.bits = shift)
    (hd : desc (base + 8 * (va % 2 ^ top / 2 ^ shift)) = d) (hvalid : d.getLsbD 0 = false) :
    walk g out desc va (left + 1) top base inh = .error (.translation (2 - left)) := by
  subst hshift
  unfold walk
  dsimp only
  rw [hd, hvalid]
  rfl

/-- A block descriptor. -/
theorem walk_block (hshift : (left + 1) * g.stride + g.bits = shift)
    (hd : desc (base + 8 * (va % 2 ^ top / 2 ^ shift)) = d) (hvalid : d.getLsbD 0 = true)
    (hblock : d.getLsbD 1 = false) (hlevel : g.firstBlockLevel ≤ 2 - left) :
    walk g out desc va (left + 1) top base inh = .ok ⟨d, 2 - left, shift, inh⟩ := by
  subst hshift
  unfold walk
  dsimp only
  rw [hd, hvalid, hblock, if_neg (by decide), if_neg (by decide), if_neg (by omega)]

/-- A descriptor with its access flag set and an output address in range. -/
theorem Leaf.mapping_eq (l : Leaf) (va : ℕ) (hout : ¬ tooLarge out l.desc)
    (haf : l.desc.getLsbD 10 = true) :
    l.mapping out va = .ok {
      addr := field l.desc l.shift (48 - l.shift) * 2 ^ l.shift + va % 2 ^ l.shift
      attrIndx := field l.desc 2 3
      readOnly := l.desc.getLsbD 7 || l.inherited.readOnly
      user := l.desc.getLsbD 6 && !l.inherited.noUser
      pxn := l.desc.getLsbD 53 || l.inherited.pxn
      level := l.level } := by
  unfold Leaf.mapping
  rw [if_neg hout, haf]
  rfl

end Walk

section Translate

variable {impl : Implementation} {r : Regs} {mem : Memory} {acc : Access} {va : BitVec 64}

/-- With the MMU on, an address that is not mapped faults. -/
theorem translate_of_error {f : Fault} (hon : r.sctlr.getLsbD 0 = true)
    (h : resolve impl r mem va = .error f) : translate impl r mem acc va = .error f := by
  unfold translate
  rw [hon, if_pos rfl, h]
  rfl

/-- With the MMU on, a permitted access goes where the address is mapped. -/
theorem translate_of_ok {m : Mapping} (hon : r.sctlr.getLsbD 0 = true)
    (h : resolve impl r mem va = .ok m) (hperm : m.permits r acc = true) :
    translate impl r mem acc va = m.target impl r acc := by
  unfold translate
  rw [hon, if_pos rfl, h]
  show (if m.permits r acc = true then _ else _) = _
  rw [if_pos hperm]

end Translate

end Vmsa
