import Gateway.Console.Programs
import Gateway.Lib.Exec
import Gateway.Lib.GenericTimer
import Gateway.Lib.Gicv2

/-!
# The timer tests

`interrupt_tests_init` and what it calls, on Core 0: the functions of `irq.c`, the three handlers,
`common_trap_handler` for an IRQ, and the tests that wait for interrupts. A step is a C statement of
the core or something that happens outside it: time passes, devices raise and drop their lines, an
event arrives, the core takes an IRQ. The exception entry and the stubs of `vector.S` are one step
each, and a message is printed in one step, as interrupts are masked while any is printed.

The counter stays below 2⁶³, which it reaches after more than 4000 years.
-/

namespace Gateway.TimerTests

open GenericTimer Gicv2 Console

/-! ## `irq.c` -/

/-- `IRQ_ID_TIMER`. -/
def irqIdTimer : ℕ := 30

/-- `IRQ_ID_UART0`. -/
def irqIdUart0 : ℕ := 33

/-- `irq_init`. -/
def irqInit (g : Gic) : Gic :=
  let g := g.write .ctlr 0
  let g := g.writeRange .icenabler 1 7 0xFFFFFFFF
  let g := g.writeRange .ipriorityr 0 64 0xA0A0A0A0
  let g := g.writeRange .itargetsr 8 24 0x01010101
  let g := g.writeRange .icfgr 2 6 0
  let g := g.write .ctlr 1
  let g := g.write .pmr 0xFF
  let g := g.write .bpr 0
  g.write .cpuCtlr 1

/-- The handlers that are registered. -/
inductive IrqHandler where
  | uart0IrqHandler
  | imaskIrqHandler
  | countdownIrqHandler
  | deltaIrqHandler
  deriving DecidableEq

/-- `irq_table`. -/
abbrev IrqTable := Fin 64 → Option IrqHandler

/-- `irq_table[irq_id] = handler`, the first statement of `irq_register_handler`. -/
def registerHandler (table : IrqTable) (irqId : ℕ) (handler : IrqHandler) : IrqTable :=
  if h : irqId < 64 then Function.update table ⟨irqId, h⟩ (some handler) else table

/-- `GICD_ISENABLER(irq_id / 32u) = (1u << (irq_id % 32u))`, the second. -/
def unmaskIrq (g : Gic) (irqId : ℕ) : Gic :=
  if irqId < 64 then g.write (.isenabler (irqId / 32)) (1 <<< (irqId % 32)) else g

/-- `irq_id < IRQ_MAX_HANDLERS && irq_table[irq_id]`: the handler that is called. -/
def handlerOf (table : IrqTable) (irqId : ℕ) : Option IrqHandler :=
  if h : irqId < 64 then table ⟨irqId, h⟩ else none

/-! ## The state -/

/-- The tests that register a handler for the timer. -/
inductive TimerTest where
  | imask
  | countdown
  | delta
  deriving DecidableEq

def TimerTest.handler : TimerTest → IrqHandler
  | imask => .imaskIrqHandler
  | countdown => .countdownIrqHandler
  | delta => .deltaIrqHandler

/-- What the test writes to `cntp_ctl_el0`: the output is enabled, and `test_imask` masks it. -/
def TimerTest.ctl : TimerTest → DWord
  | imask => 3
  | countdown => 1
  | delta => 1

/-- The next statement of `interrupt_tests_init`. -/
inductive TestPc where
  | irqInit
  | registerUart0
  | unmaskUart0
  | testFreqSanity
  /-- The test prints what it is and clears its variables. -/
  | reset (t : TimerTest)
  | register (t : TimerTest)
  | unmask (t : TimerTest)
  | writeTval (t : TimerTest)
  | writeCtl (t : TimerTest)
  | irqEnable (t : TimerTest)
  /-- `uint64_t start = read_cntpct();` -/
  | readStart
  /-- `while ((read_cntpct() - start) < (2 * freq))`. -/
  | busyWait (start : DWord)
  /-- The condition of `while (u_timerLeft != 0)` or `while (g_delta_count <= DELTA_TEST_TICKS)`. -/
  | loop (t : TimerTest)
  | wfe (t : TimerTest)
  | irqDisable (t : TimerTest)
  /-- `test_imask` disables the timer. -/
  | timerOff
  /-- The test evaluates its variables and prints the result. -/
  | report (t : TimerTest)
  | complete
  | returned
  /-- `while (1) { wfe }` after a wrong frequency. -/
  | fatal
  deriving DecidableEq

/-- The next statement of an IRQ that is in service. -/
inductive TrapPc where
  /-- `uint32_t iar = GICC_IAR;` -/
  | readIar
  /-- The first statements of a handler. -/
  | call (h : IrqHandler)
  /-- `if (g_delta_count > DELTA_TEST_TICKS)`. -/
  | deltaCheck
  /-- `msr cntp_tval_el0` with the frequency. -/
  | rearm
  /-- `msr cntp_ctl_el0` with 0, and `u_timerLeft = 0`. -/
  | countdownStop
  /-- `msr cntp_ctl_el0` with 0. -/
  | deltaStop
  /-- `GICC_EOIR = iar;` -/
  | writeEoir
  | eret
  deriving DecidableEq

/-- What decides which interrupt the core takes and which handler serves it. -/
structure IrqCore where
  cntfrq : DWord
  gic : Gic
  /-- `DAIF.I`. -/
  masked : Bool
  irqTable : IrqTable
  /-- The IRQ in service. -/
  trap : Option TrapPc

/-- What the tests and their handlers share. -/
structure TestVars where
  timer : Timer
  uTimerLeft : Byte
  gImaskFired : Word
  gDeltaCount : Word
  gDeltaTimestamps : Vector DWord 4
  /-- What the core has sent to the console. -/
  out : List Byte

structure TestState extends IrqCore, TestVars where
  /-- The counter. -/
  now : ℕ
  /-- The lines of the devices other than the timer. -/
  lines : ℕ → Bool
  /-- The event register. -/
  event : Bool
  main : TestPc

/-- The interrupts that are pending: all are level-sensitive. -/
def TestState.pending (s : TestState) (id : ℕ) : Bool :=
  if id = irqIdTimer then s.timer.asserted (counter s.now) else s.lines id

def TestState.print (s : TestState) (bs : List Byte) : TestState := { s with out := s.out ++ bs }

/-! ## `timer_tests.c` -/

/-- What `test_freq_sanity` prints, and `interrupt_tests_init` when it failed. -/
def freqText (freq : DWord) : List Byte :=
  uartPuts "[TEST] Frequency sanity check... " ++
    if freq ≠ qemuVirtFreq then
      uartPuts "FAIL (got 0x" ++ uartPuthex freq ++ uartPuts ", expected 0x" ++
        uartPuthex qemuVirtFreq ++ uartPuts ")\n" ++
        uartPuts "[FATAL] Cannot proceed - timer frequency mismatch!\n"
    else uartPuts "PASS (62.5 MHz)\n"

/-- What a test prints first. -/
def TimerTest.title : TimerTest → List Byte
  | imask => uartPuts "[TEST] IMASK bit test... "
  | countdown =>
    uartPuts "[TEST] Countdown timer " ++ uartPutc (charByte '5') ++ uartPuts " -> 0...\n"
  | delta => uartPuts "[TEST] Overflow/late-reload delta check... "

/-- The statements of a test before `irq_register_handler`. -/
def TestVars.reset (v : TestVars) (t : TimerTest) : TestVars :=
  let v := { v with out := v.out ++ t.title }
  match t with
  | .imask => { v with gImaskFired := 0 }
  | .countdown => { v with uTimerLeft := charByte '5' }
  | .delta => { v with gDeltaCount := 0, gDeltaTimestamps := Vector.replicate 4 0 }

/-- The loop of a test goes on. -/
def TestVars.waits (v : TestVars) : TimerTest → Prop
  | .countdown => v.uTimerLeft ≠ 0
  | .delta => v.gDeltaCount ≤ 3
  | .imask => False

instance decidableWaits (v : TestVars) : (t : TimerTest) → Decidable (v.waits t)
  | .imask => inferInstanceAs (Decidable False)
  | .countdown => inferInstanceAs (Decidable (v.uTimerLeft ≠ 0))
  | .delta => inferInstanceAs (Decidable (v.gDeltaCount ≤ 3))

/-- What `test_imask` prints after it. -/
def imaskResult (fired : Word) : List Byte :=
  if fired ≠ 0 then
    uartPuts "FAIL (handler fired " ++ uartPutc (digit (fired &&& 0xF).toNat) ++
      uartPuts " times despite IMASK)\n"
  else uartPuts "PASS (0 fires with IMASK set)\n"

/-- `delta < min_ok || delta > max_ok` is false. -/
def deltaOk (freq delta : DWord) : Bool :=
  let minOk := freq - freq * 10 / 100
  let maxOk := freq + freq * 10 / 100
  !(decide (delta < minOk) || decide (maxOk < delta))

/-- `g_delta_timestamps[i + 1] - g_delta_timestamps[i]`. -/
def deltaOf (stamps : Vector DWord 4) (i : Fin 3) : DWord :=
  stamps.get i.succ - stamps.get i.castSucc

/-- What `test_delta` prints after its loop. -/
def deltaResult (freq : DWord) (delta : Fin 3 → DWord) : List Byte :=
  ((List.finRange 3).flatMap fun i =>
    uartPuts "  delta[" ++ uartPutc (digit (i.val + 1)) ++ uartPuts "]: 0x" ++
      uartPuthex (delta i) ++
      if deltaOk freq (delta i) then uartPuts " OK\n" else uartPuts " FAIL\n") ++
    if ∀ i, deltaOk freq (delta i) = true then uartPuts "[TEST] Delta check... PASS\n"
    else uartPuts "[TEST] Delta check... FAIL\n"

/-- What a test prints at its end. -/
def TestVars.result (v : TestVars) (freq : DWord) : TimerTest → List Byte
  | .imask => imaskResult v.gImaskFired
  | .countdown => uartPuts "[TEST] Countdown... PASS\n"
  | .delta => deltaResult freq (deltaOf v.gDeltaTimestamps)

/-- What follows a test. -/
def TimerTest.next : TimerTest → TestPc
  | imask => .reset .countdown
  | countdown => .reset .delta
  | delta => .complete

/-- What `countdown_irq_handler` prints. -/
def firedText (timerLeft : Byte) : List Byte :=
  uartPuts "[IRQ] Timer fired! Remaining..." ++ uartPutc timerLeft ++ uartPuts "\n"

/-- The first statements of a handler, to the one that stops or re-arms the timer. -/
def callHandler (s : TestState) : IrqHandler → TestState
  | .uart0IrqHandler => { s with trap := some .writeEoir }
  | .imaskIrqHandler => { s with gImaskFired := s.gImaskFired + 1, trap := some .writeEoir }
  | .countdownIrqHandler =>
    let s := s.print (firedText s.uTimerLeft)
    if charByte '0' < s.uTimerLeft then
      { s with uTimerLeft := s.uTimerLeft - 1, trap := some .rearm }
    else { s with trap := some .countdownStop }
  | .deltaIrqHandler =>
    if h : s.gDeltaCount.toNat ≤ 3 then
      { s with
        gDeltaTimestamps := s.gDeltaTimestamps.set s.gDeltaCount.toNat (counter s.now)
        gDeltaCount := s.gDeltaCount + 1
        trap := some .deltaCheck }
    else { s with trap := some .deltaCheck }

/-- A statement of the IRQ in service, after the read of `GICC_IAR`. -/
def trapStep (s : TestState) : TrapPc → Option TestState
  | .readIar => none
  | .call h => some (callHandler s h)
  | .deltaCheck =>
    some { s with trap := some (if 3 < s.gDeltaCount then .deltaStop else .rearm) }
  | .rearm => some
    { s with timer := s.timer.writeTval (counter s.now) s.cntfrq, trap := some .writeEoir }
  | .countdownStop => some
    { s with timer := s.timer.writeCtl 0, uTimerLeft := 0, trap := some .writeEoir }
  | .deltaStop => some { s with timer := s.timer.writeCtl 0, trap := some .writeEoir }
  | .writeEoir => some { s with gic := s.gic.endOfInterrupt, trap := some .eret }
  | .eret => some { s with masked := false, event := true, trap := none }

/-- A statement of `interrupt_tests_init`. -/
def mainStep (s : TestState) : TestPc → Option TestState
  | .irqInit => some { s with gic := irqInit s.gic, main := .registerUart0 }
  | .registerUart0 => some
    { s with irqTable := registerHandler s.irqTable irqIdUart0 .uart0IrqHandler, main := .unmaskUart0 }
  | .unmaskUart0 => some { s with gic := unmaskIrq s.gic irqIdUart0, main := .testFreqSanity }
  | .testFreqSanity => some
    { s.print (freqText s.cntfrq) with
      main := if s.cntfrq ≠ qemuVirtFreq then .fatal else .reset .imask }
  | .reset t => some { s with toTestVars := s.toTestVars.reset t, main := .register t }
  | .register t => some
    { s with irqTable := registerHandler s.irqTable irqIdTimer t.handler, main := .unmask t }
  | .unmask t => some { s with gic := unmaskIrq s.gic irqIdTimer, main := .writeTval t }
  | .writeTval t => some
    { s with timer := s.timer.writeTval (counter s.now) s.cntfrq, main := .writeCtl t }
  | .writeCtl t => some { s with timer := s.timer.writeCtl t.ctl, main := .irqEnable t }
  | .irqEnable t => some
    { s with masked := false, main := if t = .imask then .readStart else .loop t }
  | .readStart => some { s with main := .busyWait (counter s.now) }
  | .busyWait start => some
    { s with main := if counter s.now - start < 2 * s.cntfrq then .busyWait start
        else .irqDisable .imask }
  | .loop t => some { s with main := if s.waits t then .wfe t else .irqDisable t }
  | .wfe t => if s.event then some { s with event := false, main := .loop t } else none
  | .irqDisable t => some
    { s with masked := true, main := if t = .imask then .timerOff else .report t }
  | .timerOff => some { s with timer := s.timer.writeCtl 0, main := .report .imask }
  | .report t => some { s.print (s.result s.cntfrq t) with main := t.next }
  | .complete => some
    { s.print (uartPuts "[IRQ] All timer tests complete. Continuing...\n") with main := .returned }
  | .returned => none
  | .fatal => none

/-! ## Steps -/

inductive TestAct where
  | tick (d : ℕ)
  | setLines (lines : ℕ → Bool)
  | sev
  /-- The core takes the exception. -/
  | takeIrq
  /-- The load from `GICC_IAR` gives an INTID, or 1023 if there is none to give. -/
  | readIar (id : Option ℕ)
  | trap
  | main

def step (s : TestState) : TestAct → Option TestState
  | .tick d => if s.now + d < 2 ^ 63 then some { s with now := s.now + d } else none
  | .setLines lines => some { s with lines }
  | .sev => some { s with event := true }
  | .takeIrq =>
    if s.masked = false ∧ s.trap = none ∧ s.gic.signalsIrq s.pending = true then
      some { s with masked := true, trap := some .readIar }
    else none
  | .readIar (some id) =>
    if s.trap = some .readIar ∧ id < 1020 ∧ s.gic.signals s.pending id = true then
      some { s with
        gic := s.gic.acknowledge id
        trap := some (match handlerOf s.irqTable id with
          | some h => .call h
          | none => .writeEoir) }
    else none
  | .readIar none =>
    if s.trap = some .readIar ∧ s.gic.signalsIrq s.pending = false then
      some { s with trap := some .eret }
    else none
  | .trap => s.trap.bind (trapStep s)
  | .main => if s.trap = none then mainStep s s.main else none

end Gateway.TimerTests
