import Gateway.Interrupts.TimerTests

/-!
# Runs of the timer tests

The invariant `At` says what Core 0 knows before each statement of `interrupt_tests_init`. While
interrupts are enabled it is `Window`: the handler of the test is registered, only the timer and
the UART can interrupt, and `Progress` says how far the handler has come.

* `tests_transcript`: what is on the console when `interrupt_tests_init` returns.
* `asleep_armed`: a core that sleeps in `wfe` will be woken by the timer.
* `acknowledged_registered`: every interrupt that the core acknowledges has its handler.
-/

namespace Gateway.TimerTests

open GenericTimer Gicv2 Console Runs

/-! ## The interrupt controller -/

variable {g : Gic} {id : ℕ}

/-- What `irq_init` sets up that no later statement changes. -/
structure Configured (g : Gic) : Prop where
  ctlr : g.ctlr = 1
  pmr : g.pmr = 0xFF
  cpuCtlr : g.cpuCtlr = 1
  priority : ∀ id < 256, g.priority id = 0xA0

/-- The fields of every interrupt after `irq_init`. The four loops end at different INTIDs. -/
theorem irqInit_eq (g : Gic) : irqInit g =
    { ctlr := 1
      enabled := overRange 32 1 7 (fun _ => false) g.enabled
      priority := overRange 4 0 64 (fun id => field 0xA0A0A0A0 (id % 4)) g.priority
      targets := overRange 4 8 24 (fun id => field 0x01010101 (id % 4)) g.targets
      edge := overRange 16 2 6 (fun id => (0 : Word).getLsbD (2 * (id % 16) + 1)) g.edge
      pmr := 0xFF, bpr := 0, cpuCtlr := 1, active := g.active } := by
  simp only [irqInit, writeRange_icenabler, writeRange_ipriorityr, writeRange_itargetsr,
    writeRange_icfgr]
  rfl

theorem configured_irqInit (g : Gic) : Configured (irqInit g) := by
  rw [irqInit_eq]
  refine ⟨rfl, rfl, rfl, fun id hid => ?_⟩
  have hbyte : ∀ k < 4, field 0xA0A0A0A0 k = 0xA0 := by decide
  have hmem : overRange 4 0 64 (fun id => field 0xA0A0A0A0 (id % 4)) g.priority id =
      field 0xA0A0A0A0 (id % 4) := overRange_of_mem (by omega) (by omega)
  exact hmem.trans (hbyte _ (by omega))

/-- The interrupts in `ids` are enabled, and no other of those that `irq_init` disables. -/
def Enables (g : Gic) (ids : List ℕ) : Prop :=
  ∀ id, (id ∈ ids → g.enabled id = true) ∧
    (32 ≤ id → id < 256 → id ∉ ids → g.enabled id = false)

theorem enabled_irqInit (g : Gic) (id : ℕ) :
    (irqInit g).enabled id = if 1 ≤ id / 32 ∧ id / 32 < 1 + 7 then false else g.enabled id := by
  rw [irqInit_eq]
  rfl

theorem enables_irqInit (g : Gic) : Enables (irqInit g) [] := by
  refine fun id => ⟨fun hmem => absurd hmem List.not_mem_nil, fun hlow hhigh _ => ?_⟩
  rw [enabled_irqInit, if_pos (by omega)]

theorem enabled_unmaskIrq (g : Gic) (hid : id < 64) (i : ℕ) :
    (unmaskIrq g id).enabled i = if i = id then true else g.enabled i := by
  have hbit : ((1 : Word) <<< (id % 32)).getLsbD (i % 32) = decide (i % 32 = id % 32) := by
    have hone (k : ℕ) : (1 : Word).getLsbD k = decide (k = 0) :=
      BitVec.getLsbD_one.trans (Bool.true_and _)
    rw [BitVec.getLsbD_shiftLeft, hone]
    grind
  rw [TimerTests.unmaskIrq, if_pos hid]
  show (if i / 32 = id / 32 ∧ ((1 : Word) <<< (id % 32)).getLsbD (i % 32) = true then true
    else g.enabled i) = _
  rw [hbit]
  grind

theorem Enables.unmaskIrq {ids : List ℕ} (h : Enables g ids) (hid : id < 64) :
    Enables (unmaskIrq g id) (id :: ids) := by
  intro i
  rw [enabled_unmaskIrq g hid]
  by_cases hi : i = id
  · subst hi
    exact ⟨fun _ => if_pos rfl, fun _ _ hmem => absurd List.mem_cons_self hmem⟩
  · rw [if_neg hi, List.mem_cons]
    exact ⟨fun hmem => (h i).1 (hmem.resolve_left hi),
      fun hlow hhigh hmem => (h i).2 hlow hhigh fun hids => hmem (.inr hids)⟩

/-- The interrupts whose enable bits `irq_init` and the tests leave alone: the SGIs, the PPIs other
than the timer, and the SPIs from 256 on. -/
def LeftAlone (id : ℕ) : Prop := (id < 32 ∨ 256 ≤ id) ∧ id ≠ irqIdTimer

/-- None of those is raised that the distributor `g` has enabled. -/
def Unraised (g : Gic) (lines : ℕ → Bool) : Prop :=
  ∀ id, LeftAlone id → g.enabled id = false ∨ lines id = false

theorem Configured.unmaskIrq (h : Configured g) (id : ℕ) : Configured (unmaskIrq g id) := by
  unfold TimerTests.unmaskIrq
  split
  · exact ⟨h.ctlr, h.pmr, h.cpuCtlr, h.priority⟩
  · exact h

theorem handlerOf_registerHandler (table : IrqTable) (h : IrqHandler) (hid : id < 64) :
    handlerOf (registerHandler table id h) id = some h := by
  unfold handlerOf registerHandler
  rw [dif_pos hid, dif_pos hid, Function.update_self]

theorem handlerOf_registerHandler_ne (table : IrqTable) (h : IrqHandler) {i : ℕ} (hne : i ≠ id) :
    handlerOf (registerHandler table id h) i = handlerOf table i := by
  unfold handlerOf registerHandler
  by_cases hid : id < 64
  · rw [dif_pos hid]
    by_cases hi : i < 64
    · rw [dif_pos hi, dif_pos hi, Function.update_of_ne fun he => hne (congrArg Fin.val he)]
    · rw [dif_neg hi, dif_neg hi]
  · rw [dif_neg hid]

/-! ## What is printed -/

/-- The character that the handler prints for fire `k`. -/
def countdownChar (k : ℕ) : Byte := charByte '5' - BitVec.ofNat 8 k

/-- What `k` fires of the countdown print. -/
def countdownText (k : ℕ) : List Byte :=
  (List.range k).flatMap fun j => firedText (countdownChar j)

/-- What `test_imask` prints. -/
def imaskText : List Byte := TimerTest.imask.title ++ imaskResult 0

/-- What is printed before a test. -/
def textBefore : TimerTest → List Byte
  | .imask => freqText qemuVirtFreq
  | .countdown => freqText qemuVirtFreq ++ imaskText
  | .delta => freqText qemuVirtFreq ++ imaskText ++ TimerTest.countdown.title ++ countdownText 6 ++
      uartPuts "[TEST] Countdown... PASS\n"

/-- What is printed when the tests are complete, with the measured intervals. -/
def fullText (delta : Fin 3 → DWord) : List Byte :=
  textBefore .delta ++ TimerTest.delta.title ++ deltaResult qemuVirtFreq delta ++
    uartPuts "[IRQ] All timer tests complete. Continuing...\n"

/-! ## The invariant -/

/-- No handler of the timer has begun, or it has done all but signal the end. -/
def TrapPc.quiet : Option TrapPc → Bool
  | none | some .readIar | some (.call .uart0IrqHandler) | some .writeEoir | some .eret => true
  | _ => false

/-- An interrupt is acknowledged and not ended. -/
def TrapPc.acked : Option TrapPc → Bool
  | none | some .readIar | some .eret => false
  | _ => true

/-- `c` timestamps are taken by the time `n`, each a period after the one before. -/
structure Stamps (v : TestVars) (n c : ℕ) : Prop where
  count : v.gDeltaCount.toNat = c
  spaced : ∀ i (h : i + 1 < 4), i + 1 < c →
    v.gDeltaTimestamps[i].toNat + qemuVirtFreq.toNat ≤ v.gDeltaTimestamps[i + 1].toNat
  past : ∀ i (h : i < 4), i < c → v.gDeltaTimestamps[i].toNat ≤ n

/-- The last of `c` timestamps is a period before `b`. -/
def Due (v : TestVars) (c b : ℕ) : Prop :=
  ∀ i (h : i < 4), i + 1 = c → v.gDeltaTimestamps[i].toNat + qemuVirtFreq.toNat ≤ b

/-- How far the handler of a test has come while interrupts are enabled. -/
inductive Progress (v : TestVars) (n : ℕ) (out : List Byte) : TimerTest → Option TrapPc → Prop
  | imask {p : Option TrapPc} : TrapPc.quiet p = true → v.gImaskFired = 0 → v.timer.ctl = 3 →
      v.out = out → Progress v n out .imask p
  | counting {p : Option TrapPc} (k : ℕ) : k ≤ 5 →
      (TrapPc.quiet p = true ∨ p = some (.call .countdownIrqHandler) ∨ p = some .rearm) →
      v.uTimerLeft = countdownChar k → v.timer.ctl = 1 → v.out = out ++ countdownText k →
      Progress v n out .countdown p
  | countdownStop : v.timer.ctl = 1 → v.uTimerLeft ≠ 0 → v.out = out ++ countdownText 6 →
      Progress v n out .countdown (some .countdownStop)
  | countdownOver {p : Option TrapPc} : TrapPc.quiet p = true → v.uTimerLeft = 0 →
      v.timer.ctl = 0 → v.out = out ++ countdownText 6 → Progress v n out .countdown p
  | sampling {p : Option TrapPc} (c : ℕ) : TrapPc.quiet p = true → c ≤ 3 → Stamps v n c →
      Due v c v.timer.cval.toNat → v.timer.ctl = 1 → v.out = out → Progress v n out .delta p
  | deltaCall (c : ℕ) : c ≤ 3 → Stamps v n c → Due v c n → v.timer.ctl = 1 → v.out = out →
      Progress v n out .delta (some (.call .deltaIrqHandler))
  | deltaCheck (c : ℕ) : c ≤ 4 → Stamps v n c → v.timer.ctl = 1 → v.out = out →
      Progress v n out .delta (some .deltaCheck)
  | deltaRearm (c : ℕ) : c ≤ 3 → Stamps v n c → v.timer.ctl = 1 → v.out = out →
      Progress v n out .delta (some .rearm)
  | deltaStop : Stamps v n 4 → v.out = out → Progress v n out .delta (some .deltaStop)
  | deltaOver {p : Option TrapPc} : TrapPc.quiet p = true → Stamps v n 4 → v.timer.ctl = 0 →
      v.out = out → Progress v n out .delta p

/-- Interrupts are masked; those in `ids` are enabled in the distributor. -/
structure Idle (c : IrqCore) (ids : List ℕ) : Prop where
  trap : c.trap = none
  masked : c.masked = true
  active : c.gic.active = none
  configured : Configured c.gic
  enables : Enables c.gic ids

/-- A test that has not enabled interrupts, or has disabled them again. -/
structure Ready (c : IrqCore) (ids : List ℕ) : Prop extends Idle c ids where
  freq : c.cntfrq = qemuVirtFreq
  uart : handlerOf c.irqTable irqIdUart0 = some .uart0IrqHandler

/-- A test that has enabled interrupts. -/
structure Window (c : IrqCore) (v : TestVars) (n : ℕ) (pre : List Byte) (t : TimerTest) :
    Prop where
  freq : c.cntfrq = qemuVirtFreq
  uart : handlerOf c.irqTable irqIdUart0 = some .uart0IrqHandler
  timer : handlerOf c.irqTable irqIdTimer = some t.handler
  configured : Configured c.gic
  enables : Enables c.gic [irqIdTimer, irqIdUart0]
  masked : c.masked = c.trap.isSome
  active : c.gic.active.isSome = TrapPc.acked c.trap
  progress : Progress v n (pre ++ textBefore t ++ t.title) t c.trap

/-- The variables of a test before it arms the timer. -/
def ResetDone (v : TestVars) : TimerTest → Prop
  | .imask => v.gImaskFired = 0
  | .countdown => v.uTimerLeft = countdownChar 0
  | .delta => v.gDeltaCount = 0

/-- The interrupts that are enabled before a test registers its handler. -/
def idsBefore : TimerTest → List ℕ
  | .imask => [irqIdUart0]
  | _ => [irqIdTimer, irqIdUart0]

/-- What a test has to show after `irq_disable`. -/
def Finished (v : TestVars) (n : ℕ) (out : List Byte) : TimerTest → Prop
  | .imask => v.gImaskFired = 0 ∧ v.out = out
  | .countdown => v.timer.ctl = 0 ∧ v.out = out ++ countdownText 6
  | .delta => v.timer.ctl = 0 ∧ Stamps v n 4 ∧ v.out = out

/-- The handler of the test is registered, and its variables are reset. -/
structure Registered (c : IrqCore) (v : TestVars) (pre : List Byte) (t : TimerTest) : Prop where
  timer : handlerOf c.irqTable irqIdTimer = some t.handler
  reset : ResetDone v t
  out : v.out = pre ++ textBefore t ++ t.title

/-- What Core 0 knows before each statement. -/
def At (s : TestState) (pre : List Byte) : TestPc → Prop
  | .irqInit => s.trap = none ∧ s.masked = true ∧ s.gic.active = none ∧ s.out = pre
  | .registerUart0 => Idle s.toIrqCore [] ∧ s.out = pre
  | .unmaskUart0 => Idle s.toIrqCore [] ∧
      handlerOf s.irqTable irqIdUart0 = some .uart0IrqHandler ∧ s.out = pre
  | .testFreqSanity => Idle s.toIrqCore [irqIdUart0] ∧
      handlerOf s.irqTable irqIdUart0 = some .uart0IrqHandler ∧ s.out = pre
  | .reset t => Ready s.toIrqCore (idsBefore t) ∧ s.out = pre ++ textBefore t
  | .register t => Ready s.toIrqCore (idsBefore t) ∧ ResetDone s.toTestVars t ∧
      s.out = pre ++ textBefore t ++ t.title
  | .unmask t => Ready s.toIrqCore (idsBefore t) ∧ Registered s.toIrqCore s.toTestVars pre t
  | .writeTval t | .writeCtl t => Ready s.toIrqCore [irqIdTimer, irqIdUart0] ∧
      Registered s.toIrqCore s.toTestVars pre t
  | .irqEnable t => Ready s.toIrqCore [irqIdTimer, irqIdUart0] ∧
      Registered s.toIrqCore s.toTestVars pre t ∧ s.timer.ctl = t.ctl
  | .readStart | .busyWait _ => Window s.toIrqCore s.toTestVars s.now pre .imask
  | .loop t => Window s.toIrqCore s.toTestVars s.now pre t
  -- the loop may end while the core is between its condition and `wfe`
  | .wfe t => Window s.toIrqCore s.toTestVars s.now pre t ∧
      (s.waits t ∨ s.event = true ∨ s.trap ≠ none)
  | .irqDisable t => Window s.toIrqCore s.toTestVars s.now pre t ∧ ¬s.waits t
  | .timerOff => Ready s.toIrqCore [irqIdTimer, irqIdUart0] ∧
      Finished s.toTestVars s.now (pre ++ textBefore .imask ++ TimerTest.imask.title) .imask
  | .report t => Ready s.toIrqCore [irqIdTimer, irqIdUart0] ∧
      Finished s.toTestVars s.now (pre ++ textBefore t ++ t.title) t
  | .complete => Idle s.toIrqCore [irqIdTimer, irqIdUart0] ∧ s.timer.ctl = 0 ∧
      ∃ delta, (∀ i, qemuVirtFreq ≤ delta i) ∧ s.out = pre ++ textBefore .delta ++
        TimerTest.delta.title ++ deltaResult qemuVirtFreq delta
  | .returned => Idle s.toIrqCore [irqIdTimer, irqIdUart0] ∧ s.timer.ctl = 0 ∧
      ∃ delta, (∀ i, qemuVirtFreq ≤ delta i) ∧ s.out = pre ++ fullText delta
  | .fatal => Idle s.toIrqCore [irqIdUart0] ∧ s.cntfrq ≠ qemuVirtFreq ∧
      s.out = pre ++ freqText s.cntfrq

/-- The invariant of a run that starts in `s₀`. -/
structure Inv (s₀ s : TestState) : Prop where
  bound : s.now < 2 ^ 63
  at_main : At s s₀.out s.main
  leftAlone : ∀ id, LeftAlone id → s.gic.enabled id = s₀.gic.enabled id
  unraised : Unraised s₀.gic s.lines

variable {s₀ s s' : TestState} {c : IrqCore} {v : TestVars} {n n' k : ℕ} {t : TimerTest}
  {pre out : List Byte} {p : TrapPc} {q r : Option TrapPc} {pc : TestPc}

/-! ## Time, lines and events -/

theorem Stamps.mono (h : Stamps v n k) (hn : n ≤ n') : Stamps v n' k :=
  ⟨h.count, h.spaced, fun i hi hc => (h.past i hi hc).trans hn⟩

theorem Due.mono (h : Due v k n) (hn : n ≤ n') : Due v k n' := fun i hi hc => (h i hi hc).trans hn

theorem Progress.mono (h : Progress v n out t q) (hn : n ≤ n') : Progress v n' out t q := by
  cases h with
  | imask hq hfired hctl hout => exact .imask hq hfired hctl hout
  | counting k hk hq hleft hctl hout => exact .counting k hk hq hleft hctl hout
  | countdownStop hctl hleft hout => exact .countdownStop hctl hleft hout
  | countdownOver hq hleft hctl hout => exact .countdownOver hq hleft hctl hout
  | sampling c hq hc hst hdue hctl hout => exact .sampling c hq hc (hst.mono hn) hdue hctl hout
  | deltaCall c hc hst hdue hctl hout =>
    exact .deltaCall c hc (hst.mono hn) (hdue.mono hn) hctl hout
  | deltaCheck c hc hst hctl hout => exact .deltaCheck c hc (hst.mono hn) hctl hout
  | deltaRearm c hc hst hctl hout => exact .deltaRearm c hc (hst.mono hn) hctl hout
  | deltaStop hst hout => exact .deltaStop (hst.mono hn) hout
  | deltaOver hq hst hctl hout => exact .deltaOver hq (hst.mono hn) hctl hout

theorem Window.mono (h : Window c v n pre t) (hn : n ≤ n') : Window c v n' pre t :=
  ⟨h.freq, h.uart, h.timer, h.configured, h.enables, h.masked, h.active, h.progress.mono hn⟩

theorem Finished.mono (h : Finished v n out t) (hn : n ≤ n') : Finished v n' out t := by
  cases t with
  | imask => exact h
  | countdown => exact h
  | delta => exact ⟨h.1, h.2.1.mono hn, h.2.2⟩

/-- Time, lines and events do not change what the core knows. -/
theorem At.environment (h : At s pre pc) {l : ℕ → Bool} {e : Bool} (hn : s.now ≤ n)
    (he : s.event = true → e = true) : At { s with now := n, lines := l, event := e } pre pc := by
  cases pc with
  | readStart => exact Window.mono h hn
  | busyWait start => exact Window.mono h hn
  | loop t => exact Window.mono h hn
  | wfe t => exact ⟨h.1.mono hn, h.2.imp_right fun hw => hw.imp_left he⟩
  | irqDisable t => exact ⟨h.1.mono hn, h.2⟩
  | report t => exact ⟨h.1, h.2.mono hn⟩
  | irqInit | registerUart0 | unmaskUart0 | testFreqSanity | reset | register | unmask | writeTval
  | writeCtl | irqEnable | timerOff | complete | returned | fatal => exact h

/-! ## Interrupts -/

theorem toNat_countdownChar (h : k ≤ 5) : (countdownChar k).toNat = 0x35 - k := by
  have hchars : ∀ k ≤ 5, (countdownChar k).toNat = 0x35 - k := by decide
  exact hchars k h

theorem ne_zero_countdownChar (h : k ≤ 5) : countdownChar k ≠ 0 := by
  have hchars : ∀ k ≤ 5, countdownChar k ≠ 0 := by decide
  exact hchars k h

theorem countdownText_succ (k : ℕ) :
    countdownText (k + 1) = countdownText k ++ firedText (countdownChar k) := by
  rw [countdownText, List.range_succ, List.flatMap_append, List.flatMap_singleton]
  rfl

theorem Configured.acknowledge (h : Configured g) (id : ℕ) : Configured (g.acknowledge id) :=
  ⟨h.ctlr, h.pmr, h.cpuCtlr, h.priority⟩

theorem Configured.endOfInterrupt (h : Configured g) : Configured g.endOfInterrupt :=
  ⟨h.ctlr, h.pmr, h.cpuCtlr, h.priority⟩

/-- Interrupts are taken in a test that waits for them. A step of the interrupt that keeps `Window`
keeps what the test knows. -/
theorem At.window (h : At s pre pc) (hon : s.masked = false ∨ s.trap ≠ none) :
    ∃ t, Window s.toIrqCore s.toTestVars s.now pre t ∧
      ∀ s', Window s'.toIrqCore s'.toTestVars s'.now pre t → (s'.event = true ∨ s'.trap ≠ none) →
        (¬s.waits t → ¬s'.waits t) → At s' pre pc := by
  have hidle {ids : List ℕ} (hi : Idle s.toIrqCore ids) : False := by
    rcases hon with hon | hon
    · rw [hi.masked] at hon
      cases hon
    · exact hon hi.trap
  cases pc with
  | readStart => exact ⟨.imask, h, fun _ hw _ _ => hw⟩
  | busyWait start => exact ⟨.imask, h, fun _ hw _ _ => hw⟩
  | loop t => exact ⟨t, h, fun _ hw _ _ => hw⟩
  | wfe t => exact ⟨t, h.1, fun _ hw hwake _ => ⟨hw, Or.inr hwake⟩⟩
  | irqDisable t => exact ⟨t, h.1, fun _ hw _ hwaits => ⟨hw, hwaits h.2⟩⟩
  | irqInit =>
    rcases hon with hon | hon
    · rw [h.2.1] at hon
      cases hon
    · exact absurd h.1 hon
  | reset | register | unmask | writeTval | writeCtl | irqEnable | timerOff | report =>
    exact (hidle h.1.toIdle).elim
  | registerUart0 | unmaskUart0 | testFreqSanity | complete | returned | fatal =>
    exact (hidle h.1).elim

/-- The handler of the timer is not running before the step or after it. -/
theorem Progress.quiet (h : Progress v n out t q) (hq : TrapPc.quiet q = true)
    (hr : TrapPc.quiet r = true) : Progress v n out t r := by
  cases h with
  | imask _ hfired hctl hout => exact .imask hr hfired hctl hout
  | counting k hk _ hleft hctl hout => exact .counting k hk (Or.inl hr) hleft hctl hout
  | countdownOver _ hleft hctl hout => exact .countdownOver hr hleft hctl hout
  | sampling c _ hc hst hdue hctl hout => exact .sampling c hr hc hst hdue hctl hout
  | deltaOver _ hst hctl hout => exact .deltaOver hr hst hctl hout
  | countdownStop | deltaCall | deltaCheck | deltaRearm | deltaStop => cases hq

/-- An interrupt that the core can acknowledge is that of the timer or of the UART. -/
theorem Window.id_of_signals (h : Window c v n pre t) {pending : ℕ → Bool}
    (hothers : Unraised c.gic pending) (hid : c.gic.signals pending id = true) :
    id = irqIdTimer ∨ id = irqIdUart0 := by
  have hen := enabled_of_signals hid
  by_contra hne
  obtain ⟨htimer, huart⟩ := not_or.1 hne
  by_cases hspi : 32 ≤ id ∧ id < 256
  · have hoff := (h.enables id).2 hspi.1 hspi.2 (by simp [htimer, huart])
    rw [hen] at hoff
    cases hoff
  · obtain hoff | hoff := hothers id ⟨by omega, htimer⟩
    · rw [hen] at hoff
      cases hoff
    · rw [pending_of_signals hid] at hoff
      cases hoff

/-- The timer interrupts only while its test lets it, and not before the time it is armed for. -/
theorem Progress.call (h : Progress v n out t (some .readIar)) (hbound : n < 2 ^ 63)
    (hpend : v.timer.asserted (counter n) = true) :
    Progress v n out t (some (.call t.handler)) := by
  cases h with
  | imask _ _ hctl =>
    rw [asserted_of_masked hctl] at hpend
    cases hpend
  | counting k hk _ hleft hctl hout =>
    exact .counting k hk (Or.inr (Or.inl rfl)) hleft hctl hout
  | countdownOver _ _ hctl =>
    rw [asserted_of_off hctl] at hpend
    cases hpend
  | sampling c _ hc hst hdue hctl hout =>
    exact .deltaCall c hc hst (hdue.mono ((asserted_iff_le hbound hctl).1 hpend)) hctl hout
  | deltaOver _ _ hctl =>
    rw [asserted_of_off hctl] at hpend
    cases hpend

theorem Window.takeIrq (h : Window c v n pre t) (htrap : c.trap = none) :
    Window { c with masked := true, trap := some .readIar } v n pre t := by
  have hprogress := h.progress
  have hactive := h.active
  rw [htrap] at hprogress hactive
  exact ⟨h.freq, h.uart, h.timer, h.configured, h.enables, rfl, hactive,
    hprogress.quiet rfl rfl⟩

/-- The core acknowledges an interrupt, whose handler is registered. -/
theorem Window.readIar (h : Window s.toIrqCore s.toTestVars s.now pre t) (hbound : s.now < 2 ^ 63)
    (htrap : s.trap = some .readIar) (hothers : Unraised s.gic s.pending)
    (hid : s.gic.signals s.pending id = true) :
    ∃ handler, handlerOf s.irqTable id = some handler ∧
      Window { s.toIrqCore with gic := s.gic.acknowledge id, trap := some (.call handler) }
        s.toTestVars s.now pre t := by
  have hprogress := h.progress
  rw [htrap] at hprogress
  have hmasked : s.masked = true := by rw [h.masked, htrap]; rfl
  rcases h.id_of_signals hothers hid with rfl | rfl
  · have hpend := pending_of_signals hid
    rw [TestState.pending, if_pos rfl] at hpend
    exact ⟨t.handler, h.timer, h.freq, h.uart, h.timer, h.configured.acknowledge _, h.enables,
      hmasked, rfl, hprogress.call hbound hpend⟩
  · exact ⟨.uart0IrqHandler, h.uart, h.freq, h.uart, h.timer, h.configured.acknowledge _,
      h.enables, hmasked, rfl, hprogress.quiet rfl rfl⟩

/-- There is no interrupt to acknowledge any more. -/
theorem Window.spurious (h : Window c v n pre t) (htrap : c.trap = some .readIar) :
    Window { c with trap := some .eret } v n pre t := by
  have hprogress := h.progress
  have hactive := h.active
  have hmasked : c.masked = true := by rw [h.masked, htrap]; rfl
  rw [htrap] at hprogress hactive
  exact ⟨h.freq, h.uart, h.timer, h.configured, h.enables, hmasked, hactive,
    hprogress.quiet rfl rfl⟩

/-! ## Handlers -/

/-- The statements of `countdown_irq_handler` before the timer is stopped or re-armed. -/
theorem progress_countdownCall (hk : k ≤ 5) (hleft : s.uTimerLeft = countdownChar k)
    (hctl : s.timer.ctl = 1) (hout : s.out = out ++ countdownText k) :
    Progress (callHandler s .countdownIrqHandler).toTestVars n out .countdown
      (callHandler s .countdownIrqHandler).trap := by
  have hnat : s.uTimerLeft.toNat = 0x35 - k := by rw [hleft, toNat_countdownChar hk]
  have hzero : (charByte '0').toNat = 0x30 := rfl
  have hprint : s.out ++ firedText s.uTimerLeft = out ++ countdownText (k + 1) := by
    rw [hout, hleft, countdownText_succ, List.append_assoc]
  unfold callHandler
  dsimp only [TestState.print]
  by_cases hlt : charByte '0' < s.uTimerLeft
  · rw [if_pos hlt]
    have hk' : k + 1 ≤ 5 := by
      rw [BitVec.lt_def, hnat, hzero] at hlt
      omega
    have hdec : s.uTimerLeft - 1 = countdownChar (k + 1) := by
      have hdecs : ∀ k ≤ 5, countdownChar k - 1 = countdownChar (k + 1) := by decide
      rw [hleft, hdecs k hk]
    exact .counting (k + 1) hk' (Or.inr (Or.inr rfl)) hdec hctl hprint
  · rw [if_neg hlt]
    obtain rfl : k = 5 := by
      rw [BitVec.lt_def, hnat, hzero] at hlt
      omega
    exact .countdownStop hctl (hleft ▸ ne_zero_countdownChar hk) hprint

/-- The first statement of `delta_irq_handler` records a time that is a period after the last. -/
theorem progress_deltaCall (hk : k ≤ 3) (hst : Stamps s.toTestVars s.now k)
    (hdue : Due s.toTestVars k s.now) (hbound : s.now < 2 ^ 63) (hctl : s.timer.ctl = 1)
    (hout : s.out = out) :
    Progress (callHandler s .deltaIrqHandler).toTestVars s.now out .delta
      (callHandler s .deltaIrqHandler).trap := by
  obtain rfl := hst.count
  have hle : s.gDeltaCount.toNat ≤ 3 := hk
  have hnow : (counter s.now).toNat = s.now := toNat_counter hbound
  unfold callHandler
  dsimp only
  rw [dif_pos hle]
  refine .deltaCheck (s.gDeltaCount.toNat + 1) (by omega)
    ⟨?_, fun i hi hlt => ?_, fun i hi hlt => ?_⟩ hctl hout
  · show (s.gDeltaCount + 1).toNat = s.gDeltaCount.toNat + 1
    rw [BitVec.toNat_add]
    simp
    omega
  · dsimp only
    rw [Vector.getElem_set_ne _ _ (by omega)]
    by_cases hi' : s.gDeltaCount.toNat = i + 1
    · rw [Vector.getElem_set, if_pos hi', hnow]
      exact hdue i (by omega) hi'.symm
    · rw [Vector.getElem_set_ne _ _ hi']
      exact hst.spaced i hi (by omega)
  · dsimp only
    by_cases hi' : s.gDeltaCount.toNat = i
    · rw [Vector.getElem_set, if_pos hi', hnow]
    · rw [Vector.getElem_set_ne _ _ hi']
      exact hst.past i hi (by omega)

/-- What a handler leaves as it is. -/
structure TrapFrame (s s' : TestState) : Prop where
  main : s'.main = s.main
  now : s'.now = s.now
  lines : s'.lines = s.lines
  freq : s'.cntfrq = s.cntfrq
  irqTable : s'.irqTable = s.irqTable
  gic : s'.gic = s.gic
  masked : s'.masked = s.masked
  acked : TrapPc.acked s'.trap = true

theorem frame_callHandler (s : TestState) (h : IrqHandler) : TrapFrame s (callHandler s h) := by
  cases h with
  | uart0IrqHandler => exact ⟨rfl, rfl, rfl, rfl, rfl, rfl, rfl, rfl⟩
  | imaskIrqHandler => exact ⟨rfl, rfl, rfl, rfl, rfl, rfl, rfl, rfl⟩
  | countdownIrqHandler =>
    unfold callHandler
    dsimp only
    split <;> exact ⟨rfl, rfl, rfl, rfl, rfl, rfl, rfl, rfl⟩
  | deltaIrqHandler =>
    unfold callHandler
    dsimp only
    split <;> exact ⟨rfl, rfl, rfl, rfl, rfl, rfl, rfl, rfl⟩

theorem frame_trapStep (hs : trapStep s p = some s') (heoir : p ≠ .writeEoir) (heret : p ≠ .eret) :
    TrapFrame s s' := by
  cases p with
  | readIar => cases hs
  | call h => exact Option.some.inj hs ▸ frame_callHandler s h
  | deltaCheck =>
    obtain rfl := Option.some.inj hs
    exact ⟨rfl, rfl, rfl, rfl, rfl, rfl, rfl, by dsimp only; split <;> rfl⟩
  | rearm | countdownStop | deltaStop =>
    obtain rfl := Option.some.inj hs
    exact ⟨rfl, rfl, rfl, rfl, rfl, rfl, rfl, rfl⟩
  | writeEoir => exact absurd rfl heoir
  | eret => exact absurd rfl heret

theorem not_quiet_of_ne {h : IrqHandler} (hne : h ≠ .uart0IrqHandler) :
    TrapPc.quiet (some (.call h)) = false := by
  cases h with
  | uart0IrqHandler => exact absurd rfl hne
  | imaskIrqHandler | countdownIrqHandler | deltaIrqHandler => rfl

/-- A handler brings the test forward, and does not start a loop that is over. -/
theorem Progress.callHandler {h : IrqHandler}
    (hp : Progress s.toTestVars s.now out t (some (.call h))) (hbound : s.now < 2 ^ 63) :
    Progress (callHandler s h).toTestVars s.now out t (callHandler s h).trap ∧
      (¬s.waits t → ¬(TimerTests.callHandler s h).waits t) := by
  by_cases huart : h = .uart0IrqHandler
  · subst huart
    exact ⟨hp.quiet rfl rfl, id⟩
  · have hquiet := not_quiet_of_ne huart
    cases hp with
    | imask hq | countdownOver hq | sampling _ hq | deltaOver hq => rw [hquiet] at hq; cases hq
    | counting k hk hq hleft hctl hout =>
      obtain rfl : h = .countdownIrqHandler := by
        rw [hquiet] at hq
        simpa using hq
      refine ⟨progress_countdownCall hk hleft hctl hout, fun hw => absurd ?_ hw⟩
      show s.uTimerLeft ≠ 0
      rw [hleft]
      exact ne_zero_countdownChar hk
    | deltaCall c hc hst hdue hctl hout =>
      refine ⟨progress_deltaCall hc hst hdue hbound hctl hout, fun hw => absurd ?_ hw⟩
      show s.gDeltaCount ≤ 3
      rw [BitVec.le_def, hst.count]
      exact hc

/-- A statement of an interrupt brings the test forward. -/
theorem Progress.trapStep (h : Progress s.toTestVars s.now out t (some p))
    (hfreq : s.cntfrq = qemuVirtFreq) (hbound : s.now < 2 ^ 63) (hs : trapStep s p = some s') :
    Progress s'.toTestVars s.now out t s'.trap ∧ (¬s.waits t → ¬s'.waits t) := by
  cases p with
  | readIar => cases hs
  | call handler => exact Option.some.inj hs ▸ h.callHandler hbound
  | deltaCheck =>
    obtain rfl := Option.some.inj hs
    refine ⟨?_, id⟩
    cases h with
    | imask hp | countdownOver hp | sampling _ hp | deltaOver hp => cases hp
    | counting _ _ hp => rcases hp with hp | hp | hp <;> cases hp
    | deltaCheck c hc hst hctl hout =>
      have hlt : (3 : Word) < s.gDeltaCount ↔ 3 < c := by
        rw [BitVec.lt_def, hst.count]
        rfl
      dsimp only
      by_cases hmore : 3 < c
      · rw [if_pos (hlt.2 hmore)]
        obtain rfl : c = 4 := by omega
        exact .deltaStop hst hout
      · rw [if_neg fun hc' => hmore (hlt.1 hc')]
        exact .deltaRearm c (by omega) hst hctl hout
  | rearm =>
    obtain rfl := Option.some.inj hs
    refine ⟨?_, by cases t <;> exact id⟩
    cases h with
    | imask hp | countdownOver hp | sampling _ hp | deltaOver hp => cases hp
    | counting k hk _ hleft hctl hout => exact .counting k hk (Or.inl rfl) hleft hctl hout
    | deltaRearm c hc hst hctl hout =>
      have hcval : (s.timer.writeTval (counter s.now) s.cntfrq).cval.toNat =
          s.now + qemuVirtFreq.toNat := by
        rw [hfreq]
        exact toNat_writeTval hbound (by decide)
      refine .sampling c rfl hc ⟨hst.count, hst.spaced, hst.past⟩ (fun i hi hic => ?_) hctl hout
      dsimp only
      rw [hcval]
      exact Nat.add_le_add_right (hst.past i hi (by omega)) _
  | countdownStop =>
    obtain rfl := Option.some.inj hs
    cases h with
    | imask hp | countdownOver hp | sampling _ hp | deltaOver hp => cases hp
    | counting _ _ hp => rcases hp with hp | hp | hp <;> cases hp
    | countdownStop _ _ hout => exact ⟨.countdownOver rfl rfl rfl hout, fun _ hw' => hw' rfl⟩
  | deltaStop =>
    obtain rfl := Option.some.inj hs
    cases h with
    | imask hp | countdownOver hp | sampling _ hp | deltaOver hp => cases hp
    | counting _ _ hp => rcases hp with hp | hp | hp <;> cases hp
    | deltaStop hst hout => exact ⟨.deltaOver rfl ⟨hst.count, hst.spaced, hst.past⟩ rfl hout, id⟩
  | writeEoir =>
    obtain rfl := Option.some.inj hs
    exact ⟨h.quiet rfl rfl, id⟩
  | eret =>
    obtain rfl := Option.some.inj hs
    exact ⟨h.quiet rfl rfl, id⟩

/-- A statement of an interrupt leaves the tests, the time, the lines and the enable bits alone. -/
theorem kept_trapStep (hs : trapStep s p = some s') :
    s'.main = s.main ∧ s'.now = s.now ∧ s'.lines = s.lines ∧ s'.gic.enabled = s.gic.enabled := by
  by_cases heoir : p = .writeEoir
  · subst heoir
    obtain rfl := Option.some.inj hs
    exact ⟨rfl, rfl, rfl, rfl⟩
  by_cases heret : p = .eret
  · subst heret
    obtain rfl := Option.some.inj hs
    exact ⟨rfl, rfl, rfl, rfl⟩
  · have hframe := frame_trapStep hs heoir heret
    exact ⟨hframe.main, hframe.now, hframe.lines, by rw [hframe.gic]⟩

/-- After a statement of an interrupt, the interrupt goes on or the core has had an event. -/
theorem wakes_trapStep (hs : trapStep s p = some s') : s'.event = true ∨ s'.trap ≠ none := by
  by_cases heret : p = .eret
  · subst heret
    obtain rfl := Option.some.inj hs
    exact Or.inl rfl
  by_cases heoir : p = .writeEoir
  · subst heoir
    obtain rfl := Option.some.inj hs
    exact Or.inr (by simp)
  · refine Or.inr fun hnone => ?_
    have hacked := (frame_trapStep hs heoir heret).acked
    rw [hnone] at hacked
    cases hacked

/-- A statement of an interrupt in service. -/
theorem Window.trapStep (h : Window s.toIrqCore s.toTestVars s.now pre t)
    (hbound : s.now < 2 ^ 63) (htrap : s.trap = some p) (hs : trapStep s p = some s') :
    Window s'.toIrqCore s'.toTestVars s'.now pre t ∧ (¬s.waits t → ¬s'.waits t) := by
  have hmasked : s.masked = true := by rw [h.masked, htrap]; rfl
  have hactive := h.active
  have hprogress := h.progress
  rw [htrap] at hactive hprogress
  obtain ⟨hp, hwaits⟩ := hprogress.trapStep h.freq hbound hs
  refine ⟨?_, hwaits⟩
  by_cases heoir : p = .writeEoir
  · subst heoir
    obtain rfl := Option.some.inj hs
    exact ⟨h.freq, h.uart, h.timer, h.configured.endOfInterrupt, h.enables, hmasked, rfl, hp⟩
  by_cases heret : p = .eret
  · subst heret
    obtain rfl := Option.some.inj hs
    exact ⟨h.freq, h.uart, h.timer, h.configured, h.enables, rfl, hactive, hp⟩
  have hframe := frame_trapStep hs heoir heret
  have hacked : TrapPc.acked (some p) = true := by
    cases p with
    | readIar => cases hs
    | eret => exact absurd rfl heret
    | call | deltaCheck | rearm | countdownStop | deltaStop | writeEoir => rfl
  have hsome : s'.trap.isSome = true := by
    cases htrap' : s'.trap with
    | none =>
      have hno := hframe.acked
      rw [htrap'] at hno
      cases hno
    | some q => rfl
  exact {
    freq := hframe.freq.trans h.freq
    uart := by rw [hframe.irqTable]; exact h.uart
    timer := by rw [hframe.irqTable]; exact h.timer
    configured := by rw [hframe.gic]; exact h.configured
    enables := by rw [hframe.gic]; exact h.enables
    masked := by rw [hframe.masked, hmasked, hsome]
    active := by rw [hframe.gic, hactive, hframe.acked, hacked]
    progress := hframe.now.symm ▸ hp }

/-! ## Statements of the tests -/

/-- The end of a test is known once the core has masked interrupts. -/
theorem Progress.finished (h : Progress v n out t none) (hw : ¬v.waits t) : Finished v n out t := by
  cases h with
  | imask _ hfired _ hout => exact ⟨hfired, hout⟩
  | counting k hk _ hleft =>
    have hzero : v.uTimerLeft = 0 := not_not.1 hw
    exact absurd (hleft ▸ hzero) (ne_zero_countdownChar hk)
  | countdownOver _ _ hctl hout => exact ⟨hctl, hout⟩
  | sampling c _ hc hst =>
    refine absurd ?_ hw
    show v.gDeltaCount ≤ 3
    rw [BitVec.le_def, hst.count]
    exact hc
  | deltaOver _ hst hctl hout => exact ⟨hctl, hst, hout⟩

/-- `irq_enable`. -/
theorem Ready.irqEnable (h : Ready c [irqIdTimer, irqIdUart0]) (hreg : Registered c v pre t)
    (hctl : v.timer.ctl = t.ctl) : Window { c with masked := false } v n pre t where
  freq := h.freq
  uart := h.uart
  timer := hreg.timer
  configured := h.configured
  enables := h.enables
  masked := by rw [h.trap]; rfl
  active := by rw [h.trap, h.active]; rfl
  progress := by
    rw [h.trap]
    have hreset := hreg.reset
    cases t with
    | imask => exact .imask rfl hreset hctl hreg.out
    | countdown =>
      exact .counting 0 (by decide) (Or.inl rfl) hreset hctl
        (hreg.out.trans (List.append_nil _).symm)
    | delta =>
      have hcount : v.gDeltaCount.toNat = 0 := congrArg BitVec.toNat hreset
      exact .sampling 0 rfl (by decide) ⟨hcount, fun _ _ hlt => absurd hlt (by omega),
        fun _ _ hlt => absurd hlt (by omega)⟩ (fun _ _ hlt => absurd hlt (by omega)) hctl hreg.out

/-- `irq_disable`. -/
theorem Window.irqDisable (h : Window c v n pre t) (htrap : c.trap = none) :
    Ready { c with masked := true } [irqIdTimer, irqIdUart0] := by
  have hactive : c.gic.active.isSome = false := by
    rw [h.active, htrap]
    rfl
  exact ⟨⟨htrap, rfl, by simpa using hactive, h.configured, h.enables⟩, h.freq, h.uart⟩

theorem resetDone_reset (v : TestVars) (t : TimerTest) : ResetDone (v.reset t) t := by
  cases t <;> rfl

theorem out_reset (v : TestVars) (t : TimerTest) : (v.reset t).out = v.out ++ t.title := by
  cases t <;> rfl

/-- Unmasking the interrupt of the timer. It may be enabled already, for the test before. -/
theorem enables_unmaskTimer (h : Enables g (idsBefore t)) :
    Enables (unmaskIrq g irqIdTimer) [irqIdTimer, irqIdUart0] := by
  have hen := h.unmaskIrq (show irqIdTimer < 64 by decide)
  cases t with
  | imask => exact hen
  | countdown | delta =>
    intro id
    have hids : id ∈ irqIdTimer :: idsBefore .countdown ↔ id ∈ [irqIdTimer, irqIdUart0] := by
      simp [idsBefore]
    rw [← hids]
    exact hen id

/-- The intervals that `test_delta` computes are at least a period. -/
theorem Stamps.delta_ge (h : Stamps v n 4) (i : Fin 3) :
    qemuVirtFreq ≤ deltaOf v.gDeltaTimestamps i := by
  have hspaced := h.spaced i (by omega) (by omega)
  rw [BitVec.le_def]
  show _ ≤ (v.gDeltaTimestamps[i.val + 1] - v.gDeltaTimestamps[i.val]).toNat
  rw [BitVec.toNat_sub_of_le (by rw [BitVec.le_def]; omega)]
  omega

/-- A statement of `interrupt_tests_init` when no interrupt is in service. -/
theorem At.mainStep (h : At s pre pc) (htrap : s.trap = none) (hs : mainStep s pc = some s') :
    At s' pre s'.main := by
  cases pc with
  | irqInit =>
    obtain rfl := Option.some.inj hs
    obtain ⟨-, hmasked, hactive, hout⟩ := h
    have hactive' : (irqInit s.gic).active = none := by rw [irqInit_eq]; exact hactive
    exact ⟨⟨htrap, hmasked, hactive', configured_irqInit _, enables_irqInit _⟩, hout⟩
  | registerUart0 =>
    obtain rfl := Option.some.inj hs
    exact ⟨⟨htrap, h.1.masked, h.1.active, h.1.configured, h.1.enables⟩,
      handlerOf_registerHandler _ _ (by decide), h.2⟩
  | unmaskUart0 =>
    obtain rfl := Option.some.inj hs
    exact ⟨⟨htrap, h.1.masked, h.1.active, h.1.configured.unmaskIrq irqIdUart0,
      h.1.enables.unmaskIrq (show irqIdUart0 < 64 by decide)⟩, h.2.1, h.2.2⟩
  | testFreqSanity =>
    obtain rfl := Option.some.inj hs
    obtain ⟨hidle, huart, hout⟩ := h
    show At _ pre (if s.cntfrq ≠ qemuVirtFreq then .fatal else .reset .imask)
    by_cases hfreq : s.cntfrq ≠ qemuVirtFreq
    · rw [if_pos hfreq]
      exact ⟨hidle, hfreq, congrArg (· ++ freqText s.cntfrq) hout⟩
    · rw [if_neg hfreq]
      have hprint : s.out ++ freqText s.cntfrq = pre ++ freqText qemuVirtFreq := by
        rw [hout, not_not.1 hfreq]
      exact ⟨⟨hidle, not_not.1 hfreq, huart⟩, hprint⟩
  | reset t =>
    obtain rfl := Option.some.inj hs
    exact ⟨h.1, resetDone_reset _ _, (out_reset _ _).trans (congrArg (· ++ t.title) h.2)⟩
  | register t =>
    obtain rfl := Option.some.inj hs
    obtain ⟨hready, hreset, hout⟩ := h
    refine ⟨⟨⟨htrap, hready.masked, hready.active, hready.configured, hready.enables⟩, hready.freq,
      ?_⟩, handlerOf_registerHandler _ _ (by decide), hreset, hout⟩
    exact (handlerOf_registerHandler_ne _ _ (show irqIdUart0 ≠ irqIdTimer by decide)).trans
      hready.uart
  | unmask t =>
    obtain rfl := Option.some.inj hs
    obtain ⟨hready, htimer, hreset, hout⟩ := h
    refine ⟨⟨⟨htrap, hready.masked, ?_, hready.configured.unmaskIrq irqIdTimer,
      enables_unmaskTimer hready.enables⟩, hready.freq, hready.uart⟩, htimer, hreset, hout⟩
    exact hready.active
  | writeTval t =>
    obtain rfl := Option.some.inj hs
    refine ⟨h.1, h.2.timer, ?_, h.2.out⟩
    have hreset := h.2.reset
    cases t <;> exact hreset
  | writeCtl t =>
    obtain rfl := Option.some.inj hs
    refine ⟨h.1, ⟨h.2.timer, ?_, h.2.out⟩, rfl⟩
    have hreset := h.2.reset
    cases t <;> exact hreset
  | irqEnable t =>
    obtain rfl := Option.some.inj hs
    have hwindow := h.1.irqEnable (n := s.now) h.2.1 h.2.2
    cases t <;> exact hwindow
  | readStart =>
    obtain rfl := Option.some.inj hs
    exact h
  | busyWait start =>
    obtain rfl := Option.some.inj hs
    show At _ pre (if _ then _ else _)
    split
    · exact h
    · exact ⟨h, id⟩
  | loop t =>
    obtain rfl := Option.some.inj hs
    show At _ pre (if _ then _ else _)
    by_cases hw : s.waits t
    · rw [if_pos hw]
      exact ⟨h, Or.inl hw⟩
    · rw [if_neg hw]
      exact ⟨h, hw⟩
  | wfe t =>
    obtain ⟨-, hs⟩ := Option.ite_none_right_eq_some.1 hs
    obtain rfl := Option.some.inj hs
    exact h.1
  | irqDisable t =>
    obtain rfl := Option.some.inj hs
    have hprogress := h.1.progress
    rw [htrap] at hprogress
    have hfinished := hprogress.finished h.2
    have hready := h.1.irqDisable htrap
    cases t <;> exact ⟨hready, hfinished⟩
  | timerOff =>
    obtain rfl := Option.some.inj hs
    exact h
  | report t =>
    obtain rfl := Option.some.inj hs
    obtain ⟨hready, hfinished⟩ := h
    cases t with
    | imask =>
      refine ⟨hready, ?_⟩
      show s.out ++ imaskResult s.gImaskFired = _
      rw [hfinished.1, hfinished.2]
      simp only [textBefore, imaskText, List.append_assoc]
    | countdown =>
      refine ⟨hready, ?_⟩
      show s.out ++ uartPuts "[TEST] Countdown... PASS\n" = _
      rw [hfinished.2]
      simp only [textBefore, List.append_assoc]
    | delta =>
      obtain ⟨hctl, hst, hout⟩ := hfinished
      refine ⟨hready.toIdle, hctl, deltaOf s.gDeltaTimestamps, hst.delta_ge, ?_⟩
      show s.out ++ deltaResult s.cntfrq (deltaOf s.gDeltaTimestamps) = _
      rw [hready.freq, hout]
  | complete =>
    obtain rfl := Option.some.inj hs
    obtain ⟨hidle, hctl, delta, hdelta, hout⟩ := h
    refine ⟨hidle, hctl, delta, hdelta, ?_⟩
    show s.out ++ uartPuts "[IRQ] All timer tests complete. Continuing...\n" = _
    rw [hout]
    simp only [fullText, List.append_assoc]
  | returned => cases hs
  | fatal => cases hs

theorem kept_mainStep (hs : mainStep s pc = some s') : s'.now = s.now ∧ s'.lines = s.lines := by
  cases pc with
  | wfe t =>
    obtain ⟨-, hs⟩ := Option.ite_none_right_eq_some.1 hs
    obtain rfl := Option.some.inj hs
    exact ⟨rfl, rfl⟩
  | returned => cases hs
  | fatal => cases hs
  | irqInit | registerUart0 | unmaskUart0 | testFreqSanity | reset | register | unmask | writeTval
  | writeCtl | irqEnable | readStart | busyWait | loop | irqDisable | timerOff | report | complete =>
    obtain rfl := Option.some.inj hs
    exact ⟨rfl, rfl⟩

/-- The statements of the tests leave the enable bits alone that are not theirs. -/
theorem enabled_mainStep (hid : LeftAlone id) (hs : mainStep s pc = some s') :
    s'.gic.enabled id = s.gic.enabled id := by
  obtain ⟨hrange, htimer⟩ := hid
  cases pc with
  | irqInit =>
    obtain rfl := Option.some.inj hs
    exact (enabled_irqInit ..).trans (if_neg (by omega))
  | unmaskUart0 =>
    obtain rfl := Option.some.inj hs
    have huart : id ≠ irqIdUart0 := by
      unfold irqIdUart0
      omega
    exact (enabled_unmaskIrq _ (by decide) _).trans (if_neg huart)
  | unmask t =>
    obtain rfl := Option.some.inj hs
    exact (enabled_unmaskIrq _ (by decide) _).trans (if_neg htimer)
  | wfe t =>
    obtain ⟨-, hs⟩ := Option.ite_none_right_eq_some.1 hs
    exact Option.some.inj hs ▸ rfl
  | returned => cases hs
  | fatal => cases hs
  | registerUart0 | testFreqSanity | reset | register | writeTval | writeCtl | irqEnable | readStart
  | busyWait | loop | irqDisable | timerOff | report | complete =>
    exact Option.some.inj hs ▸ rfl

/-! ## Runs -/

/-- Core 0 before `interrupt_tests_init`: interrupts are masked, no interrupt is active, and none is
raised that is enabled and will not be disabled. -/
structure Boot (s : TestState) : Prop where
  main : s.main = .irqInit
  trap : s.trap = none
  masked : s.masked = true
  active : s.gic.active = none
  unraised : Unraised s.gic s.lines
  bound : s.now < 2 ^ 63

/-- Nor is such an interrupt raised in the step. -/
def Silent (s₀ : TestState) (a : TestAct) : Prop :=
  ∀ lines, a = .setLines lines → Unraised s₀.gic lines

theorem Inv.pending (h : Inv s₀ s) : Unraised s.gic s.pending := by
  intro id hid
  rw [h.leftAlone id hid, TestState.pending, if_neg hid.2]
  exact h.unraised id hid

theorem Inv.step {a : TestAct} (h : Inv s₀ s) (ha : Silent s₀ a) (hs : step s a = some s') :
    Inv s₀ s' := by
  have hothers := h.pending
  obtain ⟨hbound, hat, hleft, hraised⟩ := h
  cases a with
  | tick d =>
    obtain ⟨hlt, hs⟩ := Option.ite_none_right_eq_some.1 hs
    obtain rfl := Option.some.inj hs
    exact ⟨hlt, hat.environment (Nat.le_add_right _ _) id, hleft, hraised⟩
  | setLines lines =>
    obtain rfl := Option.some.inj hs
    exact ⟨hbound, hat.environment (Nat.le_refl _) id, hleft, ha lines rfl⟩
  | sev =>
    obtain rfl := Option.some.inj hs
    exact ⟨hbound, hat.environment (Nat.le_refl _) fun _ => rfl, hleft, hraised⟩
  | takeIrq =>
    obtain ⟨⟨hmasked, htrap, -⟩, hs⟩ := Option.ite_none_right_eq_some.1 hs
    obtain rfl := Option.some.inj hs
    obtain ⟨t, hw, hkeep⟩ := hat.window (Or.inl hmasked)
    exact ⟨hbound, hkeep _ (hw.takeIrq htrap) (Or.inr (by simp)) id, hleft, hraised⟩
  | readIar ack =>
    cases ack with
    | none =>
      obtain ⟨⟨htrap, -⟩, hs⟩ := Option.ite_none_right_eq_some.1 hs
      obtain rfl := Option.some.inj hs
      obtain ⟨t, hw, hkeep⟩ := hat.window (Or.inr (by simp [htrap]))
      exact ⟨hbound, hkeep _ (hw.spurious htrap) (Or.inr (by simp)) id, hleft, hraised⟩
    | some id =>
      obtain ⟨⟨htrap, -, hid⟩, hs⟩ := Option.ite_none_right_eq_some.1 hs
      obtain rfl := Option.some.inj hs
      obtain ⟨t, hw, hkeep⟩ := hat.window (Or.inr (by simp [htrap]))
      obtain ⟨handler, hhandler, hw'⟩ := hw.readIar hbound htrap hothers hid
      rw [hhandler]
      exact ⟨hbound, hkeep _ hw' (Or.inr (by simp)) fun hw => hw, hleft, hraised⟩
  | trap =>
    obtain ⟨p, htrap, hs⟩ := Option.bind_eq_some_iff.1 hs
    obtain ⟨t, hw, hkeep⟩ := hat.window (Or.inr (by simp [htrap]))
    obtain ⟨hw', hwaits⟩ := hw.trapStep hbound htrap hs
    obtain ⟨hmain, hnow, hlines, hen⟩ := kept_trapStep hs
    refine ⟨hnow ▸ hbound, hmain ▸ hkeep _ hw' (wakes_trapStep hs) hwaits, fun id hid => ?_,
      hlines ▸ hraised⟩
    rw [hen]
    exact hleft id hid
  | main =>
    obtain ⟨htrap, hs⟩ := Option.ite_none_right_eq_some.1 hs
    obtain ⟨hnow, hlines⟩ := kept_mainStep hs
    exact ⟨hnow ▸ hbound, hat.mainStep htrap hs,
      fun id hid => (enabled_mainStep hid hs).trans (hleft id hid), hlines ▸ hraised⟩

theorem Boot.inv (h : Boot s) : Inv s s := by
  refine ⟨h.bound, ?_, fun _ _ => rfl, h.unraised⟩
  rw [h.main]
  exact ⟨h.trap, h.masked, h.active, rfl⟩

theorem inv_exec {as : List TestAct} (h₀ : Boot s₀) (hsilent : ∀ a ∈ as, Silent s₀ a)
    (h : exec step s₀ as = some s) : Inv s₀ s :=
  exec_invariant_along (fun _ _ _ hi ha hs => hi.step ha hs) h₀.inv (along_of_forall hsilent) h

/-- The timer does not interrupt `test_imask`. -/
theorem Progress.not_imaskIrqHandler (h : Progress v n out t (some (.call .imaskIrqHandler))) :
    False := by
  cases h with
  | imask hq | countdownOver hq | sampling _ hq | deltaOver hq => cases hq
  | counting _ _ hq => rcases hq with hq | hq | hq <;> cases hq

theorem Inv.not_imaskIrqHandler (h : Inv s₀ s) : s.trap ≠ some (.call .imaskIrqHandler) := by
  intro htrap
  obtain ⟨t, hw, -⟩ := h.at_main.window (.inr (by simp [htrap]))
  have hprogress := hw.progress
  rw [htrap] at hprogress
  exact hprogress.not_imaskIrqHandler

/-- **The transcript of the tests.** Whatever interrupts come, and whenever: if
`interrupt_tests_init` returns, `imask_irq_handler` was never called, the countdown printed 5 to 0,
the three intervals of `test_delta` are at least a period, and the timer is off and interrupts
masked. -/
theorem tests_transcript {as : List TestAct} (h₀ : Boot s₀) (hsilent : ∀ a ∈ as, Silent s₀ a)
    (h : exec step s₀ as = some s) (hret : s.main = .returned) :
    (∀ pre u, pre <+: as → exec step s₀ pre = some u →
      u.trap ≠ some (.call .imaskIrqHandler)) ∧
    s.masked = true ∧ s.trap = none ∧ s.timer.ctl = 0 ∧
      ∃ delta, (∀ i, qemuVirtFreq ≤ delta i) ∧ s.out = s₀.out ++ fullText delta := by
  have hat := (inv_exec h₀ hsilent h).at_main
  rw [hret] at hat
  refine ⟨fun pre u hpre hu => ?_, hat.1.masked, hat.1.trap, hat.2.1, hat.2.2⟩
  exact (inv_exec h₀ (fun a ha => hsilent a (hpre.subset ha)) hu).not_imaskIrqHandler

/-- Core 0 with a distributor that has only the SGIs enabled. -/
def bootState : TestState where
  cntfrq := qemuVirtFreq
  gic := ⟨0, fun id => decide (id < 16), fun _ => 0, fun _ => 0, fun _ => false, 0, 0, 0, none⟩
  masked := true
  irqTable _ := none
  trap := none
  timer := ⟨0, 0⟩
  uTimerLeft := 0
  gImaskFired := 0
  gDeltaCount := 0
  gDeltaTimestamps := Vector.replicate 4 0
  out := []
  now := 0
  lines _ := false
  event := false
  main := .irqInit

theorem boot_bootState : Boot bootState :=
  ⟨rfl, rfl, rfl, rfl, fun _ _ => .inr rfl, by decide⟩

/-- The timer fires in `wfe`, the handler takes `n` statements, and the loop tests its condition. -/
def fire (n : ℕ) : List TestAct :=
  [.tick 62500000, .takeIrq, .readIar (some irqIdTimer)] ++ List.replicate (n + 2) .trap ++
    [.main, .main]

/-- A run to the first `wfe` of the countdown. -/
def runToCountdown : List TestAct :=
  List.replicate 11 .main ++ [.tick 125000000] ++ List.replicate 11 .main

/-- A run of all tests. -/
def runOfTests : List TestAct :=
  runToCountdown ++ (List.replicate 6 (fire 2)).flatten ++ List.replicate 9 .main ++
    (List.replicate 4 (fire 3)).flatten ++ List.replicate 3 .main

def TestAct.setsLines : TestAct → Bool
  | .setLines _ => true
  | _ => false

theorem silent_of_setsLines {as : List TestAct} (h : ∀ a ∈ as, a.setsLines = false) :
    ∀ a ∈ as, Silent s₀ a := by
  rintro _ ha lines rfl
  cases h _ ha

theorem tests_transcript_runOfTests : ∃ s, exec step bootState runOfTests = some s ∧
    ∃ delta, (∀ i, qemuVirtFreq ≤ delta i) ∧ s.out = fullText delta := by
  have hrun : (exec step bootState runOfTests).any (fun s => s.main = .returned) = true := by
    decide +kernel
  obtain ⟨s, hs, hmain⟩ := (Option.any_eq_true _ _).1 hrun
  have hsilent : ∀ a ∈ runOfTests, Silent bootState a := silent_of_setsLines (by decide +kernel)
  exact ⟨s, hs, (tests_transcript boot_bootState hsilent hs (of_decide_eq_true hmain)).2.2.2.2⟩

/-- A test whose loop goes on, with no handler at work, has armed the timer. -/
theorem Progress.armed (h : Progress v n out t none) (hw : v.waits t) : v.timer.ctl = 1 := by
  cases h with
  | imask => exact hw.elim
  | counting _ _ _ _ hctl => exact hctl
  | countdownOver _ hleft => exact absurd hleft hw
  | sampling _ _ _ _ _ hctl => exact hctl
  | deltaOver _ hst =>
    have hle : v.gDeltaCount ≤ 3 := hw
    rw [BitVec.le_def, hst.count] at hle
    exact absurd hle (by decide)

/-- An armed timer that has reached its value is signalled to the core. -/
theorem Window.signals_timer (h : Window c v n pre t) (hq : TrapPc.acked c.trap = false)
    {pending : ℕ → Bool} (hpend : pending irqIdTimer = true) :
    c.gic.signals pending irqIdTimer = true := by
  have hactive : c.gic.active.isNone = true := by
    have hnone := h.active
    rw [hq] at hnone
    simpa using hnone
  have hpriority := h.configured.priority irqIdTimer (by decide)
  have hen : c.gic.enabled irqIdTimer = true := (h.enables irqIdTimer).1 List.mem_cons_self
  unfold Gic.signals
  rw [h.configured.ctlr, h.configured.cpuCtlr, h.configured.pmr, hactive, hen, hpend, hpriority]
  simp [irqIdTimer]

/-- **No lost wake-up.** A core that sleeps in `wfe` of a test waits for a timer that is armed:
once the counter reaches its value, the core takes the interrupt and calls the handler of the
test. -/
theorem asleep_armed {as : List TestAct} (h₀ : Boot s₀) (hsilent : ∀ a ∈ as, Silent s₀ a)
    (h : exec step s₀ as = some s) (hmain : s.main = .wfe t) (htrap : s.trap = none)
    (hevent : s.event = false) {d : ℕ} (hd : s.timer.cval.toNat ≤ s.now + d)
    (hbound : s.now + d < 2 ^ 63) :
    ∃ s', exec step s [.tick d, .takeIrq, .readIar (some irqIdTimer)] = some s' ∧
      s'.trap = some (.call t.handler) := by
  have hat := (inv_exec h₀ hsilent h).at_main
  rw [hmain] at hat
  obtain ⟨hw, hwake⟩ := hat
  have hwaits : s.waits t := by simpa [hevent, htrap] using hwake
  have hmasked : s.masked = false := by rw [hw.masked, htrap]; rfl
  have hprogress := hw.progress
  rw [htrap] at hprogress
  have hctl := hprogress.armed hwaits
  -- time passes, and the line of the timer rises
  let s₁ : TestState := { s with now := s.now + d }
  have hpend : s₁.pending irqIdTimer = true := (asserted_iff_le hbound hctl).2 hd
  have hsignals : s.gic.signals s₁.pending irqIdTimer = true :=
    hw.signals_timer (by rw [htrap]; rfl) hpend
  let s₂ : TestState := { s₁ with masked := true, trap := some .readIar }
  have htick : step s (.tick d) = some s₁ := if_pos hbound
  have htake : step s₁ .takeIrq = some s₂ :=
    if_pos ⟨hmasked, htrap, signalsIrq_of_signals (by decide) hsignals⟩
  have hread : step s₂ (.readIar (some irqIdTimer)) = some
      { s₂ with gic := s.gic.acknowledge irqIdTimer, trap := some (.call t.handler) } := by
    refine (if_pos ⟨rfl, by decide, hsignals⟩).trans ?_
    show some _ = some _
    rw [show handlerOf s₂.irqTable irqIdTimer = some t.handler from hw.timer]
  exact ⟨_, exec_cons_eq_some.2 ⟨s₁, htick, exec_cons_eq_some.2 ⟨s₂, htake,
    exec_cons_eq_some.2 ⟨_, hread, rfl⟩⟩⟩, rfl⟩

/-- The timer interrupts only while the loop of a test goes on. -/
theorem Progress.waits_of_asserted (h : Progress v n out t (some .readIar))
    (hpend : v.timer.asserted (counter n) = true) : v.waits t := by
  cases h with
  | imask _ _ hctl =>
    rw [asserted_of_masked hctl] at hpend
    cases hpend
  | counting k hk _ hleft =>
    show v.uTimerLeft ≠ 0
    rw [hleft]
    exact ne_zero_countdownChar hk
  | countdownOver _ _ hctl =>
    rw [asserted_of_off hctl] at hpend
    cases hpend
  | sampling c _ hc hst =>
    show v.gDeltaCount ≤ 3
    rw [BitVec.le_def, hst.count]
    exact hc
  | deltaOver _ _ hctl =>
    rw [asserted_of_off hctl] at hpend
    cases hpend

/-- The control points at which a test can be interrupted. -/
theorem At.interrupted (h : At s pre pc) (htrap : s.trap ≠ none) :
    ∃ t, Window s.toIrqCore s.toTestVars s.now pre t ∧
      (s.waits t → pc = .loop t ∨ pc = .wfe t) := by
  cases pc with
  | readStart => exact ⟨.imask, h, fun hw => hw.elim⟩
  | busyWait start => exact ⟨.imask, h, fun hw => hw.elim⟩
  | loop t => exact ⟨t, h, fun _ => Or.inl rfl⟩
  | wfe t => exact ⟨t, h.1, fun _ => Or.inr rfl⟩
  | irqDisable t => exact ⟨t, h.1, fun hw => absurd hw h.2⟩
  | irqInit => exact absurd h.1 htrap
  | reset | register | unmask | writeTval | writeCtl | irqEnable | timerOff | report =>
    exact absurd h.1.toIdle.trap htrap
  | registerUart0 | unmaskUart0 | testFreqSanity | complete | returned | fatal =>
    exact absurd h.1.trap htrap

theorem asleep_armed_runToCountdown : ∃ s s', exec step bootState runToCountdown = some s ∧
    exec step s [.tick 62500000, .takeIrq, .readIar (some irqIdTimer)] = some s' ∧
      s'.trap = some (.call .countdownIrqHandler) := by
  have hrun : (exec step bootState runToCountdown).any (fun s => s.main = .wfe .countdown ∧
      s.trap = none ∧ s.event = false ∧ s.timer.cval.toNat ≤ s.now + 62500000 ∧
      s.now + 62500000 < 2 ^ 63) = true := by decide +kernel
  obtain ⟨s, hs, hfacts⟩ := (Option.any_eq_true _ _).1 hrun
  obtain ⟨hmain, htrap, hevent, hd, hbound⟩ := of_decide_eq_true hfacts
  have hsilent : ∀ a ∈ runToCountdown, Silent bootState a :=
    silent_of_setsLines (by decide +kernel)
  obtain ⟨s', hs', hcall⟩ := asleep_armed boot_bootState hsilent hs hmain htrap hevent hd hbound
  exact ⟨s, s', hs, hs', hcall⟩

/-- **Only registered interrupts.** An INTID that the core reads from `GICC_IAR` is that of the
timer, while the loop of `test_countdown` or `test_delta` goes on, or that of the UART, and the core
calls its handler. -/
theorem acknowledged_registered {as : List TestAct} (h₀ : Boot s₀)
    (hsilent : ∀ a ∈ as, Silent s₀ a) (h : exec step s₀ as = some s)
    (hs : step s (.readIar (some id)) = some s') :
    (∃ t : TimerTest, t ≠ .imask ∧ id = irqIdTimer ∧ s'.trap = some (.call t.handler) ∧
      (s.main = .loop t ∨ s.main = .wfe t)) ∨
    id = irqIdUart0 ∧ s'.trap = some (.call .uart0IrqHandler) := by
  have hinv := inv_exec h₀ hsilent h
  obtain ⟨⟨htrap, -, hid⟩, hs⟩ := Option.ite_none_right_eq_some.1 hs
  obtain rfl := Option.some.inj hs
  obtain ⟨t, hw, hmain⟩ := hinv.at_main.interrupted (by simp [htrap])
  have hprogress := hw.progress
  rw [htrap] at hprogress
  rcases hw.id_of_signals hinv.pending hid with rfl | rfl
  · have hpend := pending_of_signals hid
    rw [TestState.pending, if_pos rfl] at hpend
    have hwaits := hprogress.waits_of_asserted hpend
    refine Or.inl ⟨t, ?_, rfl, ?_, hmain hwaits⟩
    · rintro rfl
      exact hwaits
    · rw [hw.timer]
  · refine Or.inr ⟨rfl, ?_⟩
    rw [hw.uart]

theorem acknowledged_registered_countdown : ∃ s s',
    exec step bootState (runToCountdown ++ [.tick 62500000, .takeIrq]) = some s ∧
      step s (.readIar (some irqIdTimer)) = some s' ∧
      ∃ t : TimerTest, t ≠ .imask ∧ s'.trap = some (.call t.handler) := by
  have hrun : (exec step bootState (runToCountdown ++ [.tick 62500000, .takeIrq])).any
      (fun s => (step s (.readIar (some irqIdTimer))).isSome) = true := by decide +kernel
  obtain ⟨s, hs, hsome⟩ := (Option.any_eq_true _ _).1 hrun
  obtain ⟨s', hs'⟩ := Option.isSome_iff_exists.1 hsome
  have hsilent : ∀ a ∈ runToCountdown ++ [.tick 62500000, .takeIrq], Silent bootState a :=
    silent_of_setsLines (by decide +kernel)
  refine ⟨s, s', hs, hs', ?_⟩
  rcases acknowledged_registered boot_bootState hsilent hs hs' with ⟨t, ht, -, htrap, -⟩ | ⟨hid, -⟩
  · exact ⟨t, ht, htrap⟩
  · exact absurd hid (by decide)

end Gateway.TimerTests
