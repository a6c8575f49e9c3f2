import Gateway.Lib.LockDiscipline
import Gateway.RingBuffer.Wiring

/-!
# What the cores print

The programs of the four cores from the loop of `main` that starts Cores 1 to 3, reduced to the
console: every call of `uart_putc`, `uart_puts` and `uart_puthex`, and every `spinlock_acquire` and
`spinlock_release` of `SPINLOCK_ADDR`. Values that come from elsewhere (results of calls, registers,
received data) are chosen freely, and the locks of the mailboxes and of the ring, the delays and
the timer are left out. A function whose result decides what its caller does next takes what the
caller does for each result as an argument.
-/

namespace Gateway.Console

open LockDiscipline (Prog)

/-- The functions that print. -/
inductive Routine where
  | main | secondaryMain | schedAddTask | schedRun | mailboxReceive | mailboxDispatcherTask
  | ringConsumerTask | testFreqSanity | testImask | testCountdown | countdownIrqHandler | testDelta
  | interruptTestsInit | testPrintPass | testPrintFail | test1PingAllCores | test2SendDataMessages
  | test3UartRxKeyboardSimulation | runAllTests
  deriving DecidableEq

/-- The functions that print without taking `SPINLOCK_ADDR`. -/
def Routine.unlocked : Routine → Bool
  | schedAddTask | schedRun | mailboxReceive | testFreqSanity | testImask | testCountdown
  | countdownIrqHandler | testDelta | interruptTestsInit => true
  | _ => false

abbrev ConsoleProg := Prog Routine Byte

/-! ## `uart0.c` -/

/-- A character of a string literal. -/
def charByte (c : Char) : Byte := BitVec.ofNat 8 c.toNat

/-- `uart_putc`. -/
def uartPutc (c : Byte) : List Byte := [c]

/-- `uart_puts`: a newline is sent as two characters. -/
def uartPuts (str : String) : List Byte :=
  str.toList.flatMap fun c =>
    if c = '\n' then uartPutc (charByte '\r') ++ uartPutc (charByte c) else uartPutc (charByte c)

/-- `hex_chars`. -/
def hexChars : List Char := "0123456789ABCDEF".toList

/-- `uart_puthex`: sixteen digits. -/
def uartPuthex (val : DWord) : List Byte :=
  uartPuts "0x" ++ (List.range 16).flatMap fun k =>
    uartPutc (charByte (hexChars.getD ((val >>> (60 - 4 * k)) &&& 0xF).toNat '0'))

/-- The character `'0' + n`. -/
def digit (n : ℕ) : Byte := charByte '0' + BitVec.ofNat 8 n

/-! ## Statements -/

/-- One program after the other. -/
def inOrder (ps : List ConsoleProg) : ConsoleProg := ps.foldr .seq .skip

/-- An `if` on a value that is not followed. -/
def either (p q : ConsoleProg) : ConsoleProg := .any fun n => if n = 0 then p else q

/-- A value that is not followed. -/
def withValue (p : DWord → ConsoleProg) : ConsoleProg := .any fun n => p (BitVec.ofNat 64 n)

/-- `while (1) { wfe }`. -/
def hang : ConsoleProg := .forever .skip

/-- Prints between `spinlock_acquire(SPINLOCK_ADDR)` and `spinlock_release(SPINLOCK_ADDR)`. -/
def message (r : Routine) (bs : List Byte) : ConsoleProg :=
  .seq .acquire (.seq (.out r bs) .release)

/-! ## `scheduler.c` -/

/-- `sched_add_task`. -/
def schedAddTask (core : ℕ) (taskName : String) : ConsoleProg :=
  .out .schedAddTask (uartPuts "[SCHEDULE] Core " ++ uartPutc (digit core) ++
    uartPuts ": registered '" ++ uartPuts taskName ++ uartPuts "'\n")

/-- `sched_run`. Each task is `while (1) { body; task_yield(); }`, and tasks give up the core only in
`task_yield`: a core that runs tasks executes their bodies, one after the other. -/
def schedRun (core : ℕ) (bodies : List ConsoleProg) : ConsoleProg :=
  withValue fun taskCount =>
    if taskCount = 0 then
      .seq (.out .schedRun (uartPuts "[SCHED] Core " ++ uartPutc (digit core) ++
        uartPuts ": no tasks - wait for event\n")) hang
    else
      .seq (.out .schedRun (uartPuts "[SCHEDULE] Core " ++ uartPutc (digit core) ++
        uartPuts ": starting " ++ uartPutc (digit taskCount.toNat) ++ uartPuts " task(s)\n"))
        (.forever (.any fun n => bodies.getD n .skip))

/-! ## `ipc.c` -/

/-- `mailbox_receive`, and what its caller does when it returned 1 and when it returned 0. The lock
it holds while it prints is that of the mailbox. -/
def mailboxReceive (received missed : ConsoleProg) : ConsoleProg :=
  either
    (withValue fun sharedKey1 =>
      .seq (.out .mailboxReceive (uartPuts "[CRYPTO] HMAC pass with key\n" ++
        uartPuthex sharedKey1 ++ uartPutc (charByte '\n') ++
        uartPuthex sharedKey1 ++ uartPutc (charByte '\n'))) received)
    (either
      (.seq (.out .mailboxReceive
        (uartPuts "[CRYPTO] HMAC verify FAILED - message rejected\n")) missed)
      missed)

/-! ## `dispatcher.c` -/

/-- An iteration of `uart_rx_task` prints nothing. -/
def uartRxTask : ConsoleProg := .skip

/-- An iteration of `ring_consumer_task`. On Ctrl-C the core halts with the lock held. -/
def ringConsumerTask : ConsoleProg :=
  either .skip <| withValue fun value =>
    let byte : Byte := value.setWidth 8
    .seq .acquire <| .seq
      (match uartKeyEvent byte with
      | .ctrlC => .seq (.out .ringConsumerTask
          (uartPuts "\r\n[ERROR] Keyboard locked. System halted.\r\n")) hang
      | .enter => .out .ringConsumerTask (uartPuts "\r\n")
      | .none => .out .ringConsumerTask (uartPutc byte))
      .release

/-- An iteration of `mailbox_dispatcher_task`. -/
def mailboxDispatcherTask : ConsoleProg :=
  mailboxReceive
    (withValue fun sender => withValue fun msgType => withValue fun msgData =>
      message .mailboxDispatcherTask (uartPuts "[Core 3] RX from Core " ++
        uartPutc (digit sender.toNat) ++ uartPuts " | Type: " ++ uartPutc (digit msgType.toNat) ++
        uartPuts " | Data: " ++ uartPuthex msgData ++ uartPuts "\n"))
    .skip

/-! ## `timer_tests.c` -/

/-- `QEMU_VIRT_FREQ`. -/
def qemuVirtFreq : DWord := 62500000

/-- `test_freq_sanity`, and what its caller does when it returned 0 and when it returned -1. -/
def testFreqSanity (passed failed : ConsoleProg) : ConsoleProg :=
  .seq (.out .testFreqSanity (uartPuts "[TEST] Frequency sanity check... ")) <|
    withValue fun freq =>
      if freq ≠ qemuVirtFreq then
        .seq (.out .testFreqSanity (uartPuts "FAIL (got 0x" ++ uartPuthex freq ++
          uartPuts ", expected 0x" ++ uartPuthex qemuVirtFreq ++ uartPuts ")\n")) failed
      else .seq (.out .testFreqSanity (uartPuts "PASS (62.5 MHz)\n")) passed

/-- `test_imask`. `imask_irq_handler` prints nothing. -/
def testImask : ConsoleProg :=
  .seq (.out .testImask (uartPuts "[TEST] IMASK bit test... ")) <|
    withValue fun imaskFired =>
      if imaskFired ≠ 0 then
        .out .testImask (uartPuts "FAIL (handler fired " ++
          uartPutc (digit (imaskFired &&& 0xF).toNat) ++ uartPuts " times despite IMASK)\n")
      else .out .testImask (uartPuts "PASS (0 fires with IMASK set)\n")

/-- `countdown_irq_handler`. -/
def countdownIrqHandler : ConsoleProg :=
  withValue fun timerLeft =>
    .out .countdownIrqHandler (uartPuts "[IRQ] Timer fired! Remaining..." ++
      uartPutc (timerLeft.setWidth 8) ++ uartPuts "\n")

/-- `test_countdown`. The handler interrupts the loop that waits for it. -/
def testCountdown : ConsoleProg :=
  inOrder
    [ .out .testCountdown (uartPuts "[TEST] Countdown timer " ++ uartPutc (charByte '5') ++
        uartPuts " -> 0...\n"),
      .many countdownIrqHandler,
      .out .testCountdown (uartPuts "[TEST] Countdown... PASS\n") ]

/-- `DELTA_TEST_TICKS`. -/
def deltaTestTicks : ℕ := 3

/-- `test_delta`. `delta_irq_handler` prints nothing. -/
def testDelta : ConsoleProg :=
  inOrder
    [ .out .testDelta (uartPuts "[TEST] Overflow/late-reload delta check... "),
      inOrder ((List.range deltaTestTicks).map fun i => withValue fun delta =>
        .seq (.out .testDelta (uartPuts "  delta[" ++ uartPutc (digit (i + 1)) ++
          uartPuts "]: 0x" ++ uartPuthex delta))
          (either (.out .testDelta (uartPuts " FAIL\n")) (.out .testDelta (uartPuts " OK\n")))),
      either (.out .testDelta (uartPuts "[TEST] Delta check... FAIL\n"))
        (.out .testDelta (uartPuts "[TEST] Delta check... PASS\n")) ]

/-- `interrupt_tests_init`. `uart0_irq_handler` prints nothing. -/
def interruptTestsInit : ConsoleProg :=
  testFreqSanity
    (inOrder
      [ testImask,
        testCountdown,
        testDelta,
        .out .interruptTestsInit (uartPuts "[IRQ] All timer tests complete. Continuing...\n") ])
    (.seq (.out .interruptTestsInit
      (uartPuts "[FATAL] Cannot proceed - timer frequency mismatch!\n")) hang)

/-! ## `tests.c` -/

/-- `test_print_pass`. -/
def testPrintPass (label : String) : ConsoleProg :=
  message .testPrintPass (uartPuts "[PASS] " ++ uartPuts label ++ uartPuts "\n")

/-- `test_print_fail`. -/
def testPrintFail (label reason : String) : ConsoleProg :=
  message .testPrintFail (uartPuts "[FAIL] " ++ uartPuts label ++ uartPuts " -> " ++
    uartPuts reason ++ uartPuts "\n")

/-- The cores 1 to 3. -/
def secondaryCores : List ℕ := [1, 2, 3]

/-- `test1_ping_all_cores`. -/
def test1PingAllCores : ConsoleProg :=
  inOrder
    [ message .test1PingAllCores (uartPuts "\n[Core 0] Test 1: Sending PING to all cores\n"),
      inOrder (secondaryCores.map fun dest =>
        either
          (message .test1PingAllCores (uartPuts "[Core 0] -> Core " ++ uartPutc (digit dest) ++
            uartPuts " PING sent\n"))
          (testPrintFail "Test1 PING" "mailbox_send returned -1")),
      either (testPrintPass "Test1: PING to all cores") .skip ]

/-- `TEST_ACK_POLL_ROUNDS`. -/
def testAckPollRounds : ℕ := 10

/-- `TEST_DATA_BASE + dest * TEST_DATA_STEP`. -/
def testData (dest : ℕ) : DWord := 0xDEAD0000 + BitVec.ofNat 64 (dest * 0x100)

/-- `test2_send_data_messages`. -/
def test2SendDataMessages : ConsoleProg :=
  inOrder
    [ message .test2SendDataMessages (uartPuts "\n[Core 0] Test 2: Sending DATA messages\n"),
      inOrder (secondaryCores.map fun dest =>
        message .test2SendDataMessages (uartPuts "[Core 0] -> Core " ++ uartPutc (digit dest) ++
          uartPuts " DATA: " ++ uartPuthex (testData dest) ++ uartPuts "\n")),
      message .test2SendDataMessages (uartPuts "\n[Core 0] Checking for ACK responses...\n"),
      inOrder (List.replicate testAckPollRounds (mailboxReceive
        (withValue fun sender => withValue fun msgData =>
          message .test2SendDataMessages (uartPuts "[Core 0] <- ACK from Core " ++
            uartPutc (digit sender.toNat) ++ uartPuts " | Data: " ++ uartPuthex msgData ++
            uartPuts "\n"))
        .skip)),
      either (testPrintPass "Test2: DATA messages + ACK responses")
        (testPrintFail "Test2 DATA" "No ACK received from secondary cores") ]

/-- `test3_uart_rx_keyboard_simulation`. -/
def test3UartRxKeyboardSimulation : ConsoleProg :=
  message .test3UartRxKeyboardSimulation
    (uartPuts "\n[Test 3] UART RX live - Keyboard Simulation:\n")

/-- `run_all_tests`. -/
def runAllTests : ConsoleProg :=
  inOrder
    [ message .runAllTests (uartPuts "\n=== [TEST SUITE] Starting All Tests ===\n\n"),
      test1PingAllCores,
      test2SendDataMessages,
      test3UartRxKeyboardSimulation ]

/-! ## `main.c` -/

/-- The first message of `secondary_main`. -/
def announce (cpu : ℕ) : ConsoleProg :=
  withValue fun sp => withValue fun el =>
    message .secondaryMain (uartPuts "[Core " ++ uartPutc (digit cpu) ++
      uartPuts "] Online! SP: " ++ uartPuthex sp ++ uartPuts " EL: " ++
      uartPutc (digit el.toNat) ++ uartPuts "\n")

/-- `secondary_main`. On Core 2 the failed calls of `ring_buffer_get` print nothing. -/
def secondaryMain (cpu : ℕ) : ConsoleProg :=
  .seq (announce cpu) <|
    match cpu with
    | 1 =>
      .seq (message .secondaryMain (uartPuts "[Core 1] Ring buffer test: pushing A-J...\n")) hang
    | 2 =>
      inOrder
        [ message .secondaryMain (uartPuts "[Core 2] Ring buffer test: waiting for data...\n"),
          inOrder (List.replicate 10 (withValue fun byte =>
            message .secondaryMain (uartPuts "[Core 2] Got: " ++ uartPutc (byte.setWidth 8) ++
              uartPuts "\n"))),
          message .secondaryMain (uartPuts "[Core 2] Ring buffer test COMPLETE\n"),
          hang ]
    | 3 => .seq (schedAddTask 3 "mailbox_dis") (schedRun 3 [mailboxDispatcherTask])
    | _ => .skip

/-- `main`, from the loop that starts the secondary cores. -/
def main : ConsoleProg :=
  inOrder
    [ inOrder (secondaryCores.map fun cpu => withValue fun ret =>
        message .main (uartPuts "[Core 0] Core " ++ uartPutc (digit cpu) ++ uartPuts " PSCI: " ++
          uartPuthex ret ++ uartPuts "\n")),
      message .main (uartPuts "\n[Core 0] === Starting Interrupt Test ===\n\n"),
      interruptTestsInit,
      message .main (uartPuts "\n[Core 0] === Starting Communication Test ===\n\n"),
      runAllTests,
      schedAddTask 0 "uart_rx",
      schedAddTask 0 "ring_consumer",
      schedRun 0 [uartRxTask, ringConsumerTask] ]

/-- The program of each core. -/
def programs (core : Fin 4) : ConsoleProg := if core = 0 then main else secondaryMain core

end Gateway.Console
