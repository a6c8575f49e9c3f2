import Gateway.RingBuffer.Calls
import Gateway.RingBuffer.Wiring
import Gateway.Scheduler.Turns

/-!
# The keyboard pipeline of Core 0

`main` registers `uart_rx_task` and `ring_consumer_task` on Core 0 and calls `sched_run`. Both tasks
do one thing and yield, so they take turns: at most one byte is put before the next one is taken, and
a put into a ring with at most 254 bytes at the start never fails (`keyboard_pipeline`). This is what
makes it safe that `uart_rx_task` ignores the result of `ring_buffer_put`.

A step is one turn of a task up to its `task_yield`, or that `task_yield`. No other core uses the
ring, so a call on it is not disturbed (`exec_put`, `exec_get`).
-/

namespace Gateway

open Runs

/-- Where a task of the pipeline goes on. -/
inductive TaskPos where
  /-- At the start of its loop. -/
  | loop
  /-- At its `task_yield`. -/
  | yield
  /-- In the `wfe` loop after Ctrl-C. -/
  | halted
  deriving DecidableEq

structure Pipeline where
  tasks : TaskTable
  ring : RingBuffer
  pos : ℕ → TaskPos
  /-- The bytes that `uart_rx_task` has read from the UART. -/
  read : List Byte
  /-- The results of its calls of `ring_buffer_put`. -/
  results : List ℤ
  /-- The bytes that `ring_consumer_task` has taken. -/
  taken : List Byte

namespace Pipeline

/-- The running task goes on at `pos`. -/
def goto (p : Pipeline) (pos : TaskPos) : Pipeline :=
  { p with pos := Function.update p.pos p.tasks.currentTask pos }

/-- The body of the loop of `uart_rx_task`: `input` is what the UART has. -/
def uartRxTask (p : Pipeline) (input : Option Byte) : Pipeline :=
  match input with
  | none => p.goto .yield
  | some c =>
    { p.goto .yield with
      ring := (ringBufferPut p.ring c).1
      read := p.read ++ [c]
      results := p.results ++ [(ringBufferPut p.ring c).2] }

/-- The body of the loop of `ring_consumer_task`. -/
def ringConsumerTask (p : Pipeline) (_ : Option Byte) : Pipeline :=
  match (ringBufferGet p.ring).2 with
  | none => p.goto .yield
  | some byte =>
    { p.goto (if uartKeyEvent byte = .ctrlC then .halted else .yield) with
      ring := (ringBufferGet p.ring).1
      taken := p.taken ++ [byte] }

/-- The tasks in the order in which `main` registers them. -/
def entries : List (Pipeline → Option Byte → Pipeline) := [uartRxTask, ringConsumerTask]

/-- The running task makes a step; if it polls the UART, the UART has `input`. -/
def step (p : Pipeline) (input : Option Byte) : Option Pipeline :=
  match p.pos p.tasks.currentTask with
  | .loop => entries[p.tasks.currentTask]?.map fun body => body p input
  | .yield => some { p.goto .loop with tasks := p.tasks.yield }
  | .halted => none

/-- After `sched_run`, with every task at the start of its loop. -/
def start (tasks : TaskTable) (ring : RingBuffer) : Pipeline where
  tasks
  ring
  pos _ := .loop
  read := []
  results := []
  taken := []

/-! ## The invariant -/

/-- The bytes that the ring may hold above its initial fill when the task `cur` is at `pos`:
`uart_rx_task` may have put one that `ring_consumer_task` has not taken. -/
def slack (cur : ℕ) (pos : TaskPos) : ℕ := if cur = 0 ↔ pos = .loop then 0 else 1

/-- The two tasks take turns, and no byte is lost. -/
structure Flows (q₀ : List Byte) (p : Pipeline) : Prop where
  turns : p.tasks.Turns
  count : p.tasks.taskCount = 2
  inRange : p.ring.InRange
  /-- The task that does not run waits at the start of its loop. -/
  waiting : ∀ i, i ≠ p.tasks.currentTask → p.pos i = .loop
  results : ∀ r ∈ p.results, r = 0
  bytes : p.taken ++ p.ring.queue = q₀ ++ p.read
  fill : p.ring.queue.length ≤
    q₀.length + slack p.tasks.currentTask (p.pos p.tasks.currentTask)
  halted : p.pos p.tasks.currentTask = .halted ↔ 0x03 ∈ p.taken

variable {q₀ : List Byte} {p p' : Pipeline}

theorem flows_start {t : TaskTable} {rb : RingBuffer} (h : TaskTable.Started 2 t)
    (hrb : rb.InRange) : Flows rb.queue (start t rb) where
  turns := h.turns (by decide)
  count := h.count
  inRange := hrb
  waiting _ _ := rfl
  results _ h := by cases h
  bytes := (List.append_nil _).symm
  fill := Nat.le_add_right _ _
  halted := iff_of_false (fun h => nomatch h) (fun h => nomatch h)

@[simp] theorem goto_pos (p : Pipeline) (pos : TaskPos) :
    (p.goto pos).pos p.tasks.currentTask = pos := Function.update_self ..

/-- What the body of a task must establish for the rest to follow. -/
theorem Flows.body (h : Flows q₀ p) {pos : TaskPos} {ring : RingBuffer} {read taken : List Byte}
    {results : List ℤ} (hring : ring.InRange) (hresults : ∀ r ∈ results, r = 0)
    (hbytes : taken ++ ring.queue = q₀ ++ read)
    (hfill : ring.queue.length ≤ q₀.length + slack p.tasks.currentTask pos)
    (hhalted : pos = .halted ↔ 0x03 ∈ taken) :
    Flows q₀ { p.goto pos with ring, read, results, taken } where
  turns := h.turns
  count := h.count
  inRange := hring
  waiting i hi := (Function.update_of_ne hi ..).trans (h.waiting i hi)
  results := hresults
  bytes := hbytes
  fill := by
    show ring.queue.length ≤
      q₀.length + slack p.tasks.currentTask ((p.goto pos).pos p.tasks.currentTask)
    rwa [goto_pos]
  halted := by
    show (p.goto pos).pos p.tasks.currentTask = _ ↔ _
    rwa [goto_pos]

/-- As long as no task is halted, no Ctrl-C has been taken. -/
theorem Flows.not_mem (h : Flows q₀ p) (hpos : p.pos p.tasks.currentTask = .loop) :
    0x03 ∉ p.taken := by
  rw [← h.halted, hpos]
  exact fun h => nomatch h

/-- The turn of `uart_rx_task`: there is room for the byte it puts. -/
theorem Flows.uartRxTask (h : Flows q₀ p) (hq₀ : q₀.length ≤ 254)
    (hpos : p.pos p.tasks.currentTask = .loop) (hcur : p.tasks.currentTask = 0)
    (input : Option Byte) : Flows q₀ (p.uartRxTask input) := by
  have hfill := h.fill
  have hrunning : TaskPos.yield = .halted ↔ 0x03 ∈ p.taken :=
    iff_of_false (fun h => nomatch h) (h.not_mem hpos)
  rw [hpos, hcur] at hfill
  change p.ring.queue.length ≤ q₀.length + 0 at hfill
  cases input with
  | none =>
    refine h.body h.inRange h.results h.bytes ?_ hrunning
    exact Nat.le_trans hfill (Nat.le_add_right _ _)
  | some c =>
    obtain ⟨hret, hqueue⟩ := ringBufferPut_of_lt h.inRange c (by omega)
    refine h.body (h.inRange.put c) ?_ ?_ ?_ hrunning
    · intro r hr
      obtain hr | hr := List.mem_append.1 hr
      · exact h.results r hr
      · rw [List.mem_singleton.1 hr, hret]
    · show p.taken ++ (ringBufferPut p.ring c).1.queue = q₀ ++ (p.read ++ [c])
      rw [hqueue, ← List.append_assoc, h.bytes, List.append_assoc]
    · rw [hqueue, hcur, List.length_append, List.length_singleton]
      show p.ring.queue.length + 1 ≤ q₀.length + 1
      omega

theorem uartKeyEvent_eq_ctrlC {byte : Byte} : uartKeyEvent byte = .ctrlC ↔ byte = 0x03 := by
  unfold uartKeyEvent
  split
  · next h => exact iff_of_true rfl h
  · next h => split <;> exact iff_of_false (fun h => nomatch h) h

/-- The turn of `ring_consumer_task`: it takes the byte that may be above the initial fill. -/
theorem Flows.ringConsumerTask (h : Flows q₀ p) (hpos : p.pos p.tasks.currentTask = .loop)
    (hcur : p.tasks.currentTask = 1) (input : Option Byte) :
    Flows q₀ (p.ringConsumerTask input) := by
  have hfill := h.fill
  rw [hpos, hcur] at hfill
  change p.ring.queue.length ≤ q₀.length + 1 at hfill
  have hqueue := ringBufferGet_queue h.inRange
  have hempty := ringBufferGet_eq_none h.inRange
  unfold Pipeline.ringConsumerTask
  cases hget : (ringBufferGet p.ring).2 with
  | none =>
    refine h.body h.inRange h.results h.bytes ?_
      (iff_of_false (fun h => nomatch h) (h.not_mem hpos))
    rw [hempty.1 hget]
    exact Nat.zero_le _
  | some byte =>
    rw [hget] at hqueue
    refine h.body h.inRange.get h.results ?_ ?_ ?_
    · show p.taken ++ [byte] ++ (ringBufferGet p.ring).1.queue = q₀ ++ p.read
      rw [← h.bytes, hqueue, List.append_assoc]
      rfl
    · rw [hqueue, Option.toList_some, List.length_append, List.length_singleton] at hfill
      omega
    · rw [List.mem_append, List.mem_singleton, or_iff_right (h.not_mem hpos)]
      by_cases hctrl : uartKeyEvent byte = .ctrlC
      · rw [if_pos hctrl]
        exact iff_of_true rfl (uartKeyEvent_eq_ctrlC.1 hctrl).symm
      · rw [if_neg hctrl]
        exact iff_of_false (fun h => nomatch h) fun h => hctrl (uartKeyEvent_eq_ctrlC.2 h.symm)

/-- `task_yield` gives the core to the other task, which starts its loop. -/
theorem Flows.yield (h : Flows q₀ p) (hpos : p.pos p.tasks.currentTask = .yield) :
    Flows q₀ { p.goto .loop with tasks := p.tasks.yield } := by
  have hcurrent := h.turns.current
  have hnext := h.turns.yield_currentTask
  have hcount : p.tasks.yield.taskCount = 2 := by
    rw [← h.count]
    exact h.turns.step_taskCount (by decide : TaskOp.yield ≠ .addTask) rfl
  have hloop : ∀ i, (p.goto .loop).pos i = .loop := by
    intro i
    by_cases hi : i = p.tasks.currentTask
    · rw [hi, goto_pos]
    · exact (Function.update_of_ne hi ..).trans (h.waiting i hi)
  rw [h.count] at hcurrent hnext
  constructor
  · exact h.turns.yield
  · exact hcount
  · exact h.inRange
  · exact fun i _ => hloop i
  · exact h.results
  · exact h.bytes
  · have hfill := h.fill
    rw [hpos] at hfill
    show p.ring.queue.length ≤ q₀.length + slack _ ((p.goto .loop).pos p.tasks.yield.currentTask)
    rw [hloop, hnext]
    obtain hcur | hcur : p.tasks.currentTask = 0 ∨ p.tasks.currentTask = 1 := by omega
    · rw [hcur] at hfill ⊢
      exact hfill
    · rw [hcur] at hfill ⊢
      exact hfill
  · have hnone : 0x03 ∉ p.taken := by
      rw [← h.halted, hpos]
      exact fun h => nomatch h
    show (p.goto .loop).pos p.tasks.yield.currentTask = _ ↔ 0x03 ∈ p.taken
    rw [hloop]
    exact iff_of_false (fun h => nomatch h) hnone

/-- One step keeps the bytes flowing. -/
theorem Flows.step (h : Flows q₀ p) (hq₀ : q₀.length ≤ 254) {input : Option Byte}
    (hs : p.step input = some p') : Flows q₀ p' := by
  have hcurrent := h.turns.current
  rw [h.count] at hcurrent
  unfold Pipeline.step at hs
  cases hpos : p.pos p.tasks.currentTask with
  | loop =>
    rw [hpos] at hs
    obtain hcur | hcur : p.tasks.currentTask = 0 ∨ p.tasks.currentTask = 1 := by omega
    · rw [hcur] at hs
      obtain rfl := Option.some.inj hs
      exact h.uartRxTask hq₀ hpos hcur input
    · rw [hcur] at hs
      obtain rfl := Option.some.inj hs
      exact h.ringConsumerTask hpos hcur input
  | yield =>
    rw [hpos] at hs
    obtain rfl := Option.some.inj hs
    exact h.yield hpos
  | halted =>
    rw [hpos] at hs
    cases hs

/-- The pipeline stops when Ctrl-C has been taken, and only then. -/
theorem Flows.step_eq_none (h : Flows q₀ p) (input : Option Byte) :
    p.step input = none ↔ 0x03 ∈ p.taken := by
  have hcurrent := h.turns.current
  rw [h.count] at hcurrent
  rw [← h.halted]
  unfold Pipeline.step
  cases hpos : p.pos p.tasks.currentTask with
  | loop =>
    refine iff_of_false (fun hnone => ?_) fun h => nomatch h
    have hlt : p.tasks.currentTask < entries.length := hcurrent
    dsimp only at hnone
    rw [List.getElem?_eq_getElem hlt] at hnone
    cases hnone
  | yield => exact iff_of_false (fun h => nomatch h) fun h => nomatch h
  | halted => exact iff_of_true rfl rfl

/-- **The pipeline drops nothing.** From any content of at most 254 bytes and for every arrival of
bytes, no put fails, the ring never holds more than one byte above its initial fill, and the bytes
taken and those in the ring are the initial ones and those read, in order. The run ends when a byte
0x03 is taken. -/
theorem keyboard_pipeline {tick₀ : DWord} {t₀ : TaskTable} {rb : RingBuffer}
    (hstart : TaskTable.started 2 tick₀ = some t₀) (hrb : rb.InRange)
    (hfill : rb.queue.length ≤ 254) {inputs : List (Option Byte)}
    (hexec : exec Pipeline.step (start t₀ rb) inputs = some p) :
    (∀ r ∈ p.results, r = 0) ∧ p.ring.queue.length ≤ rb.queue.length + 1 ∧
      p.taken ++ p.ring.queue = rb.queue ++ p.read ∧
      ∀ input, p.step input = none ↔ 0x03 ∈ p.taken := by
  have hflows : Flows rb.queue p :=
    exec_invariant (fun _ _ _ h hs => h.step hfill hs)
      (flows_start (TaskTable.started_spec (by decide) hstart) hrb) hexec
  refine ⟨hflows.results, ?_, hflows.bytes, hflows.step_eq_none⟩
  have hle := hflows.fill
  unfold slack at hle
  split at hle <;> omega

/-- Two bytes are in the ring when a third one, Ctrl-C, arrives. -/
theorem keyboard_pipeline_ctrlC : ∃ t₀ p, TaskTable.started 2 0 = some t₀ ∧
    exec Pipeline.step (start t₀ ⟨1, 255, fun _ => 0x61⟩) (some 0x03 :: List.replicate 10 none) =
      some p ∧
    p.taken = [0x61, 0x61, 0x03] ∧ (∀ r ∈ p.results, r = 0) ∧ p.ring.queue.length ≤ 2 + 1 ∧
    p.taken ++ p.ring.queue = [0x61, 0x61] ++ p.read ∧ ∀ input, p.step input = none := by
  have heval : ((TaskTable.started 2 0).bind fun t₀ =>
      (exec Pipeline.step (start t₀ ⟨1, 255, fun _ => 0x61⟩)
        (some 0x03 :: List.replicate 10 none)).map taken) = some [0x61, 0x61, 0x03] := by
    decide +kernel
  obtain ⟨t, ht, heval⟩ := Option.bind_eq_some_iff.1 heval
  obtain ⟨p, hp, htaken⟩ := Option.map_eq_some_iff.1 heval
  obtain ⟨hresults, hfill, hbytes, hend⟩ :=
    keyboard_pipeline ht ⟨by decide, by decide⟩ (by decide) hp
  exact ⟨t, p, ht, hp, htaken, hresults, hfill, hbytes, fun input => (hend input).2 (by
    rw [htaken]
    decide)⟩

end Pipeline

end Gateway
