import Mathlib.Data.Fintype.Basic
import Gateway.RingBuffer.Linearization

/-!
# The UART ring as the system wires it

`main.c` and `dispatcher.c` give `UART_RX_BUFFER` two producers and two consumers. Core 1 puts the
letters A to J, Core 2 gets until it has received ten bytes, and the two tasks of Core 0 take turns:
`uart_rx_task` puts what the UART delivers, `ring_consumer_task` gets and halts the core on Ctrl-C.
Nothing orders them: the delays are left out, a core that waits for an event may wake at any time,
and the console lock, which no access to the ring needs, is not modelled.

As long as no call is disturbed by another of its kind, no byte is lost or returned twice
(`uart_ring_accounted`). The wiring does not ensure that: two puts that overlap lose a byte
(`uart_ring_loses_byte`).
-/

namespace Gateway

open Runs CyclicQueue

/-- `key_event_t`. -/
inductive KeyEvent where
  | none
  | ctrlC
  | enter
  deriving DecidableEq

/-- `uart_key_event`. -/
def uartKeyEvent (byte : Byte) : KeyEvent :=
  if byte = 0x03 then .ctrlC
  else if byte = 0x0D ∨ byte = 0x0A then .enter
  else .none

/-- What Core 0 is running. -/
inductive Core0Task where
  | uartRx
  | ringConsumer
  /-- Ctrl-C has arrived: the core waits for events for ever. -/
  | halted
  deriving DecidableEq

/-- The ring and the local state of its users, by core. -/
structure Wired where
  ring : RingState (Fin 4)
  /-- Core 1: the next letter to put. -/
  letter : Byte
  /-- Core 2: `received`. -/
  received : ℕ
  /-- Core 0: the task that runs. -/
  task : Core0Task

inductive WiredAct where
  /-- Core 0 makes a step; if it asks the UART, the answer is `input`. -/
  | core0 (input : Option Byte)
  | core1
  | core2
  deriving DecidableEq

def WiredAct.core : WiredAct → Fin 4
  | .core0 _ => 0
  | .core1 => 1
  | .core2 => 2

/-- The result of the call that returned in the step from `s` to `s'`, if one did. -/
def resultOf (s s' : RingState (Fin 4)) : Option (Event Byte) :=
  ((s'.log.drop s.log.length).head?).map Prod.snd

/-- The task of Core 0 after one of its calls has returned: both tasks end their turn in
`task_yield`. -/
def Core0Task.afterCall : Core0Task → Event Byte → Core0Task
  | .uartRx, _ => .ringConsumer
  | .ringConsumer, .get byte => if uartKeyEvent byte = .ctrlC then .halted else .uartRx
  | .ringConsumer, _ => .uartRx
  | .halted, _ => .halted

/-- A core inside a call makes its next access. -/
def Wired.access (w : Wired) (a : WiredAct) : Option Wired :=
  (ringStep w.ring (.access a.core)).map fun ring =>
    match a, resultOf w.ring ring with
    | .core0 _, some e => { w with ring, task := w.task.afterCall e }
    | .core2, some (.get _) => { w with ring, received := w.received + 1 }
    | _, _ => { w with ring }

/-- A core between calls makes its next call. -/
def Wired.call (w : Wired) : WiredAct → Option Wired
  | .core0 input =>
    match w.task, input with
    | .uartRx, some c => (ringStep w.ring (.put 0 c)).map fun ring => { w with ring }
    | .uartRx, none => some { w with task := .ringConsumer }
    | .ringConsumer, _ => (ringStep w.ring (.get 0)).map fun ring => { w with ring }
    | .halted, _ => none
  | .core1 =>
    if w.letter ≤ 0x4A then
      (ringStep w.ring (.put 1 w.letter)).map fun ring => { w with ring, letter := w.letter + 1 }
    else none
  | .core2 =>
    if w.received < 10 then (ringStep w.ring (.get 2)).map fun ring => { w with ring } else none

def wiredStep (w : Wired) (a : WiredAct) : Option Wired :=
  if w.ring.pc a.core = .idle then w.call a else w.access a

/-- After `ring_buffer_init`, with every user at its start. -/
def wiredStart (rb₀ : RingBuffer) : Wired := ⟨ringStart rb₀, 0x41, 0, .uartRx⟩

/-- Every byte for which a put returned 0 was returned by one get or is in the ring, and no get
returned another byte. -/
def Wired.Accounted (w : Wired) : Prop := w.ring.accepted.Perm (w.ring.returned ++ w.ring.rb.queue)

/-- The core does not store `head` while another is inside a put, nor `tail` while another is inside
a get. -/
def NoOverlap (w : Wired) (a : WiredAct) : Prop := Undisturbed w.ring (.access a.core)

instance (w : Wired) (a : WiredAct) : Decidable (NoOverlap w a) := by
  unfold NoOverlap; infer_instance

/-- A step of a user is a step of the ring or leaves the ring as it is. -/
theorem wiredStep_ring {w w' : Wired} {a : WiredAct} (h : wiredStep w a = some w') :
    w'.ring = w.ring ∨
      ∃ b, ringStep w.ring b = some w'.ring ∧ (NoOverlap w a → Undisturbed w.ring b) := by
  unfold wiredStep at h
  split at h
  · cases a with
    | core0 input =>
      unfold Wired.call at h
      dsimp only at h
      split at h
      · obtain ⟨ring, hring, rfl⟩ := Option.map_eq_some_iff.1 h
        exact Or.inr ⟨_, hring, fun _ => trivial⟩
      · exact Or.inl (congrArg Wired.ring (Option.some.inj h)).symm
      · obtain ⟨ring, hring, rfl⟩ := Option.map_eq_some_iff.1 h
        exact Or.inr ⟨_, hring, fun _ => trivial⟩
      · cases h
    | core1 =>
      obtain ⟨-, h⟩ := Option.ite_none_right_eq_some.1 h
      obtain ⟨ring, hring, rfl⟩ := Option.map_eq_some_iff.1 h
      exact Or.inr ⟨_, hring, fun _ => trivial⟩
    | core2 =>
      obtain ⟨-, h⟩ := Option.ite_none_right_eq_some.1 h
      obtain ⟨ring, hring, rfl⟩ := Option.map_eq_some_iff.1 h
      exact Or.inr ⟨_, hring, fun _ => trivial⟩
  · obtain ⟨ring, hring, rfl⟩ := Option.map_eq_some_iff.1 h
    refine Or.inr ⟨_, ?_, fun hno => hno⟩
    split <;> exact hring

/-- **No loss without overlap.** In every run in which no call on the ring is disturbed by another
of its kind, every byte stays accounted for in every state reached. -/
theorem uart_ring_accounted (rb₀ : RingBuffer) (acts : List WiredAct)
    (hno : Along wiredStep NoOverlap (wiredStart rb₀) acts) (pre : List WiredAct) (w : Wired)
    (hpre : pre <+: acts) (h : exec wiredStep (wiredStart rb₀) pre = some w) : w.Accounted := by
  have hlin : ∃ l, Linearized w.ring l := by
    refine exec_invariant_along (I := fun w => ∃ l, Linearized w.ring l) ?_
      ⟨[], linearized_start rb₀⟩ (hno.initial hpre h) h
    rintro w a w' ⟨l, hl⟩ hG hs
    rcases wiredStep_ring hs with hring | ⟨b, hring, hund⟩
    · exact ⟨l, hring ▸ hl⟩
    · exact ⟨_, linearized_step hl (hund hG) hring⟩
  obtain ⟨l, hl⟩ := hlin
  unfold Wired.Accounted
  rw [hl.accepted_eq.1]

/-- Core 2 starts its get while Core 1 puts `A`, and receives it. -/
def letterPassed : List WiredAct :=
  [.core1, .core1, .core2, .core1, .core1, .core1, .core1, .core2, .core2, .core2, .core2, .core2,
    .core2]

theorem uart_ring_accounted_letterPassed : ∃ w : Wired,
    exec wiredStep (wiredStart ⟨7, 9, fun _ => 0⟩) letterPassed = some w ∧ w.received = 1 ∧
      w.Accounted := by
  have heval : (exec wiredStep (wiredStart ⟨7, 9, fun _ => 0⟩) letterPassed).map
      Wired.received = some 1 := by decide +kernel
  obtain ⟨w, hrun, hw⟩ := Option.map_eq_some_iff.1 heval
  exact ⟨w, hrun, hw, uart_ring_accounted _ letterPassed (by decide +kernel) letterPassed w
    (List.prefix_refl _) hrun⟩

/-- `uart_rx_task` puts the key `x` and has loaded `head` when Core 1 puts `A` from start to end.
Both puts return 0, and `x` is neither returned nor in the ring. -/
def overlappingPuts : List WiredAct :=
  [.core0 (some 0x78), .core0 none, .core1, .core1, .core1, .core1, .core1, .core1,
    .core0 none, .core0 none, .core0 none, .core0 none]

theorem uart_ring_loses_byte : ¬ ∀ (rb₀ : RingBuffer) (acts : List WiredAct) (w : Wired),
    exec wiredStep (wiredStart rb₀) acts = some w → w.Accounted := by
  intro hall
  have heval : (exec wiredStep (wiredStart ⟨0, 0, fun _ => 0⟩) overlappingPuts).map
      (fun w => (w.ring.accepted, w.ring.returned ++ w.ring.rb.queue)) =
      some ([0x41, 0x78], [0x41]) := by decide +kernel
  obtain ⟨w, hrun, hw⟩ := Option.map_eq_some_iff.1 heval
  obtain ⟨hacc, hret⟩ := Prod.mk.inj hw
  have hlost := hall _ _ w hrun
  unfold Wired.Accounted at hlost
  rw [hacc, hret] at hlost
  exact absurd hlost.length_eq (by decide)

end Gateway
