import Gateway.Console.Contiguity
import Gateway.Lib.TransmitFifo

/-!
# The UART

`uart_putc` waits while bit 5 of `UART_FR`, transmit FIFO full, is set, and then stores to `UART_DR`.
The console of `Programs` is one sequence that every `uart_putc` appends to. It is what the UART sends
as long as the routines that print without `SPINLOCK_ADDR` and other cores do not store between each
other's test and store (`uart_line`). They can, and then a character is lost (`uart_loses_character`).

The FIFO has one place unless `uart_init` enables it, which it does for the RPi5 only.
-/

namespace Gateway.Console

open Runs LockDiscipline

instance instDecidableUnlocked (r : Routine) : Decidable (Unlocked r) :=
  inferInstanceAs (Decidable (r.unlocked = true))

instance instDecidablePortApart (p : Port (Fin 4) Routine Byte) :
    (x : PortAct (Fin 4)) → Decidable (PortApart Unlocked p x)
  | .core a => inferInstanceAs (Decidable (p.ready a.core = true → ∀ d, d ≠ a.core →
      p.ready d = true → ∀ r ∈ p.cores.writes a.core, ∀ r' ∈ p.cores.writes d,
        ¬ Unlocked r ∧ ¬ Unlocked r'))
  | .shift => .isTrue trivial

variable {depth : ℕ} {p : Port (Fin 4) Routine Byte}

/-- **What the UART sends.** In every run the characters that `uart_putc` stores are sent in order
and at most once. None is lost as long as no core that prints without `SPINLOCK_ADDR` stores to
`UART_DR` between the test and the store of another, and no other between its own. -/
theorem uart_line (xs : List (PortAct (Fin 4)))
    (h : exec (portStep depth) (portInit programs) xs = some p) :
    (∃ acts, exec step (init programs) acts = some p.cores) ∧
      (p.line ++ p.fifo).Sublist (p.cores.output.map Prod.snd) ∧
        (Along (portStep depth) (PortApart Unlocked) (portInit programs) xs →
          p.line ++ p.fifo = p.cores.output.map Prod.snd) := by
  refine ⟨exec_cores h, line_sublist h, fun hapart => ?_⟩
  have hdisc : ∀ c, ∃ i, Disciplined Unlocked false (programs c) i :=
    fun c => ⟨false, disciplined_programs c⟩
  exact line_eq_output hdisc hapart h

/-- A step of core `c`. -/
def takes (c : Fin 4) : PortAct (Fin 4) := .core ⟨c, 1⟩

/-- Core `c` writes `n` characters, each of which is sent at once. -/
def sends (c : Fin 4) (n : ℕ) : List (PortAct (Fin 4)) :=
  (List.replicate n [takes c, takes c, .shift]).flatten

/-- Core 3 starts to announce itself, and Core 1 waits for it. -/
def oneSender : List (PortAct (Fin 4)) :=
  List.replicate 7 (takes 3) ++ sends 3 2 ++ List.replicate 8 (takes 1) ++ sends 3 1

theorem uart_line_oneSender :
    ∃ p, exec (portStep 1) (portInit programs) oneSender = some p ∧
      p.line ++ p.fifo = p.cores.output.map Prod.snd := by
  obtain ⟨p, hp⟩ := Option.isSome_iff_exists.1
    (by decide +kernel : (exec (portStep 1) (portInit programs) oneSender).isSome = true)
  exact ⟨p, hp, (uart_line oneSender hp).2.2 (by decide +kernel)⟩

/-- Core 3 has announced itself and is in `sched_add_task`, and Core 1 announces itself: both find
room for one character, and both store. -/
def twoSenders : List (PortAct (Fin 4)) :=
  List.replicate 7 (takes 3) ++ sends 3 47 ++ List.replicate 3 (takes 3) ++
    List.replicate 7 (takes 1) ++ [takes 3, takes 1, takes 3, takes 1]

theorem uart_loses_character :
    ¬ ∀ (depth : ℕ) (xs : List (PortAct (Fin 4))) (p : Port (Fin 4) Routine Byte),
      exec (portStep depth) (portInit programs) xs = some p →
        p.line ++ p.fifo = p.cores.output.map Prod.snd := by
  intro hall
  have hrun : (exec (portStep 1) (portInit programs) twoSenders).any (fun p =>
      (p.line ++ p.fifo).length != p.cores.output.length) = true := by decide +kernel
  obtain ⟨p, hp, hlost⟩ := (Option.any_eq_true _ _).1 hrun
  apply bne_iff_ne.1 hlost
  rw [hall 1 twoSenders p hp, List.length_map]

end Gateway.Console
