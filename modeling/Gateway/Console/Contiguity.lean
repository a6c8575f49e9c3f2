import Gateway.Console.Programs

/-!
# Console messages

Every core prints its messages under `SPINLOCK_ADDR`, except in the routines of
`Routine.unlocked`. While a core holds the lock no other core writes a byte, unless it is a byte of
one of these routines (`console_contiguous_iff`); and such bytes do come between those of a message
(`console_garbled`).
-/

namespace Gateway.Console

open Runs LockDiscipline

/-- The routines that print without the lock. -/
def Unlocked (r : Routine) : Prop := r.unlocked = true

/-! ## The discipline of the programs -/

section Discipline

variable {h i : Bool} {r : Routine} {bs : List Byte} {p q : ConsoleProg}

theorem disciplined_unlocked (hr : r.unlocked = true) : Disciplined Unlocked h (.out r bs) h :=
  .exempt hr

theorem disciplined_message : Disciplined Unlocked false (message r bs) false :=
  .seq .acquire (.seq .out .release)

theorem disciplined_hang : Disciplined Unlocked h hang i := .forever .skip

theorem disciplined_inOrder {ps : List ConsoleProg}
    (hps : ∀ p ∈ ps, Disciplined Unlocked h p h) : Disciplined Unlocked h (inOrder ps) h := by
  induction ps with
  | nil => exact .skip
  | cons p ps ih =>
    exact .seq (hps p List.mem_cons_self) (ih fun q hq => hps q (List.mem_cons_of_mem p hq))

theorem disciplined_either (hp : Disciplined Unlocked h p i) (hq : Disciplined Unlocked h q i) :
    Disciplined Unlocked h (either p q) i := by
  refine .any fun n => ?_
  by_cases hn : n = 0
  · rwa [if_pos hn]
  · rwa [if_neg hn]

theorem disciplined_withValue {p : DWord → ConsoleProg}
    (hp : ∀ v, Disciplined Unlocked h (p v) i) : Disciplined Unlocked h (withValue p) i :=
  .any fun n => hp (BitVec.ofNat 64 n)

theorem disciplined_schedAddTask (core : ℕ) (taskName : String) :
    Disciplined Unlocked h (schedAddTask core taskName) h := disciplined_unlocked rfl

theorem disciplined_schedRun (core : ℕ) {bodies : List ConsoleProg}
    (hbodies : ∀ p ∈ bodies, Disciplined Unlocked false p false) :
    Disciplined Unlocked false (schedRun core bodies) false := by
  refine disciplined_withValue fun taskCount => ?_
  by_cases hcount : taskCount = 0
  · rw [if_pos hcount]
    exact .seq (disciplined_unlocked rfl) disciplined_hang
  · rw [if_neg hcount]
    refine .seq (disciplined_unlocked rfl) (.forever (.any fun n => ?_))
    rw [List.getD_eq_getElem?_getD]
    cases hn : bodies[n]? with
    | none => exact .skip
    | some p => exact hbodies p (List.mem_of_getElem? hn)

theorem disciplined_mailboxReceive (hp : Disciplined Unlocked h p i)
    (hq : Disciplined Unlocked h q i) : Disciplined Unlocked h (mailboxReceive p q) i :=
  disciplined_either
    (disciplined_withValue fun _ => .seq (disciplined_unlocked rfl) hp)
    (disciplined_either (.seq (disciplined_unlocked rfl) hq) hq)

theorem disciplined_ringConsumerTask : Disciplined Unlocked false ringConsumerTask false := by
  refine disciplined_either .skip (disciplined_withValue fun value => ?_)
  refine .seq .acquire (.seq (i := true) ?_ .release)
  cases uartKeyEvent (value.setWidth 8) with
  | ctrlC => exact .seq .out disciplined_hang
  | enter => exact .out
  | none => exact .out

theorem disciplined_mailboxDispatcherTask :
    Disciplined Unlocked false mailboxDispatcherTask false :=
  disciplined_mailboxReceive
    (disciplined_withValue fun _ => disciplined_withValue fun _ => disciplined_withValue fun _ =>
      disciplined_message) .skip

theorem disciplined_testFreqSanity (hp : Disciplined Unlocked h p i)
    (hq : Disciplined Unlocked h q i) : Disciplined Unlocked h (testFreqSanity p q) i := by
  refine .seq (disciplined_unlocked rfl) (disciplined_withValue fun freq => ?_)
  by_cases hfreq : freq ≠ qemuVirtFreq
  · rw [if_pos hfreq]
    exact .seq (disciplined_unlocked rfl) hq
  · rw [if_neg hfreq]
    exact .seq (disciplined_unlocked rfl) hp

theorem disciplined_testImask : Disciplined Unlocked h testImask h := by
  refine .seq (disciplined_unlocked rfl) (disciplined_withValue fun imaskFired => ?_)
  by_cases hfired : imaskFired ≠ 0
  · rw [if_pos hfired]
    exact disciplined_unlocked rfl
  · rw [if_neg hfired]
    exact disciplined_unlocked rfl

theorem disciplined_testCountdown : Disciplined Unlocked h testCountdown h :=
  .seq (disciplined_unlocked rfl)
    (.seq (.many (disciplined_withValue fun _ => disciplined_unlocked rfl))
      (.seq (disciplined_unlocked rfl) .skip))

theorem disciplined_testDelta : Disciplined Unlocked h testDelta h := by
  refine .seq (disciplined_unlocked rfl) (.seq (disciplined_inOrder ?_)
    (.seq (disciplined_either (disciplined_unlocked rfl) (disciplined_unlocked rfl)) .skip))
  rw [List.forall_mem_map]
  exact fun _ _ => disciplined_withValue fun _ => .seq (disciplined_unlocked rfl)
    (disciplined_either (disciplined_unlocked rfl) (disciplined_unlocked rfl))

theorem disciplined_interruptTestsInit : Disciplined Unlocked h interruptTestsInit h :=
  disciplined_testFreqSanity
    (.seq disciplined_testImask (.seq disciplined_testCountdown (.seq disciplined_testDelta
      (.seq (disciplined_unlocked rfl) .skip))))
    (.seq (disciplined_unlocked rfl) disciplined_hang)

theorem disciplined_test1PingAllCores : Disciplined Unlocked false test1PingAllCores false := by
  refine .seq disciplined_message (.seq (disciplined_inOrder ?_)
    (.seq (disciplined_either disciplined_message .skip) .skip))
  rw [List.forall_mem_map]
  exact fun _ _ => disciplined_either disciplined_message disciplined_message

theorem disciplined_test2SendDataMessages :
    Disciplined Unlocked false test2SendDataMessages false := by
  refine .seq disciplined_message (.seq (disciplined_inOrder ?_) (.seq disciplined_message
    (.seq (disciplined_inOrder fun p hp => ?_)
      (.seq (disciplined_either disciplined_message disciplined_message) .skip))))
  · rw [List.forall_mem_map]
    exact fun _ _ => disciplined_message
  · rw [List.eq_of_mem_replicate hp]
    exact disciplined_mailboxReceive
      (disciplined_withValue fun _ => disciplined_withValue fun _ => disciplined_message) .skip

theorem disciplined_runAllTests : Disciplined Unlocked false runAllTests false :=
  .seq disciplined_message (.seq disciplined_test1PingAllCores
    (.seq disciplined_test2SendDataMessages (.seq disciplined_message .skip)))

theorem disciplined_secondaryMain (cpu : ℕ) :
    Disciplined Unlocked false (secondaryMain cpu) false := by
  refine .seq (disciplined_withValue fun _ => disciplined_withValue fun _ => disciplined_message) ?_
  match cpu with
  | 1 => exact .seq disciplined_message disciplined_hang
  | 2 =>
    refine .seq disciplined_message (.seq (disciplined_inOrder fun p hp => ?_)
      (.seq disciplined_message (.seq disciplined_hang .skip)))
    rw [List.eq_of_mem_replicate hp]
    exact disciplined_withValue fun _ => disciplined_message
  | 3 =>
    refine .seq (disciplined_schedAddTask 3 _) (disciplined_schedRun 3 ?_)
    rw [List.forall_mem_singleton]
    exact disciplined_mailboxDispatcherTask
  | 0 | _ + 4 => exact .skip

theorem disciplined_main : Disciplined Unlocked false main false := by
  refine .seq (disciplined_inOrder ?_) (.seq disciplined_message
    (.seq disciplined_interruptTestsInit (.seq disciplined_message (.seq disciplined_runAllTests
      (.seq (disciplined_schedAddTask 0 _) (.seq (disciplined_schedAddTask 0 _)
        (.seq (disciplined_schedRun 0 ?_) .skip)))))))
  · rw [List.forall_mem_map]
    exact fun _ _ => disciplined_withValue fun _ => disciplined_message
  · rw [List.forall_mem_cons, List.forall_mem_singleton]
    exact ⟨.skip, disciplined_ringConsumerTask⟩

theorem disciplined_programs (core : Fin 4) :
    Disciplined Unlocked false (programs core) false := by
  unfold programs
  by_cases hcore : core = 0
  · rw [if_pos hcore]
    exact disciplined_main
  · rw [if_neg hcore]
    exact disciplined_secondaryMain core

end Discipline

/-! ## The messages of a run -/

theorem ok_programs : Ok Unlocked (init programs) :=
  ok_init fun core => ⟨false, disciplined_programs core⟩

/-- **Contiguous messages.** In every run of the four cores, what each core prints with
`SPINLOCK_ADDR` held is one block of the output exactly if no routine that prints without the lock
writes a byte while another core holds it. -/
theorem console_contiguous_iff (acts : List (Act (Fin 4))) (s : State (Fin 4) Routine Byte)
    (h : exec step (init programs) acts = some s) :
    BlocksContiguous (init programs) acts ↔
      Along step (ExemptApart Unlocked) (init programs) acts :=
  (blocksContiguous_iff h).trans (along_contiguous_iff ok_programs h)

instance (s : State (Fin 4) Routine Byte) (a : Act (Fin 4)) : Decidable (Contiguous s a) := by
  unfold Contiguous
  infer_instance

/-- Core 3 fails to get the lock while Core 1 announces itself. -/
def oneMessage : List (Act (Fin 4)) :=
  List.replicate 6 ⟨1, 1⟩ ++ List.replicate 8 ⟨3, 1⟩ ++ List.replicate 50 ⟨1, 1⟩

theorem console_contiguous_iff_oneMessage : BlocksContiguous (init programs) oneMessage := by
  obtain ⟨s, hs⟩ := Option.isSome_iff_exists.1
    (by decide +kernel : (exec step (init programs) oneMessage).isSome = true)
  have hcont : Along step Contiguous (init programs) oneMessage := by decide +kernel
  exact (console_contiguous_iff oneMessage s hs).2 ((along_contiguous_iff ok_programs hs).1 hcont)

/-- Core 3 has announced itself and is in `sched_add_task`; Core 1 starts to announce itself; and
Core 3 prints the first character of its next message between the first two of Core 1. -/
def twoMessages : List (Act (Fin 4)) :=
  List.replicate 57 ⟨3, 1⟩ ++ List.replicate 8 ⟨1, 1⟩ ++ [⟨3, 1⟩, ⟨1, 1⟩]

theorem console_garbled : ¬ ∀ (acts : List (Act (Fin 4))) (s : State (Fin 4) Routine Byte),
    exec step (init programs) acts = some s → BlocksContiguous (init programs) acts := by
  intro hall
  obtain ⟨s, hs⟩ := Option.isSome_iff_exists.1
    (by decide +kernel : (exec step (init programs) twoMessages).isSome = true)
  have hcont : ¬ Along step Contiguous (init programs) twoMessages := by decide +kernel
  exact hcont ((blocksContiguous_iff hs).1 (hall twoMessages s hs))

end Gateway.Console
