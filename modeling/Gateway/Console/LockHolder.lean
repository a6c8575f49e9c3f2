import Gateway.Console.Contiguity
import Gateway.Lib.LockProgress

/-!
# Who keeps the console

A core that holds `SPINLOCK_ADDR` releases it within a number of its own steps, except for Core 0
when `ring_consumer_task` has taken a Ctrl-C: it halts with the lock (`console_halts`), and from then
on the other cores print only in the routines that do not take the lock (`console_holder`).
-/

namespace Gateway.Console

open Runs LockDiscipline

/-! ## The critical sections of the programs -/

section Brief

variable {halts : Prop} {h i : Bool} {r : Routine} {bs : List Byte} {p q : ConsoleProg}

theorem brief_message : Brief halts false (message r bs) false :=
  .seq .acquire (.seq .out .release)

theorem brief_hang : Brief halts false hang i := .forever .skip

theorem brief_inOrder {ps : List ConsoleProg} (hps : ∀ p ∈ ps, Brief halts false p false) :
    Brief halts false (inOrder ps) false := by
  induction ps with
  | nil => exact .skip
  | cons p ps ih =>
    exact .seq (hps p List.mem_cons_self) (ih fun q hq => hps q (List.mem_cons_of_mem p hq))

theorem brief_either (hp : Brief halts false p i) (hq : Brief halts false q i) :
    Brief halts false (either p q) i := by
  refine .any fun n => ?_
  by_cases hn : n = 0
  · rwa [if_pos hn]
  · rwa [if_neg hn]

theorem brief_withValue {p : DWord → ConsoleProg} (hp : ∀ v, Brief halts false (p v) i) :
    Brief halts false (withValue p) i := .any fun n => hp (BitVec.ofNat 64 n)

theorem brief_schedRun (core : ℕ) {bodies : List ConsoleProg}
    (hbodies : ∀ p ∈ bodies, Brief halts false p false) :
    Brief halts false (schedRun core bodies) false := by
  refine brief_withValue fun taskCount => ?_
  by_cases hcount : taskCount = 0
  · rw [if_pos hcount]
    exact .seq .out brief_hang
  · rw [if_neg hcount]
    refine .seq .out (.forever (.any fun n => ?_))
    rw [List.getD_eq_getElem?_getD]
    cases hn : bodies[n]? with
    | none => exact .skip
    | some p => exact hbodies p (List.mem_of_getElem? hn)

theorem brief_mailboxReceive (hp : Brief halts false p i) (hq : Brief halts false q i) :
    Brief halts false (mailboxReceive p q) i :=
  brief_either (brief_withValue fun _ => .seq .out hp) (brief_either (.seq .out hq) hq)

/-- Only here the lock may be kept. -/
theorem brief_ringConsumerTask (hhalts : halts) : Brief halts false ringConsumerTask false := by
  refine brief_either .skip (brief_withValue fun value => ?_)
  refine .seq .acquire (.seq (i := true) ?_ .release)
  cases uartKeyEvent (value.setWidth 8) with
  | ctrlC => exact .seq .out (.halt hhalts)
  | enter => exact .out
  | none => exact .out

theorem brief_mailboxDispatcherTask : Brief halts false mailboxDispatcherTask false :=
  brief_mailboxReceive
    (brief_withValue fun _ => brief_withValue fun _ => brief_withValue fun _ => brief_message) .skip

theorem brief_testFreqSanity (hp : Brief halts false p i) (hq : Brief halts false q i) :
    Brief halts false (testFreqSanity p q) i := by
  refine .seq .out (brief_withValue fun freq => ?_)
  by_cases hfreq : freq ≠ qemuVirtFreq
  · rw [if_pos hfreq]
    exact .seq .out hq
  · rw [if_neg hfreq]
    exact .seq .out hp

theorem brief_testImask : Brief halts false testImask false := by
  refine .seq .out (brief_withValue fun imaskFired => ?_)
  by_cases hfired : imaskFired ≠ 0
  · rw [if_pos hfired]
    exact .out
  · rw [if_neg hfired]
    exact .out

theorem brief_testCountdown : Brief halts false testCountdown false :=
  .seq .out (.seq (.many (brief_withValue fun _ => .out)) (.seq .out .skip))

theorem brief_testDelta : Brief halts false testDelta false := by
  refine .seq .out (.seq (brief_inOrder ?_) (.seq (brief_either .out .out) .skip))
  rw [List.forall_mem_map]
  exact fun _ _ => brief_withValue fun _ => .seq .out (brief_either .out .out)

theorem brief_interruptTestsInit : Brief halts false interruptTestsInit false :=
  brief_testFreqSanity
    (.seq brief_testImask (.seq brief_testCountdown (.seq brief_testDelta (.seq .out .skip))))
    (.seq .out brief_hang)

theorem brief_test1PingAllCores : Brief halts false test1PingAllCores false := by
  refine .seq brief_message (.seq (brief_inOrder ?_) (.seq (brief_either brief_message .skip) .skip))
  rw [List.forall_mem_map]
  exact fun _ _ => brief_either brief_message brief_message

theorem brief_test2SendDataMessages : Brief halts false test2SendDataMessages false := by
  refine .seq brief_message (.seq (brief_inOrder ?_) (.seq brief_message
    (.seq (brief_inOrder fun p hp => ?_)
      (.seq (brief_either brief_message brief_message) .skip))))
  · rw [List.forall_mem_map]
    exact fun _ _ => brief_message
  · rw [List.eq_of_mem_replicate hp]
    exact brief_mailboxReceive
      (brief_withValue fun _ => brief_withValue fun _ => brief_message) .skip

theorem brief_runAllTests : Brief halts false runAllTests false :=
  .seq brief_message (.seq brief_test1PingAllCores
    (.seq brief_test2SendDataMessages (.seq brief_message .skip)))

theorem brief_secondaryMain (cpu : ℕ) : Brief halts false (secondaryMain cpu) false := by
  refine .seq (brief_withValue fun _ => brief_withValue fun _ => brief_message) ?_
  match cpu with
  | 1 => exact .seq brief_message brief_hang
  | 2 =>
    refine .seq brief_message (.seq (brief_inOrder fun p hp => ?_)
      (.seq brief_message (.seq brief_hang .skip)))
    rw [List.eq_of_mem_replicate hp]
    exact brief_withValue fun _ => brief_message
  | 3 =>
    refine .seq .out (brief_schedRun 3 ?_)
    rw [List.forall_mem_singleton]
    exact brief_mailboxDispatcherTask
  | 0 | _ + 4 => exact .skip

theorem brief_main (hhalts : halts) : Brief halts false main false := by
  refine .seq (brief_inOrder ?_) (.seq brief_message (.seq brief_interruptTestsInit
    (.seq brief_message (.seq brief_runAllTests (.seq .out (.seq .out
      (.seq (brief_schedRun 0 ?_) .skip)))))))
  · rw [List.forall_mem_map]
    exact fun _ _ => brief_withValue fun _ => brief_message
  · rw [List.forall_mem_cons, List.forall_mem_singleton]
    exact ⟨.skip, brief_ringConsumerTask hhalts⟩

theorem brief_programs (core : Fin 4) : Brief (core = 0) false (programs core) false := by
  unfold programs
  by_cases hcore : core = 0
  · rw [if_pos hcore]
    exact brief_main hcore
  · rw [if_neg hcore]
    exact brief_secondaryMain core

end Brief

/-! ## Runs -/

variable {acts : List (Act (Fin 4))} {s : State (Fin 4) Routine Byte} {c : Fin 4}

/-- **The holder of the console.** A core that holds `SPINLOCK_ADDR` can go on, and releases it within
`n` of its own steps, whatever the others do; or it is Core 0, which never releases it again, and the
other cores write nothing more under the lock. The loads of `UART_FR` with which `uart_putc` waits for
room are no steps here. -/
theorem console_holder (h : exec step (init programs) acts = some s) (hc : s.inside c = true) :
    (∀ choice, (step s ⟨c, choice⟩).isSome) ∧
    ((∃ n, ∀ as s', exec step s as = some s' → n ≤ ownSteps c as → ReleasedIn s c as) ∨
      c = 0 ∧ ∀ as s', exec step s as = some s' →
        s'.inside 0 = true ∧ Along step (OnlyExempt Unlocked 0) s as) := by
  have hok := exec_invariant (fun _ _ _ h hs => ok_step h hs) ok_programs h
  have hbrief := exec_invariant (fun _ _ _ h hs => AllBrief.step h hs)
    (allBrief_init brief_programs) h
  have hholder := hbrief c
  rw [hc] at hholder
  refine ⟨fun choice => hholder.step_isSome (a := ⟨c, choice⟩), ?_⟩
  obtain hrelease | ⟨rfl, hhalt⟩ := holder_cases hbrief hc
  · exact .inl hrelease
  · refine .inr ⟨rfl, fun as s' hs => ?_⟩
    obtain ⟨hhalt', honly⟩ := hhalt.run hok hs
    exact ⟨hhalt'.1, honly⟩

/-- Core 1 has taken the lock for its first message. -/
def takesLock : List (Act (Fin 4)) := List.replicate 6 ⟨1, 1⟩

theorem console_holder_takesLock : ∃ s n, exec step (init programs) takesLock = some s ∧
    ∀ as s', exec step s as = some s' → n ≤ ownSteps 1 as → ReleasedIn s 1 as := by
  have hrun : (exec step (init programs) takesLock).any (fun s => s.inside 1) = true := by
    decide +kernel
  obtain ⟨s, hs, hinside⟩ := (Option.any_eq_true _ _).1 hrun
  obtain ⟨-, ⟨n, hn⟩ | ⟨hzero, -⟩⟩ := console_holder hs hinside
  · exact ⟨s, n, hs, hn⟩
  · cases hzero

/-- Core 0 alone, up to the Ctrl-C that `ring_consumer_task` takes. What is not followed is 1, but for
the frequency of the timer and the end of the countdown. -/
def takesCtrlC : List (Act (Fin 4)) :=
  List.replicate 241 ⟨0, 1⟩ ++ [⟨0, 62500000⟩] ++ List.replicate 131 ⟨0, 1⟩ ++ [⟨0, 0⟩] ++
    List.replicate 1184 ⟨0, 1⟩ ++ [⟨0, 3⟩] ++ List.replicate 51 ⟨0, 1⟩

/-- The core is at a `while (1);`. -/
def atHalt (s : State (Fin 4) Routine Byte) (c : Fin 4) : Bool :=
  match s.rest c with
  | .forever .skip :: _ => true
  | _ => false

theorem toHalt_of_atHalt (h : atHalt s c = true) : ToHalt (s.rest c) := by
  unfold atHalt at h
  split at h
  · next k hk =>
    rw [hk]
    exact .halt
  · cases h

/-- The second case arises: Core 0 can keep the lock for ever. -/
theorem console_halts : ∃ s, exec step (init programs) takesCtrlC = some s ∧
    ∀ as s', exec step s as = some s' →
      s'.inside 0 = true ∧ Along step (OnlyExempt Unlocked 0) s as := by
  have hrun : (exec step (init programs) takesCtrlC).any
      (fun s => s.inside 0 && atHalt s 0) = true := by decide +kernel
  obtain ⟨s, hs, hhalt⟩ := (Option.any_eq_true _ _).1 hrun
  obtain ⟨hinside, hrest⟩ := Bool.and_eq_true_iff.1 hhalt
  have hhalting : Halting 0 s := ⟨hinside, toHalt_of_atHalt hrest⟩
  have hok := exec_invariant (fun _ _ _ h hs => ok_step h hs) ok_programs hs
  refine ⟨s, hs, fun as s' hs' => ?_⟩
  obtain ⟨hhalt', honly⟩ := hhalting.run hok hs'
  exact ⟨hhalt'.1, honly⟩

end Gateway.Console
