import Gateway.Ipc.Accesses

/-!
# The mailbox operations are atomic

Any number of cores call `mailbox_send`, `mailbox_receive` and `mailbox_clear` on the four mailboxes,
and their accesses interleave in any way: those of the `spinlock_acquire` loop, of the bodies, and
of `spinlock_release`. Each mailbox has its own lock word. The calls are then the atomic steps that
`Gateway.Ipc.HonestRuns` and `Gateway.Ipc.ReceiveLoop` take them to be.
-/

namespace Gateway

open Runs CriticalSection

variable {Core : Type*} [DecidableEq Core]

/-- A call as one step on the four mailboxes. -/
def runOp (key : Key) (mpidr : Core → DWord) (c : Core) (op : MailboxOp) (mb : Mailbox) :
    Mailbox × Outcome := op.call.run key (mpidr c) mb

/-- **Atomicity.** In every interleaving of the accesses of any number of cores, from
`mailbox_init`: no lock has two holders; the completed calls, in the order in which they release
their locks, are a sequential execution of the operations with the same outcomes, in the program
order of each core; and a mailbox whose lock is free holds what that execution leaves in it. -/
theorem mailbox_operations_atomic (key : Key) (mpidr : Core → DWord) (mb₀ : Fin 4 → Mailbox)
    (acts : List (Act Core MailboxOp))
    (s : State Core (Fin 4) MailboxOp Local Mailbox Outcome)
    (h : exec (step (mailboxClient key mpidr)) (init fun d => mailboxInit (mb₀ d)) acts = some s) :
    (∀ c c' d, Holds (mailboxClient key mpidr) s c d → Holds (mailboxClient key mpidr) s c' d →
      c = c') ∧
    (∃ m, exec (seqStep (mailboxClient key mpidr) (runOp key mpidr))
        (fun d => mailboxInit (mb₀ d)) s.hist = some m ∧
      ∀ d, (∀ c, ¬ Holds (mailboxClient key mpidr) s c d) → s.mem d = m d) ∧
    ∀ c, callsOf c acts = completedOf c s.hist ++ ((s.phase c).current).toList := by
  have hrun : ∀ c op mb, Completes (mailboxClient key mpidr) ((mailboxClient key mpidr).start c op) mb
      (runOp key mpidr c op mb) := mailboxClient_completes key mpidr
  obtain ⟨m, hm⟩ := linearizable hrun h
  exact ⟨hm.mutex.excl, ⟨m, hm.seq, hm.free⟩, fun c => callsOf_eq c h⟩

/-- Cores 0 and 1 clear mailbox 3. Core 1 loads the lock word 0, loses the exclusive store to
core 0, and takes the lock after core 0 has released it and one store has failed for no reason. -/
def twoClears : List (Act (Fin 2) MailboxOp) :=
  [.call 0 ⟨3, .clear⟩, .call 1 ⟨3, .clear⟩, .step 0 true, .step 1 true, .step 0 true,
    .step 1 true, .step 1 true, .step 0 true, .step 0 true, .step 0 true, .step 1 true,
    .step 1 false, .step 1 true, .step 1 true, .step 1 true, .step 1 true, .step 1 true]

theorem mailbox_operations_atomic_twoClears :
    let mpidr : Fin 2 → DWord := fun c => BitVec.ofNat 64 c.val
    let mb₀ : Fin 4 → Mailbox := fun _ => ⟨0, 0, 0, 0, 0, Vector.replicate 32 0⟩
    let hist : List (Fin 2 × MailboxOp × Outcome) :=
      [(0, ⟨3, .clear⟩, ⟨0, none⟩), (1, ⟨3, .clear⟩, ⟨0, none⟩)]
    ∃ m, exec (seqStep (mailboxClient secretKey mpidr) (runOp secretKey mpidr))
      (fun d => mailboxInit (mb₀ d)) hist = some m := by
  intro mpidr mb₀ hist
  have heval : (exec (step (mailboxClient secretKey mpidr)) (init fun d => mailboxInit (mb₀ d))
      twoClears).map State.hist = some hist := by decide +kernel
  obtain ⟨s, hrun, hhist⟩ := Option.map_eq_some_iff.1 heval
  obtain ⟨-, ⟨m, hm, -⟩, -⟩ := mailbox_operations_atomic secretKey mpidr mb₀ twoClears s hrun
  exact ⟨m, hhist ▸ hm⟩

end Gateway
