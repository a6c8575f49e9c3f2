import Gateway.RingBuffer.Spsc
import Gateway.RingBuffer.Wiring

/-!
# Waking up Core 2

The ring buffer test of `secondary_main`: Core 1 announces itself, puts the letters A to J and parks;
Core 2 announces itself and gets ten bytes, and when it finds the ring empty it executes `wfe`. A core
in `wfe` sleeps until its event register is set, and clears it; `sev` sets all event registers. Only
`spinlock_release` executes `sev`: the comment at the `wfe` says that Core 1 fires SEV, but Core 1
executes none after its last announcement, and `ring_buffer_put` has none.

So if Core 2 executes its `wfe` with its event register clear when Core 1 has made its last
announcement, it sleeps for ever, with bytes in the ring once Core 1 has parked
(`no_lost_wakeup_iff`). The accesses to the ring are single steps; the lock of the console is taken
in one step, and what is printed is left out.
-/

namespace Gateway

open Runs CyclicQueue

/-! ## The machine -/

/-- A core prints: `spinlock_acquire`, the prints and the store that ends `spinlock_release`, its
`sev`. -/
inductive PrintPc where
  | acquire
  | unlock
  | sev
  deriving DecidableEq

/-- Core 1 in `secondary_main`. -/
inductive Core1Pc where
  /-- The first or the second announcement. -/
  | announce (again : Bool) (pc : PrintPc)
  /-- In the loop that puts the letters. -/
  | push
  /-- At the last `wfe`. -/
  | wfe
  /-- Asleep in it. -/
  | asleep
  deriving DecidableEq

/-- Core 2 in `secondary_main`. -/
inductive Core2Pc where
  | announce (again : Bool) (pc : PrintPc)
  /-- At the start of the loop or in its `ring_buffer_get`. -/
  | poll
  /-- Prints the byte it has got. -/
  | got (pc : PrintPc)
  /-- At the `wfe` of the loop. -/
  | wfe
  | asleep
  /-- Prints that the test is complete. -/
  | complete (pc : PrintPc)
  /-- At the last `wfe`. -/
  | park
  | parked
  deriving DecidableEq

structure RingTest where
  ring : RingState (Fin 4)
  /-- The console lock. -/
  locked : Bool
  /-- The event registers. -/
  event : Fin 4 → Bool
  core1 : Core1Pc
  letter : Byte
  core2 : Core2Pc
  received : ℕ

inductive TestAct where
  | core1
  | core2
  deriving DecidableEq

namespace RingTest

/-- A step of a core that prints: it goes on with `goto`, or with `done` behind its `sev`. -/
def print (s : RingTest) (pc : PrintPc) (goto : RingTest → PrintPc → RingTest)
    (done : RingTest → RingTest) : RingTest :=
  match pc with
  | .acquire => if s.locked then s else goto { s with locked := true } .unlock
  | .unlock => goto { s with locked := false } .sev
  | .sev => done { s with event := fun _ => true }

/-- `wfe` on core `c`, which goes on with `awake` or falls asleep. -/
def waitForEvent (s : RingTest) (c : Fin 4) (awake asleep : RingTest → RingTest) : RingTest :=
  if s.event c then awake { s with event := Function.update s.event c false } else asleep s

/-- A core that sleeps in `wfe` goes on when its event register is set. -/
def wake (s : RingTest) (c : Fin 4) (awake : RingTest → RingTest) : Option RingTest :=
  if s.event c then some (awake { s with event := Function.update s.event c false }) else none

def core1Step (s : RingTest) : Option RingTest :=
  match s.core1 with
  | .announce again pc =>
    some (s.print pc (fun s pc => { s with core1 := .announce again pc })
      fun s => { s with core1 := if again then .push else .announce true .acquire })
  | .push =>
    if s.ring.pc 1 ≠ .idle then (ringStep s.ring (.access 1)).map fun ring => { s with ring }
    else if s.letter ≤ 0x4A then
      (ringStep s.ring (.put 1 s.letter)).map fun ring => { s with ring, letter := s.letter + 1 }
    else some { s with core1 := .wfe }
  | .wfe => some (s.waitForEvent 1 id fun s => { s with core1 := .asleep })
  | .asleep => s.wake 1 fun s => { s with core1 := .wfe }

/-- Core 2 after an access of `ring_buffer_get`, which may have returned. -/
def afterGet : Option (Event Byte) → Core2Pc
  | some (.get _) => .got .acquire
  | some _ => .wfe
  | none => .poll

def core2Step (s : RingTest) : Option RingTest :=
  match s.core2 with
  | .announce again pc =>
    some (s.print pc (fun s pc => { s with core2 := .announce again pc })
      fun s => { s with core2 := if again then .poll else .announce true .acquire })
  | .poll =>
    if s.ring.pc 2 ≠ .idle then
      (ringStep s.ring (.access 2)).map fun ring =>
        { s with ring, core2 := afterGet (resultOf s.ring ring) }
    else if s.received < 10 then (ringStep s.ring (.get 2)).map fun ring => { s with ring }
    else some { s with core2 := .complete .acquire }
  | .got pc =>
    some (s.print pc (fun s pc => { s with core2 := .got pc })
      fun s => { s with core2 := .poll, received := s.received + 1 })
  | .wfe => some (s.waitForEvent 2 (fun s => { s with core2 := .poll })
      fun s => { s with core2 := .asleep })
  | .asleep => s.wake 2 fun s => { s with core2 := .poll }
  | .complete pc =>
    some (s.print pc (fun s pc => { s with core2 := .complete pc })
      fun s => { s with core2 := .park })
  | .park => some (s.waitForEvent 2 id fun s => { s with core2 := .parked })
  | .parked => s.wake 2 fun s => { s with core2 := .park }

def step (s : RingTest) : TestAct → Option RingTest
  | .core1 => s.core1Step
  | .core2 => s.core2Step

/-- After `ring_buffer_init`, with both cores at their first announcement. -/
def start (rb₀ : RingBuffer) (event : Fin 4 → Bool) : RingTest where
  ring := ringStart rb₀
  locked := false
  event
  core1 := .announce false .acquire
  letter := 0x41
  core2 := .announce false .acquire
  received := 0

/-! ## The statement -/

/-- Core 1 has put its letters and is parked. -/
def Core1Parked (s : RingTest) : Prop := s.core1 = .wfe ∨ s.core1 = .asleep

/-- Core 2 sleeps in a `wfe`. -/
def Core2Asleep (s : RingTest) : Prop := s.core2 = .asleep ∨ s.core2 = .parked

/-- Core 1 is parked while Core 2 sleeps with no event to wake it, though there are bytes in the
ring. -/
def LostWakeup (s : RingTest) : Prop :=
  s.Core1Parked ∧ s.Core2Asleep ∧ s.event 2 = false ∧ s.ring.rb.queue ≠ []

/-- Core 1 has executed the `sev` of its last announcement. -/
def Announced (s : RingTest) : Prop := s.core1 = .push ∨ s.Core1Parked

/-- The step is not a `wfe` in the loop of Core 2 with the event register clear, once Core 1 has
executed its last `sev`. -/
def InTime (s : RingTest) (a : TestAct) : Prop :=
  a = .core2 → s.core2 = .wfe → s.Announced → s.event 2 = true

instance (s : RingTest) (a : TestAct) : Decidable (s.InTime a) := by
  unfold InTime Announced Core1Parked
  infer_instance

/-! ## What a step does -/

variable {s s' : RingTest} {a : TestAct}

/-- A core that prints waits for the lock, goes on, or has executed `sev`. -/
theorem print_cases (s : RingTest) (pc : PrintPc) (goto : RingTest → PrintPc → RingTest)
    (done : RingTest → RingTest) :
    s.print pc goto done = s ∨ (∃ b pc', s.print pc goto done = goto { s with locked := b } pc') ∨
      s.print pc goto done = done { s with event := fun _ => true } := by
  cases pc with
  | acquire =>
    by_cases hl : s.locked = true
    · exact .inl (if_pos hl)
    · exact .inr (.inl ⟨true, .unlock, if_neg hl⟩)
  | unlock => exact .inr (.inl ⟨false, .sev, rfl⟩)
  | sev => exact .inr (.inr rfl)

/-- A step of Core 1 outside the ring. -/
structure Core1Move (s s' : RingTest) : Prop where
  ring : s'.ring = s.ring
  letter : s'.letter = s.letter
  core2 : s'.core2 = s.core2
  received : s'.received = s.received
  parks : s'.Core1Parked → s.Core1Parked ∨ ¬ s.letter ≤ 0x4A ∧ s.ring.pc 1 = .idle
  parked : s.Core1Parked → s'.Core1Parked
  /-- Before its last `sev`, Core 1 may set the event registers; that `sev` does. -/
  announces : ¬ s.Announced → s'.Announced → s'.event 2 = true
  /-- After it, it leaves the one of Core 2 alone. -/
  announced : s.Announced → s'.Announced ∧ s'.event 2 = s.event 2

/-- A step of Core 1 inside `ring_buffer_put`, or a call of it. -/
inductive Core1Put (s : RingTest) : RingTest → Prop where
  | access {ring : RingState (Fin 4)} (h : s.ring.access 1 = some ring) :
      Core1Put s { s with ring, core1 := .push }
  | call (hidle : s.ring.pc 1 = .idle) (hletter : s.letter ≤ 0x4A) :
      Core1Put s { s with
        ring := s.ring.goto 1 s.ring.rb (.putHead s.letter), core1 := .push
        letter := s.letter + 1 }

theorem core1Step_cases (h : s.core1Step = some s') :
    Core1Move s s' ∨ s.core1 = .push ∧ Core1Put s s' := by
  have hupdate : ∀ b, Function.update s.event 1 b 2 = s.event 2 :=
    fun b => Function.update_of_ne (by decide) ..
  unfold core1Step at h
  cases hpc : s.core1 with
  | announce again pc =>
    rw [hpc] at h
    obtain rfl := Option.some.inj h
    have hnot : ¬ s.Announced := by simp [Announced, Core1Parked, hpc]
    refine .inl ?_
    obtain heq | ⟨b, pc', heq⟩ | heq := s.print_cases pc _ _
    · rw [heq]
      exact ⟨rfl, rfl, rfl, rfl, .inl, id, fun h h' => absurd h' h, fun h => ⟨h, rfl⟩⟩
    · rw [heq]
      exact ⟨rfl, rfl, rfl, rfl, fun h => by simp [Core1Parked] at h, fun h => absurd (.inr h) hnot,
        fun _ h => by simp [Announced, Core1Parked] at h, fun h => absurd h hnot⟩
    · rw [heq]
      exact ⟨rfl, rfl, rfl, rfl, fun h => by cases again <;> simp [Core1Parked] at h,
        fun h => absurd (.inr h) hnot, fun _ _ => rfl, fun h => absurd h hnot⟩
  | push =>
    rw [hpc] at h
    dsimp only at h
    by_cases hidle : s.ring.pc 1 = .idle
    · rw [if_neg (not_not.2 hidle)] at h
      by_cases hletter : s.letter ≤ 0x4A
      · rw [if_pos hletter, ringStep, if_pos hidle] at h
        obtain rfl := Option.some.inj h
        exact .inr ⟨rfl, .call hidle hletter⟩
      · rw [if_neg hletter] at h
        obtain rfl := Option.some.inj h
        exact .inl ⟨rfl, rfl, rfl, rfl, fun _ => .inr ⟨hletter, hidle⟩, fun _ => .inl rfl,
          fun h => absurd (.inl hpc) h, fun _ => ⟨.inr (.inl rfl), rfl⟩⟩
    · rw [if_pos hidle] at h
      obtain ⟨ring, hring, rfl⟩ := Option.map_eq_some_iff.1 h
      exact .inr ⟨rfl, .access hring⟩
  | wfe =>
    rw [hpc] at h
    obtain rfl := Option.some.inj h
    have hparked : s.Core1Parked := .inl hpc
    unfold waitForEvent
    refine .inl ?_
    split
    · exact ⟨rfl, rfl, rfl, rfl, fun _ => .inl hparked, id, fun h => absurd (.inr hparked) h,
        fun h => ⟨h, hupdate false⟩⟩
    · exact ⟨rfl, rfl, rfl, rfl, fun _ => .inl hparked, fun _ => .inr rfl,
        fun h => absurd (.inr hparked) h, fun _ => ⟨.inr (.inr rfl), rfl⟩⟩
  | asleep =>
    rw [hpc] at h
    have hparked : s.Core1Parked := .inr hpc
    obtain ⟨-, h⟩ := Option.ite_none_right_eq_some.1 h
    obtain rfl := Option.some.inj h
    exact .inl ⟨rfl, rfl, rfl, rfl, fun _ => .inl hparked, fun _ => .inl rfl,
      fun h => absurd (.inr hparked) h, fun _ => ⟨.inr (.inl rfl), hupdate false⟩⟩

/-! ## The bytes -/

section Ring

variable {ring ring' : RingState (Fin 4)}

theorem ret_accepted (t : Fin 4) (rb : RingBuffer) (e : Event Byte) :
    (ring.ret t rb e).accepted = ring.accepted ++ puts [e] := by
  unfold RingState.accepted events
  rw [ret_log, List.map_append, puts_append]
  rfl

theorem ret_returned (t : Fin 4) (rb : RingBuffer) (e : Event Byte) :
    (ring.ret t rb e).returned = ring.returned ++ gets [e] := by
  unfold RingState.returned events
  rw [ret_log, List.map_append, gets_append]
  rfl

theorem resultOf_goto (t : Fin 4) (rb : RingBuffer) (pc : Pc) :
    resultOf ring (ring.goto t rb pc) = none := by
  unfold resultOf
  rw [goto_log, List.drop_length]
  rfl

theorem resultOf_ret (t : Fin 4) (rb : RingBuffer) (e : Event Byte) :
    resultOf ring (ring.ret t rb e) = some e := by
  unfold resultOf
  rw [ret_log, List.drop_left]
  rfl

/-- The ring when Core 1 has put some letters and Core 2 has got some of them. -/
structure RingOk (ring : RingState (Fin 4)) : Prop where
  lin : ∃ l, Linearized ring l
  sides : Sides 1 2 ring

theorem RingOk.step {a : RingAct (Fin 4)} (h : RingOk ring) (ha : Spsc 1 2 a)
    (hs : ringStep ring a = some ring') : RingOk ring' := by
  obtain ⟨l, hl⟩ := h.lin
  exact ⟨⟨_, linearized_step hl (h.sides.undisturbed a) hs⟩, sides_step h.sides ha hs⟩

/-- A thread that makes an access is inside a call. -/
theorem access_busy {t : Fin 4} (hs : ring.access t = some ring') : ring.pc t ≠ .idle := by
  intro hidle
  unfold RingState.access at hs
  rw [hidle] at hs
  cases hs

theorem isPut_of_not_get {pc : Pc} (hne : pc ≠ .idle) (h : pc.isGet = false) :
    pc.isPut = true := by
  cases pc <;> first | rfl | exact absurd rfl hne | cases h

theorem isGet_of_not_put {pc : Pc} (hne : pc ≠ .idle) (h : pc.isPut = false) :
    pc.isGet = true := by
  cases pc <;> first | rfl | exact absurd rfl hne | cases h

/-- An access of Core 1 goes on with its put or ends it, and there is room. -/
theorem RingOk.access_put (h : RingOk ring) (hlen : ring.accepted.length < 255)
    (hs : ring.access 1 = some ring') :
    (∃ rb pc, pc ≠ .idle ∧ ring' = ring.goto 1 rb pc) ∨
      ∃ rb c, ring' = ring.ret 1 rb (.put c) := by
  obtain ⟨l, hl⟩ := h.lin
  have hget : (ring.pc 1).isGet = false := by
    by_contra hne
    exact absurd (h.sides.get 1 (Bool.not_eq_false _ ▸ hne)) (by decide)
  obtain ⟨rb, pc, rfl, -, hput, -⟩ | ⟨rb, e, rfl, -, hmay⟩ := access_cases hs
  · refine .inl ⟨rb, pc, ?_, rfl⟩
    rintro rfl
    rw [isPut_of_not_get (access_busy hs) hget] at hput
    cases hput
  · refine .inr ⟨rb, ?_⟩
    cases e with
    | put c => exact ⟨c, rfl⟩
    | full c =>
      -- the ring is not full
      have hpc : ring.pc 1 = .putTail c ring.rb.tail := hmay
      have hholds := hl.inv.holds 1
      rw [hpc] at hholds
      have hfull := (RingBuffer.length_queue_full hl.inv.inRange).2 hholds.symm
      have hlen' := congrArg List.length hl.accepted_eq.1
      rw [List.length_append] at hlen'
      omega
    | get c =>
      obtain ⟨nextTail, hpc⟩ := hmay
      rw [hpc] at hget
      cases hget
    | empty =>
      have hpc : ring.pc 1 = .getTail ring.rb.tail := hmay
      rw [hpc] at hget
      cases hget

/-- An access of Core 2 goes on with its get or ends it. -/
theorem RingOk.access_get (h : RingOk ring) (hs : ring.access 2 = some ring') :
    (∃ rb pc, pc ≠ .idle ∧ ring' = ring.goto 2 rb pc) ∨
      (∃ rb c, ring' = ring.ret 2 rb (.get c)) ∨ ∃ rb, ring' = ring.ret 2 rb .empty := by
  have hput : (ring.pc 2).isPut = false := by
    by_contra hne
    exact absurd (h.sides.put 2 (Bool.not_eq_false _ ▸ hne)) (by decide)
  obtain ⟨rb, pc, rfl, -, -, hget⟩ | ⟨rb, e, rfl, -, hmay⟩ := access_cases hs
  · refine .inl ⟨rb, pc, ?_, rfl⟩
    rintro rfl
    rw [isGet_of_not_put (access_busy hs) hput] at hget
    cases hget
  · refine .inr ?_
    cases e with
    | get c => exact .inl ⟨rb, c, rfl⟩
    | empty => exact .inr ⟨rb, rfl⟩
    | put c =>
      obtain ⟨nextHead, hpc⟩ := hmay
      rw [hpc] at hput
      cases hput
    | full c =>
      have hpc : ring.pc 2 = .putTail c ring.rb.tail := hmay
      rw [hpc] at hput
      cases hput

end Ring

/-! ## The invariant -/

/-- What the place of Core 2 says about the bytes it has received and about its thread. -/
def Core2Knows (received : ℕ) (pc : Pc) : Core2Pc → Prop
  | .poll => received ≤ 10 ∧ (pc ≠ .idle → received < 10)
  | .announce .. | .got _ | .wfe | .asleep => received < 10 ∧ pc = .idle
  | .complete _ | .park | .parked => received = 10 ∧ pc = .idle

/-- A call is under way. -/
def inCall (pc : Pc) : ℕ := if pc = .idle then 0 else 1

/-- A byte has been got that is not yet counted as received. -/
def uncounted : Core2Pc → ℕ
  | .got _ => 1
  | _ => 0

/-- Every letter passed is in the ring or was received; none is refused. -/
structure Inv (s : RingTest) : Prop where
  ring : RingOk s.ring
  put : s.ring.accepted.length + inCall (s.ring.pc 1) + 0x41 = s.letter.toNat
  letter : s.letter.toNat ≤ 0x4B
  parked : s.Core1Parked → s.letter.toNat = 0x4B ∧ s.ring.pc 1 = .idle
  got : s.ring.returned.length = s.received + uncounted s.core2
  core2 : Core2Knows s.received (s.ring.pc 2) s.core2

theorem inv_start (rb₀ : RingBuffer) (event : Fin 4 → Bool) : Inv (start rb₀ event) where
  ring := ⟨⟨_, linearized_start rb₀⟩, sides_start 1 2 rb₀⟩
  put := rfl
  letter := (by decide : (0x41 : Byte).toNat ≤ 0x4B)
  parked h := by simp [Core1Parked, start] at h
  got := rfl
  core2 := ⟨(by decide : 0 < 10), rfl⟩

/-- The byte of a letter that Core 1 puts. -/
theorem toNat_succ {letter : Byte} (h : letter ≤ 0x4A) : (letter + 1).toNat = letter.toNat + 1 := by
  have hle : letter.toNat ≤ 0x4A := h
  rw [BitVec.toNat_add]
  show (letter.toNat + 1) % 256 = _
  omega

/-- A step of Core 1 outside the ring. -/
theorem Inv.move (h : Inv s) (hm : Core1Move s s') : Inv s' := by
  obtain ⟨hring, hletter, hcore2, hreceived, hparked, -, -, -⟩ := hm
  constructor
  · rw [hring]; exact h.ring
  · rw [hring, hletter]; exact h.put
  · rw [hletter]; exact h.letter
  · intro hp
    rw [hring, hletter]
    obtain hp | ⟨hlast, hidle⟩ := hparked hp
    · exact h.parked hp
    · have hlt : 0x4A < s.letter.toNat := Nat.lt_of_not_le hlast
      have hle := h.letter
      exact ⟨by omega, hidle⟩
  · rw [hring, hreceived, hcore2]; exact h.got
  · rw [hring, hreceived, hcore2]; exact h.core2

/-- A step of Core 1 in the ring: it gets nothing, and the other core does not move. -/
theorem Inv.of_put (h : Inv s) {ring : RingState (Fin 4)} {letter : Byte} (hok : RingOk ring)
    (htwo : ring.pc 2 = s.ring.pc 2) (hreturned : ring.returned.length = s.ring.returned.length)
    (hput : ring.accepted.length + inCall (ring.pc 1) + 0x41 = letter.toNat)
    (hletter : letter.toNat ≤ 0x4B) : Inv { s with ring, core1 := .push, letter } where
  ring := hok
  put := hput
  letter := hletter
  parked hp := by simp [Core1Parked] at hp
  got := hreturned.trans h.got
  core2 := by
    show Core2Knows _ (ring.pc 2) _
    rw [htwo]
    exact h.core2

theorem Inv.put_step (h : Inv s) (hs : Core1Put s s') : Inv s' := by
  have hput := h.put
  cases hs with
  | access hacc =>
    have hok := h.ring.step (a := .access 1) trivial hacc
    have hcall : inCall (s.ring.pc 1) = 1 := if_neg (access_busy hacc)
    have hletter := h.letter
    obtain ⟨rb, pc, hpc, rfl⟩ | ⟨rb, c, rfl⟩ := h.ring.access_put (by omega) hacc
    · refine h.of_put hok (goto_pc_of_ne _ _ _ (by decide)) rfl ?_ hletter
      show s.ring.accepted.length + inCall ((s.ring.goto 1 rb pc).pc 1) + 0x41 = s.letter.toNat
      rw [goto_pc_self, inCall, if_neg hpc]
      omega
    · refine h.of_put hok (ret_pc_of_ne _ _ _ (by decide)) ?_ ?_ hletter
      · rw [ret_returned]
        exact congrArg List.length (List.append_nil _)
      · rw [ret_pc_self, ret_accepted, List.length_append, inCall, if_pos rfl]
        show s.ring.accepted.length + 1 + 0 + 0x41 = s.letter.toNat
        omega
  | call hidle hle =>
    have hcall : inCall (s.ring.pc 1) = 0 := if_pos hidle
    have hnext := toNat_succ hle
    have hle' : s.letter.toNat ≤ 0x4A := hle
    refine h.of_put (h.ring.step (a := .put 1 s.letter) rfl (if_pos hidle))
      (goto_pc_of_ne _ _ _ (by decide)) rfl ?_ (by omega)
    rw [goto_pc_self, hnext]
    show s.ring.accepted.length + 1 + 0x41 = _
    omega

/-- A step of Core 2 outside the ring. -/
theorem Inv.of_core2 (h : Inv s) {event : Fin 4 → Bool} {locked : Bool} {core2 : Core2Pc}
    {received : ℕ} (hgot : received + uncounted core2 = s.received + uncounted s.core2)
    (hknows : Core2Knows received (s.ring.pc 2) core2) :
    Inv { s with event, locked, core2, received } where
  ring := h.ring
  put := h.put
  letter := h.letter
  parked hp := h.parked hp
  got := h.got.trans hgot.symm
  core2 := hknows

/-- A step of Core 2 in the ring: it puts nothing, and the other core does not move. -/
theorem Inv.of_get (h : Inv s) {ring : RingState (Fin 4)} {core2 : Core2Pc} (hok : RingOk ring)
    (hone : ring.pc 1 = s.ring.pc 1) (haccepted : ring.accepted = s.ring.accepted)
    (hgot : ring.returned.length = s.received + uncounted core2)
    (hknows : Core2Knows s.received (ring.pc 2) core2) : Inv { s with ring, core2 } where
  ring := hok
  put := by
    show ring.accepted.length + inCall (ring.pc 1) + 0x41 = s.letter.toNat
    rw [haccepted, hone]
    exact h.put
  letter := h.letter
  parked hp := by
    show _ ∧ ring.pc 1 = .idle
    rw [hone]
    exact h.parked hp
  got := hgot
  core2 := hknows

theorem Inv.get_access (h : Inv s) (hpc : s.core2 = .poll) {ring : RingState (Fin 4)}
    (hacc : s.ring.access 2 = some ring) :
    Inv { s with ring, core2 := afterGet (resultOf s.ring ring) } := by
  have hok := h.ring.step (a := .access 2) trivial hacc
  have hknows := h.core2
  rw [hpc] at hknows
  have hlt := hknows.2 (access_busy hacc)
  have hgot := h.got
  rw [hpc] at hgot
  obtain ⟨rb, pc, hne, rfl⟩ | ⟨rb, c, rfl⟩ | ⟨rb, rfl⟩ := h.ring.access_get hacc
  · rw [resultOf_goto]
    exact h.of_get hok (goto_pc_of_ne _ _ _ (by decide)) rfl hgot ⟨Nat.le_of_lt hlt, fun _ => hlt⟩
  · rw [resultOf_ret]
    refine h.of_get hok (ret_pc_of_ne _ _ _ (by decide)) ?_ ?_ ⟨hlt, ret_pc_self ..⟩
    · exact (ret_accepted ..).trans (List.append_nil _)
    · rw [ret_returned, List.length_append, hgot]
      rfl
  · rw [resultOf_ret]
    refine h.of_get hok (ret_pc_of_ne _ _ _ (by decide)) ?_ ?_ ⟨hlt, ret_pc_self ..⟩
    · exact (ret_accepted ..).trans (List.append_nil _)
    · rw [ret_returned]
      exact (congrArg List.length (List.append_nil _)).trans hgot

/-- What a step of Core 2 does: an access of `ring_buffer_get`, its call, or a step outside the ring.
Core 2 does not wake up without an event, and it falls asleep at the `wfe` of its loop. -/
inductive Core2Does (s : RingTest) : RingTest → Prop where
  | access {ring : RingState (Fin 4)} (hpc : s.core2 = .poll) (h : s.ring.access 2 = some ring) :
      Core2Does s { s with ring, core2 := afterGet (resultOf s.ring ring) }
  | call (hpc : s.core2 = .poll) (hidle : s.ring.pc 2 = .idle) (hlt : s.received < 10) :
      Core2Does s { s with ring := s.ring.goto 2 s.ring.rb .getHead, core2 := .poll }
  | move {event : Fin 4 → Bool} {locked : Bool} {core2 : Core2Pc} {received : ℕ}
      (hgot : received + uncounted core2 = s.received + uncounted s.core2)
      (hknows : Core2Knows s.received (s.ring.pc 2) s.core2 →
        Core2Knows received (s.ring.pc 2) core2)
      (hawake : s.core2 = .asleep → s.event 2 = true)
      (hasleep : core2 = .asleep → s.core2 = .wfe ∧ s.event 2 = false) :
      Core2Does s { s with event, locked, core2, received }

theorem Core2Does.print {pc : PrintPc} (place : PrintPc → Core2Pc) {core2 : Core2Pc}
    {received : ℕ} (hpc : s.core2 = place pc) (hplace : ∀ pc', place pc' ≠ .asleep)
    (hdone : core2 ≠ .asleep)
    (hsame : ∀ pc', uncounted (place pc') = uncounted (place pc))
    (hstays : ∀ pc', Core2Knows s.received (s.ring.pc 2) (place pc) →
      Core2Knows s.received (s.ring.pc 2) (place pc'))
    (hgot : received + uncounted core2 = s.received + uncounted (place pc))
    (hknows : Core2Knows s.received (s.ring.pc 2) (place pc) →
      Core2Knows received (s.ring.pc 2) core2) :
    Core2Does s (s.print pc (fun s pc => { s with core2 := place pc })
      fun s => { s with core2, received }) := by
  have hawake : s.core2 = .asleep → s.event 2 = true := fun h => absurd (hpc ▸ h) (hplace pc)
  obtain heq | ⟨b, pc', heq⟩ | heq := s.print_cases pc (fun s pc => { s with core2 := place pc })
    fun s => { s with core2, received }
  · rw [heq]
    exact .move rfl id hawake fun h => absurd (hpc ▸ h) (hplace pc)
  · rw [heq]
    refine .move ?_ ?_ hawake fun h => absurd h (hplace pc')
    · rw [hsame pc', hpc]
    · rw [hpc]
      exact hstays pc'
  · rw [heq]
    refine .move ?_ ?_ hawake fun h => absurd h hdone
    · rw [hpc]
      exact hgot
    · rw [hpc]
      exact hknows

theorem core2Step_cases (hs : s.core2Step = some s') : Core2Does s s' := by
  unfold core2Step at hs
  cases hpc : s.core2 with
  | announce again pc =>
    rw [hpc] at hs
    obtain rfl := Option.some.inj hs
    refine .print (.announce again) hpc (fun _ h => nomatch h) ?_ (fun _ => rfl)
      (fun _ h => h) ?_ ?_
    · cases again <;> exact fun h => nomatch h
    · cases again <;> rfl
    · cases again with
      | false => exact id
      | true => exact fun h => ⟨Nat.le_of_lt h.1, fun _ => h.1⟩
  | poll =>
    rw [hpc] at hs
    dsimp only at hs
    by_cases hidle : s.ring.pc 2 = .idle
    · rw [if_neg (not_not.2 hidle)] at hs
      by_cases hlt : s.received < 10
      · rw [if_pos hlt, ringStep, if_pos hidle] at hs
        obtain rfl := Option.some.inj hs
        exact .call hpc hidle hlt
      · rw [if_neg hlt] at hs
        obtain rfl := Option.some.inj hs
        refine .move (by rw [hpc]; rfl) ?_ (fun h => by rw [hpc] at h; cases h) fun h => nomatch h
        rw [hpc]
        exact fun h => ⟨Nat.le_antisymm h.1 (Nat.le_of_not_lt hlt), hidle⟩
    · rw [if_pos hidle] at hs
      obtain ⟨ring, hring, rfl⟩ := Option.map_eq_some_iff.1 hs
      exact .access hpc hring
  | got pc =>
    rw [hpc] at hs
    obtain rfl := Option.some.inj hs
    exact .print .got hpc (fun _ h => nomatch h) (fun h => nomatch h) (fun _ => rfl)
      (fun _ h => h) rfl fun h => ⟨h.1, fun hbusy => absurd h.2 hbusy⟩
  | wfe =>
    rw [hpc] at hs
    obtain rfl := Option.some.inj hs
    unfold waitForEvent
    split
    · refine .move (by rw [hpc]; rfl) ?_ (fun h => by rw [hpc] at h; cases h) fun h => nomatch h
      rw [hpc]
      exact fun h => ⟨Nat.le_of_lt h.1, fun _ => h.1⟩
    · next hevent =>
      refine .move (by rw [hpc]; rfl) ?_ (fun h => by rw [hpc] at h; cases h) fun _ => ⟨hpc, ?_⟩
      · rw [hpc]
        exact id
      · exact Bool.eq_false_iff.2 hevent
  | asleep =>
    rw [hpc] at hs
    obtain ⟨hevent, hs⟩ := Option.ite_none_right_eq_some.1 hs
    obtain rfl := Option.some.inj hs
    refine .move (by rw [hpc]; rfl) ?_ (fun _ => hevent) fun h => nomatch h
    rw [hpc]
    exact fun h => ⟨Nat.le_of_lt h.1, fun _ => h.1⟩
  | complete pc =>
    rw [hpc] at hs
    obtain rfl := Option.some.inj hs
    exact .print .complete hpc (fun _ h => nomatch h) (fun h => nomatch h)
      (fun _ => rfl) (fun _ h => h) rfl id
  | park =>
    rw [hpc] at hs
    obtain rfl := Option.some.inj hs
    unfold waitForEvent
    split
    · exact .move rfl id (fun h => by rw [hpc] at h; cases h) fun h => by rw [hpc] at h; cases h
    · refine .move (by rw [hpc]; rfl) ?_ (fun h => by rw [hpc] at h; cases h) fun h => nomatch h
      rw [hpc]
      exact id
  | parked =>
    rw [hpc] at hs
    obtain ⟨-, hs⟩ := Option.ite_none_right_eq_some.1 hs
    obtain rfl := Option.some.inj hs
    refine .move (by rw [hpc]; rfl) ?_ (fun h => by rw [hpc] at h; cases h) fun h => nomatch h
    rw [hpc]
    exact id

theorem Inv.core2_step (h : Inv s) (hs : Core2Does s s') : Inv s' := by
  cases hs with
  | access hpc hacc => exact h.get_access hpc hacc
  | call hpc hidle hlt =>
    have hgot := h.got
    rw [hpc] at hgot
    exact h.of_get (h.ring.step (a := .get 2) rfl (if_pos hidle)) (goto_pc_of_ne _ _ _ (by decide))
      rfl hgot ⟨Nat.le_of_lt hlt, fun _ => hlt⟩
  | move hgot hknows hawake hasleep => exact h.of_core2 hgot (hknows h.core2)

theorem Inv.step (h : Inv s) (hs : s.step a = some s') : Inv s' := by
  cases a with
  | core1 =>
    obtain hm | ⟨-, hp⟩ := core1Step_cases hs
    · exact h.move hm
    · exact h.put_step hp
  | core2 => exact h.core2_step (core2Step_cases hs)

/-! ## Falling asleep -/

/-- Core 2 does not sleep in its loop without an event once Core 1 has announced itself. -/
def Awake (s : RingTest) : Prop := s.Announced → s.core2 = .asleep → s.event 2 = true

/-- Core 2 sleeps in its loop, and no event will come. -/
def Doomed (s : RingTest) : Prop := s.Announced ∧ s.core2 = .asleep ∧ s.event 2 = false

theorem Awake.step (h : s.Awake) (hG : s.InTime a) (hs : s.step a = some s') : s'.Awake := by
  intro hann hasleep
  cases a with
  | core1 =>
    obtain hm | ⟨hpush, hp⟩ := core1Step_cases hs
    · rw [hm.core2] at hasleep
      by_cases hs₀ : s.Announced
      · rw [(hm.announced hs₀).2]
        exact h hs₀ hasleep
      · exact hm.announces hs₀ hann
    · cases hp <;> exact h (.inl hpush) hasleep
  | core2 =>
    cases core2Step_cases hs with
    | access hpc hacc =>
      exfalso
      unfold afterGet at hasleep
      dsimp only at hasleep
      split at hasleep <;> cases hasleep
    | call hpc hidle hlt => cases hasleep
    | move hgot hknows hawake hfalls =>
      obtain ⟨hwfe, hevent⟩ := hfalls hasleep
      rw [hG rfl hwfe hann] at hevent
      cases hevent

theorem Doomed.step (h : s.Doomed) (hs : s.step a = some s') : s'.Doomed := by
  obtain ⟨hann, hasleep, hevent⟩ := h
  cases a with
  | core1 =>
    obtain hm | ⟨-, hp⟩ := core1Step_cases hs
    · obtain ⟨hann', hevent'⟩ := hm.announced hann
      refine ⟨hann', ?_, ?_⟩
      · rw [hm.core2, hasleep]
      · rw [hevent', hevent]
    · cases hp <;> exact ⟨.inl rfl, hasleep, hevent⟩
  | core2 =>
    cases core2Step_cases hs with
    | access hpc hacc =>
      rw [hpc] at hasleep
      cases hasleep
    | call hpc hidle hlt =>
      rw [hpc] at hasleep
      cases hasleep
    | move hgot hknows hawake hfalls =>
      rw [hawake hasleep] at hevent
      cases hevent

/-- A `wfe` that is not in time puts Core 2 to sleep. -/
theorem doomed_of_late (hG : ¬ s.InTime a) (hs : s.step a = some s') : s'.Doomed := by
  simp only [InTime, not_forall] at hG
  obtain ⟨rfl, hwfe, hann, hevent⟩ := hG
  have hevent' : ¬ s.event 2 = true := hevent
  unfold RingTest.step core2Step at hs
  dsimp only at hs
  rw [hwfe] at hs
  dsimp only at hs
  rw [waitForEvent, if_neg hevent'] at hs
  obtain rfl := Option.some.inj hs
  exact ⟨hann, rfl, Bool.eq_false_iff.2 hevent'⟩

/-- Core 1 stays parked. -/
theorem Core1Parked.step (h : s.Core1Parked) (hs : s.step a = some s') : s'.Core1Parked := by
  cases a with
  | core1 =>
    obtain hm | ⟨hpush, -⟩ := core1Step_cases hs
    · exact hm.parked h
    · simp [Core1Parked, hpush] at h
  | core2 => cases core2Step_cases hs <;> exact h

/-- When Core 1 is parked, the letters that Core 2 has not received are in the ring. -/
theorem Inv.queue_length (h : Inv s) (hp : s.Core1Parked) (hg : uncounted s.core2 = 0) :
    s.received + s.ring.rb.queue.length = 10 := by
  obtain ⟨l, hl⟩ := h.ring.lin
  obtain ⟨hletter, hidle⟩ := h.parked hp
  have hput := h.put
  have hgot := h.got
  have hlen := congrArg List.length hl.accepted_eq.1
  rw [hidle, hletter] at hput
  rw [hg] at hgot
  rw [List.length_append] at hlen
  change s.ring.accepted.length + 0 + 0x41 = 0x4B at hput
  omega

/-- **Lost wake-ups.** A run in which Core 1 has parked loses the wake-up of Core 2 if and only if
Core 2 has executed the `wfe` of its loop with its event register clear after the last `sev` of
Core 1. -/
theorem no_lost_wakeup_iff (rb₀ : RingBuffer) (event : Fin 4 → Bool) {acts : List TestAct}
    (hexec : exec RingTest.step (start rb₀ event) acts = some s) :
    (∀ pre u, pre <+: acts → exec RingTest.step (start rb₀ event) pre = some u →
        ¬ u.LostWakeup) ↔
      (s.Core1Parked → Along RingTest.step InTime (start rb₀ event) acts) := by
  have hinv : ∀ {pre u}, exec RingTest.step (start rb₀ event) pre = some u → u.Inv :=
    fun hu => exec_invariant (fun _ _ _ h hs => Inv.step h hs) (inv_start rb₀ event) hu
  constructor
  · intro hno hparked
    refine along_of_forall_prefix fun pre a u hpre hu _ => ?_
    by_contra hlate
    -- once it is late, Core 2 sleeps until the end of the run
    obtain ⟨post, rfl⟩ := hpre
    obtain ⟨v, hv, hpost⟩ := exec_append_eq_some.1 hexec
    obtain ⟨u', hu', hstep⟩ := exec_concat_eq_some.1 hv
    obtain rfl := Option.some.inj (hu.symm.trans hu')
    obtain ⟨-, hasleep, hevent⟩ : s.Doomed :=
      exec_invariant (fun _ _ _ h hs => Doomed.step h hs) (doomed_of_late hlate hstep) hpost
    have hs := hinv hexec
    have hknows := hs.core2
    rw [hasleep] at hknows
    have hlen := hs.queue_length hparked (by rw [hasleep]; rfl)
    refine hno _ s (List.prefix_refl _) hexec ⟨hparked, .inl hasleep, hevent, fun hnil => ?_⟩
    rw [hnil] at hlen
    exact absurd hlen (Nat.ne_of_lt hknows.1)
  · rintro htime pre u hpre hu ⟨hparked, hasleep, hevent, hne⟩
    have hparked' : s.Core1Parked := by
      obtain ⟨post, rfl⟩ := hpre
      obtain ⟨v, hv, hpost⟩ := exec_append_eq_some.1 hexec
      obtain rfl := Option.some.inj (hu.symm.trans hv)
      exact exec_invariant (fun _ _ _ h hs => Core1Parked.step h hs) hparked hpost
    have hstart : (start rb₀ event).Awake := fun h => by simp [Announced, Core1Parked, start] at h
    have hawake : u.Awake := exec_invariant_along (fun _ _ _ h hG hs => Awake.step h hG hs) hstart
      ((htime hparked').initial hpre hu) hu
    obtain hasleep | hasleep := hasleep
    · rw [hawake (.inr hparked) hasleep] at hevent
      cases hevent
    · have hknows := (hinv hu).core2
      rw [hasleep] at hknows
      have hlen := (hinv hu).queue_length hparked (by rw [hasleep]; rfl)
      rw [hknows.1] at hlen
      exact hne (List.length_eq_zero_iff.1 (by omega))

/-- Core 1 announces itself twice, puts its letters and parks. -/
def announce : List TestAct := List.replicate 6 .core1

def pushAll : List TestAct := List.replicate 61 .core1

/-- Core 2 finds the ring empty twice and falls asleep in its second `wfe` before Core 1 announces
itself, whose `sev` wakes it. Then Core 1 puts its letters, and Core 2 gets all of them. -/
def earlySleep : List TestAct :=
  List.replicate 14 .core2 ++ announce ++ [.core2] ++ pushAll ++ List.replicate 104 .core2

theorem no_lost_wakeup_iff_early : ∃ s,
    exec RingTest.step (start ⟨0, 0, fun _ => 0⟩ fun _ => false) earlySleep = some s ∧
      s.core1 = .wfe ∧ s.core2 = .park ∧ s.received = 10 ∧ ∀ pre u, pre <+: earlySleep →
        exec RingTest.step (start ⟨0, 0, fun _ => 0⟩ fun _ => false) pre = some u →
          ¬ u.LostWakeup := by
  have heval : (exec RingTest.step (start ⟨0, 0, fun _ => 0⟩ fun _ => false) earlySleep).map
      (fun s => (s.core1, s.core2, s.received)) = some (.wfe, .park, 10) := by decide +kernel
  obtain ⟨s, hs, heval⟩ := Option.map_eq_some_iff.1 heval
  simp only [Prod.mk.injEq] at heval
  obtain ⟨hcore1, hcore2, hreceived⟩ := heval
  exact ⟨s, hs, hcore1, hcore2, hreceived,
    (no_lost_wakeup_iff _ _ hs).2 fun _ => by decide +kernel⟩

/-- Both cores announce themselves. Core 2 finds the ring empty twice: the first `wfe` uses up the
event of its own `spinlock_release`, and in the second it falls asleep. Then Core 1 puts its letters
and parks. -/
def lateSleep : List TestAct :=
  announce ++ List.replicate 6 .core2 ++ List.replicate 8 .core2 ++ pushAll

theorem wakeup_lost : ¬ ∀ (rb₀ : RingBuffer) (event : Fin 4 → Bool) (acts : List TestAct)
    (s : RingTest), exec RingTest.step (start rb₀ event) acts = some s → ¬ s.LostWakeup := by
  intro hall
  have heval : (exec RingTest.step (start ⟨0, 0, fun _ => 0⟩ fun _ => false) lateSleep).map
      (fun s => (s.core1, s.core2, s.event 2, s.ring.rb.queue.length)) =
      some (.wfe, .asleep, false, 10) := by decide +kernel
  obtain ⟨s, hs, heval⟩ := Option.map_eq_some_iff.1 heval
  simp only [Prod.mk.injEq] at heval
  obtain ⟨hcore1, hcore2, hevent, hlen⟩ := heval
  refine hall _ _ _ s hs ⟨.inl hcore1, .inl hcore2, hevent, fun hnil => ?_⟩
  rw [hnil] at hlen
  cases hlen

end RingTest

end Gateway
