import Gateway.RingBuffer.Linearization

/-!
# The ring buffer under races

Nothing keeps two producers or two consumers apart, and then bytes are lost and returned twice
(`Gateway.RingBuffer.Wiring`). But every index that a call stores or uses has been masked, or loaded
from `head` or `tail`, which only ever hold masked values: no access leaves `data`. And no call
makes up a byte: what a get returns has been put, or was in `data` before `ring_buffer_init`.
-/

namespace Gateway

open Runs CyclicQueue

/-- What a call has read or been given: indices below the size, and bytes that satisfy `B`. -/
def Pc.Contained (B : Byte → Prop) : Pc → Prop
  | .idle | .getHead | .getTail _ | .getIndex => True
  | .putHead c | .getReload c => B c
  | .putTail c next | .putIndex c next | .putPublish c next | .getPublish c next =>
    B c ∧ next.toNat < ringBufferSize
  | .putData c next i => B c ∧ next.toNat < ringBufferSize ∧ i.toNat < ringBufferSize
  | .getData i => i.toNat < ringBufferSize

variable {T : Type*}

/-- The indices are in range, and the bytes in `data`, in the calls and returned satisfy `B`. -/
structure Contained (B : Byte → Prop) (s : RingState T) : Prop where
  inRange : s.rb.InRange
  data : ∀ i < ringBufferSize, B (s.rb.data i)
  calls : ∀ t, (s.pc t).Contained B
  returned : ∀ c ∈ s.returned, B c

theorem contained_start {B : Byte → Prop} {rb₀ : RingBuffer}
    (h : ∀ i < ringBufferSize, B (rb₀.data i)) : Contained B (ringStart (T := T) rb₀) where
  inRange := ⟨Nat.zero_lt_succ 255, Nat.zero_lt_succ 255⟩
  data := h
  calls _ := trivial
  returned _ hc := absurd hc (List.not_mem_nil)

variable [DecidableEq T] {B : Byte → Prop} {s s' : RingState T} {t : T} {rb : RingBuffer}

theorem Contained.goto {pc : Pc} (h : Contained B s) (hr : rb.InRange)
    (hdata : ∀ i < ringBufferSize, B (rb.data i)) (hpc : pc.Contained B) :
    Contained B (s.goto t rb pc) where
  inRange := hr
  data := hdata
  calls u := by
    by_cases hu : u = t
    · subst hu
      rwa [goto_pc_self]
    · rw [goto_pc_of_ne _ _ _ hu]
      exact h.calls u
  returned := h.returned

theorem Contained.ret {e : Event Byte} (h : Contained B s) (hr : rb.InRange)
    (hdata : ∀ i < ringBufferSize, B (rb.data i)) (he : ∀ c, e = .get c → B c) :
    Contained B (s.ret t rb e) where
  inRange := hr
  data := hdata
  calls :=
    have hidle : Contained B (s.goto t rb .idle) := h.goto hr hdata trivial
    hidle.calls
  returned c hc := by
    unfold RingState.returned events at hc
    rw [ret_log, List.map_append, gets_append, List.mem_append] at hc
    rcases hc with hc | hc
    · exact h.returned c hc
    · cases e with
      | get b =>
        obtain rfl : c = b := List.mem_singleton.1 hc
        exact he c rfl
      | put b | full b | empty => cases hc

theorem Contained.access (h : Contained B s) (hs : s.access t = some s') : Contained B s' := by
  have hpc := h.calls t
  unfold RingState.access at hs
  dsimp only at hs
  cases hat : s.pc t with
  | idle => rw [hat] at hs; cases hs
  | putTail c next =>
    rw [hat] at hs hpc
    obtain rfl := Option.some.inj hs
    by_cases hfull : next = s.rb.tail
    · rw [if_pos hfull]
      exact h.ret h.inRange h.data nofun
    · rw [if_neg hfull]
      exact h.goto h.inRange h.data hpc
  | getTail head =>
    rw [hat] at hs
    obtain rfl := Option.some.inj hs
    by_cases hempty : head = s.rb.tail
    · rw [if_pos hempty]
      exact h.ret h.inRange h.data nofun
    · rw [if_neg hempty]
      exact h.goto h.inRange h.data trivial
  | putHead c =>
    rw [hat] at hs hpc
    obtain rfl := Option.some.inj hs
    exact h.goto h.inRange h.data ⟨hpc, nextIndex_lt _⟩
  | putIndex c next =>
    rw [hat] at hs hpc
    obtain rfl := Option.some.inj hs
    exact h.goto h.inRange h.data ⟨hpc.1, hpc.2, h.inRange.head⟩
  | putData c next i =>
    rw [hat] at hs hpc
    obtain rfl := Option.some.inj hs
    refine h.goto ⟨h.inRange.head, h.inRange.tail⟩ (fun j hj => ?_) ⟨hpc.1, hpc.2.1⟩
    show B (Function.update s.rb.data i.toNat c j)
    by_cases hji : j = i.toNat
    · rw [hji, Function.update_self]
      exact hpc.1
    · rw [Function.update_of_ne hji]
      exact h.data j hj
  | putPublish c next =>
    rw [hat] at hs hpc
    obtain rfl := Option.some.inj hs
    exact h.ret ⟨hpc.2, h.inRange.tail⟩ h.data nofun
  | getHead =>
    rw [hat] at hs
    obtain rfl := Option.some.inj hs
    exact h.goto h.inRange h.data trivial
  | getIndex =>
    rw [hat] at hs
    obtain rfl := Option.some.inj hs
    exact h.goto h.inRange h.data h.inRange.tail
  | getData i =>
    rw [hat] at hs hpc
    obtain rfl := Option.some.inj hs
    exact h.goto h.inRange h.data (h.data _ hpc)
  | getReload c =>
    rw [hat] at hs hpc
    obtain rfl := Option.some.inj hs
    exact h.goto h.inRange h.data ⟨hpc, nextIndex_lt _⟩
  | getPublish c next =>
    rw [hat] at hs hpc
    obtain rfl := Option.some.inj hs
    refine h.ret ⟨h.inRange.head, hpc.2⟩ h.data fun b hb => ?_
    obtain rfl := Event.get.inj hb
    exact hpc.1

theorem Contained.step (h : Contained B s) {a : RingAct T} (ha : ∀ t c, a = .put t c → B c)
    (hs : ringStep s a = some s') : Contained B s' := by
  cases a with
  | put t c =>
    have hs : (if s.pc t = .idle then some (s.goto t s.rb (.putHead c)) else none) = some s' := hs
    split at hs
    · obtain rfl := Option.some.inj hs
      exact h.goto h.inRange h.data (ha t c rfl)
    · cases hs
  | get t =>
    have hs : (if s.pc t = .idle then some (s.goto t s.rb .getHead) else none) = some s' := hs
    split at hs
    · obtain rfl := Option.some.inj hs
      exact h.goto h.inRange h.data trivial
    · cases hs
  | access t => exact h.access hs

theorem contained_exec {rb₀ : RingBuffer} {acts : List (RingAct T)}
    (hB : ∀ i < ringBufferSize, B (rb₀.data i)) (hput : ∀ t c, .put t c ∈ acts → B c)
    (h : exec ringStep (ringStart rb₀) acts = some s) : Contained B s :=
  exec_invariant_along (fun _ _ _ hI ha hs => hI.step ha hs) (contained_start hB)
    (along_of_forall (P := fun a => ∀ t c, a = .put t c → B c) fun a hmem t c ha =>
      hput t c (by rwa [← ha])) h

/-- **Races.** However many threads call `ring_buffer_put` and `ring_buffer_get`, and however their
accesses interleave, no access goes past `data`, and every byte that a get returns was passed to a
put or was in `data` at the start. -/
theorem ring_contained (rb₀ : RingBuffer) (acts : List (RingAct T)) (s : RingState T)
    (h : exec ringStep (ringStart rb₀) acts = some s) :
    (∀ t c next i, s.pc t = .putData c next i → i.toNat < ringBufferSize) ∧
    (∀ t i, s.pc t = .getData i → i.toNat < ringBufferSize) ∧
    ∀ c ∈ s.returned, (∃ t, .put t c ∈ acts) ∨ ∃ i < ringBufferSize, rb₀.data i = c := by
  have hc : Contained (fun c => (∃ t, .put t c ∈ acts) ∨ ∃ i < ringBufferSize, rb₀.data i = c) s :=
    contained_exec (fun i hi => Or.inr ⟨i, hi, rfl⟩) (fun t c hmem => Or.inl ⟨t, hmem⟩) h
  refine ⟨fun t c next i hpc => ?_, fun t i hpc => ?_, hc.returned⟩
  · have hcall := hc.calls t
    rw [hpc] at hcall
    exact hcall.2.2
  · have hcall := hc.calls t
    rw [hpc] at hcall
    exact hcall

/-- Two puts that store to one cell, then a get. -/
def racingPuts : List (RingAct (Fin 3)) :=
  [.put 0 0x41, .put 1 0x42] ++ List.replicate 3 (.access 0) ++ List.replicate 5 (.access 1) ++
    List.replicate 2 (.access 0) ++ [.get 2] ++ List.replicate 6 (.access 2)

theorem ring_contained_racingPuts : ∃ s,
    exec ringStep (ringStart ⟨0, 0, fun _ => 0⟩) racingPuts = some s ∧ s.returned = [0x41] ∧
      ((∃ t, .put t 0x41 ∈ racingPuts) ∨ ∃ i < ringBufferSize, (0 : Byte) = 0x41) := by
  have heval : (exec ringStep (ringStart ⟨0, 0, fun _ => 0⟩) racingPuts).map RingState.returned =
      some [0x41] := by decide
  obtain ⟨s, hs, hreturned⟩ := Option.map_eq_some_iff.1 heval
  obtain ⟨-, -, hbytes⟩ := ring_contained ⟨0, 0, fun _ => 0⟩ racingPuts s hs
  exact ⟨s, hs, hreturned, hbytes 0x41 (by simp [hreturned])⟩

end Gateway
