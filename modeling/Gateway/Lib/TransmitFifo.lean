import Gateway.Lib.LockProgress

/-!
# Writing through a transmit FIFO

The output of the programs of `LockDiscipline` goes through a port with a FIFO of `depth` places and
a flag that says whether there is room. To write an item a core tests the flag until there is room,
and then stores the item; an item that is stored when the FIFO is full is lost. The port sends the
items of the FIFO down the line whenever it likes.

What goes down the line is never reordered and nothing is sent twice (`line_sublist`). Between the
test and the store others may fill the FIFO, so the test alone does not ensure that all of it
arrives. For disciplined programs nothing is lost as long as no exempt routine stores between the two
(`line_eq_output`): what goes down the line is then the output, item by item.
-/

namespace LockDiscipline

open Runs

variable {Core ρ β : Type*} [DecidableEq Core]

/-- The cores and the port. -/
structure Port (Core ρ β : Type*) where
  cores : State Core ρ β
  /-- The core has found room and is about to store. -/
  ready : Core → Bool
  fifo : List β
  /-- What has been sent. -/
  line : List β

inductive PortAct (Core : Type*) where
  | core (a : Act Core)
  /-- The port sends an item. -/
  | shift
  deriving DecidableEq

/-- The item that core `c` is to write. -/
def State.next (s : State Core ρ β) (c : Core) : Option β :=
  match s.rest c with
  | .out _ (b :: _) :: _ => some b
  | _ => none

section Step

variable (depth : ℕ) (s : Port Core ρ β)

def portInit (programs : Core → Prog ρ β) : Port Core ρ β := ⟨init programs, fun _ => false, [], []⟩

/-- The test of the flag. -/
def Port.test (c : Core) : Port Core ρ β :=
  { s with ready := Function.update s.ready c (decide (s.fifo.length < depth)) }

/-- The store of the item `b`, after which the cores are `cores`. -/
def Port.store (c : Core) (b : β) (cores : State Core ρ β) : Port Core ρ β :=
  { s with
    cores
    ready := Function.update s.ready c false
    fifo := if s.fifo.length < depth then s.fifo ++ [b] else s.fifo }

def portStep : PortAct Core → Option (Port Core ρ β)
  | .core a =>
    match s.cores.next a.core with
    | none => (step s.cores a).map fun cores => { s with cores }
    | some b =>
      if s.ready a.core then (step s.cores a).map (s.store depth a.core b)
      else some (s.test depth a.core)
  | .shift =>
    match s.fifo with
    | [] => none
    | b :: fifo => some { s with fifo, line := s.line ++ [b] }

end Step

/-- An exempt routine and another core do not store between each other's test and store. -/
def PortApart (exempt : ρ → Prop) (s : Port Core ρ β) : PortAct Core → Prop
  | .core a => s.ready a.core = true → ∀ d, d ≠ a.core → s.ready d = true →
      ∀ r ∈ s.cores.writes a.core, ∀ r' ∈ s.cores.writes d, ¬ exempt r ∧ ¬ exempt r'
  | .shift => True

/-! ## The output is what goes down the line -/

section Refines

variable {s s' : State Core ρ β} {a : Act Core} {c d : Core} {b : β}

omit [DecidableEq Core] in
theorem next_isSome : (s.next c).isSome = (s.writes c).isSome := by
  unfold State.next State.writes
  cases s.rest c with
  | nil => rfl
  | cons p k =>
    cases p with
    | out r bs => cases bs <;> rfl
    | skip | acquire | release | seq | any | many | forever => rfl

/-- What another core is to write is not changed by a step. -/
theorem next_of_ne (hs : step s a = some s') (hc : c ≠ a.core) : s'.next c = s.next c := by
  unfold State.next
  rw [(step_others hs hc).1]

/-- The step that writes the item `b`. -/
theorem step_of_next (hb : s.next a.core = some b) (hs : step s a = some s') :
    s'.output = s.output ++ [(a.core, b)] := by
  unfold State.next at hb
  unfold step at hs
  dsimp only at hs
  split at hb
  · next h =>
    obtain rfl := Option.some.inj hb
    rw [h] at hs
    obtain rfl := Option.some.inj hs
    rfl
  · cases hb

theorem step_of_next_none (hb : s.next a.core = none) (hs : step s a = some s') :
    s'.output = s.output := by
  obtain ⟨-, hout⟩ | ⟨r, b, hw, -⟩ := step_output hs
  · exact hout
  · have hsome := next_isSome (s := s) (c := a.core)
    rw [hb, hw] at hsome
    cases hsome

variable {exempt : ρ → Prop} {depth : ℕ} {p p' : Port Core ρ β} {programs : Core → Prog ρ β}

/-- What a step can do: a step of the cores that writes no item, a test, a store, or the port sends
an item. -/
theorem portStep_cases {x : PortAct Core} (hs : portStep depth p x = some p') :
    (∃ a s', x = .core a ∧ p.cores.next a.core = none ∧ step p.cores a = some s' ∧
      p' = { p with cores := s' }) ∨
    (∃ a, x = .core a ∧ (p.cores.next a.core).isSome ∧ p' = p.test depth a.core) ∨
    (∃ a b s', x = .core a ∧ p.cores.next a.core = some b ∧ p.ready a.core = true ∧
      step p.cores a = some s' ∧ p' = p.store depth a.core b s') ∨
    ∃ b fifo, x = .shift ∧ p.fifo = b :: fifo ∧ p' = { p with fifo, line := p.line ++ [b] } := by
  unfold portStep at hs
  cases x with
  | core a =>
    dsimp only at hs
    split at hs
    · next hb =>
      obtain ⟨s', hs', rfl⟩ := Option.map_eq_some_iff.1 hs
      exact .inl ⟨a, s', rfl, hb, hs', rfl⟩
    · next b hb =>
      split at hs
      · next hready =>
        obtain ⟨s', hs', rfl⟩ := Option.map_eq_some_iff.1 hs
        exact .inr (.inr (.inl ⟨a, b, s', rfl, hb, hready, hs', rfl⟩))
      · obtain rfl := Option.some.inj hs
        exact .inr (.inl ⟨a, rfl, by rw [hb]; rfl, rfl⟩)
  | shift =>
    dsimp only at hs
    split at hs
    · cases hs
    · next b fifo hfifo =>
      obtain rfl := Option.some.inj hs
      exact .inr (.inr (.inr ⟨b, fifo, rfl, hfifo, rfl⟩))

/-- The cores take part in a run of their own. -/
theorem exec_cores {xs : List (PortAct Core)}
    (hs : exec (portStep depth) (portInit programs) xs = some p) :
    ∃ as, exec step (init programs) as = some p.cores := by
  refine exec_invariant (I := fun p => ∃ as, exec step (init programs) as = some p.cores)
    (fun p x p' h hs => ?_) ⟨[], rfl⟩ hs
  obtain ⟨as, has⟩ := h
  obtain ⟨a, s', -, -, hs', rfl⟩ | ⟨a, -, -, rfl⟩ | ⟨a, b, s', -, -, -, hs', rfl⟩ |
    ⟨b, fifo, -, -, rfl⟩ := portStep_cases hs
  · exact ⟨as ++ [a], exec_concat_eq_some.2 ⟨_, has, hs'⟩⟩
  · exact ⟨as, has⟩
  · exact ⟨as ++ [a], exec_concat_eq_some.2 ⟨_, has, hs'⟩⟩
  · exact ⟨as, has⟩

/-- What is sent is never reordered, and nothing is sent twice. -/
theorem line_sublist {xs : List (PortAct Core)}
    (hs : exec (portStep depth) (portInit programs) xs = some p) :
    (p.line ++ p.fifo).Sublist (p.cores.output.map Prod.snd) := by
  refine exec_invariant (I := fun p => (p.line ++ p.fifo).Sublist (p.cores.output.map Prod.snd))
    (fun p x p' h hs => ?_) .slnil hs
  obtain ⟨a, s', -, hb, hs', rfl⟩ | ⟨a, -, -, rfl⟩ | ⟨a, b, s', -, hb, -, hs', rfl⟩ |
    ⟨b, fifo, -, hfifo, rfl⟩ := portStep_cases hs
  · show List.Sublist _ (s'.output.map Prod.snd)
    rwa [step_of_next_none hb hs']
  · exact h
  · show (p.line ++ if p.fifo.length < depth then p.fifo ++ [b] else p.fifo).Sublist
      (s'.output.map Prod.snd)
    rw [step_of_next hb hs', List.map_append]
    split
    · rw [← List.append_assoc]
      exact h.append (.refl _)
    · exact h.trans (List.sublist_append_left ..)
  · rw [hfifo, List.append_cons] at h
    exact h

/-- What a run without such interruptions keeps. -/
structure Delivers (exempt : ρ → Prop) (depth : ℕ) (p : Port Core ρ β) : Prop where
  ok : Ok exempt p.cores
  /-- A core that has found room still has it. -/
  room : ∀ c, p.ready c = true → p.fifo.length < depth ∧ (p.cores.next c).isSome
  bytes : p.line ++ p.fifo = p.cores.output.map Prod.snd

theorem delivers_init (h : ∀ c, ∃ i, Disciplined exempt false (programs c) i) :
    Delivers exempt depth (portInit programs) where
  ok := ok_init h
  room _ h := by cases h
  bytes := rfl

/-- Of two cores that write, one is in an exempt routine. -/
theorem Ok.exempt_of_writes (h : Ok exempt s) {r r' : ρ} (hc : s.writes c = some r)
    (hd : s.writes d = some r') (hne : d ≠ c) (hr : ¬ exempt r) : exempt r' := by
  by_contra hr'
  exact hne (h.excl d c (h.inside_of_writes hd hr') (h.inside_of_writes hc hr))

/-- A step of the cores that writes no item. -/
theorem Delivers.quiet (h : Delivers exempt depth p) (hb : p.cores.next a.core = none)
    (hs : step p.cores a = some s') : Delivers exempt depth { p with cores := s' } where
  ok := ok_step h.ok hs
  room c hc := by
    obtain ⟨hroom, hnext⟩ := h.room c hc
    refine ⟨hroom, ?_⟩
    by_cases hca : c = a.core
    · subst hca
      rw [hb] at hnext
      cases hnext
    · show (s'.next c).isSome
      rwa [next_of_ne hs hca]
  bytes := by
    show _ = s'.output.map Prod.snd
    rw [step_of_next_none hb hs]
    exact h.bytes

/-- The test of the flag. -/
theorem Delivers.test (h : Delivers exempt depth p) (hb : (p.cores.next c).isSome) :
    Delivers exempt depth (p.test depth c) where
  ok := h.ok
  room d hd := by
    by_cases hdc : d = c
    · subst hdc
      have hroom : decide (p.fifo.length < depth) = true := (Function.update_self ..).symm.trans hd
      exact ⟨of_decide_eq_true hroom, hb⟩
    · exact h.room d ((Function.update_of_ne hdc ..).symm.trans hd)
  bytes := h.bytes

/-- The store finds room, and nobody else is about to store. -/
theorem Delivers.store (h : Delivers exempt depth p)
    (hapart : PortApart exempt p (.core a)) (hready : p.ready a.core = true)
    (hb : p.cores.next a.core = some b) (hs : step p.cores a = some s') :
    Delivers exempt depth (p.store depth a.core b s') where
  ok := ok_step h.ok hs
  room d hd := by
    have hne : d ≠ a.core := by
      rintro rfl
      exact Bool.false_ne_true ((Function.update_self ..).symm.trans hd)
    have hd' : p.ready d = true := (Function.update_of_ne hne ..).symm.trans hd
    have hw : (p.cores.writes a.core).isSome := by
      rw [← next_isSome, hb]
      rfl
    have hw' : (p.cores.writes d).isSome := by
      rw [← next_isSome]
      exact (h.room d hd').2
    obtain ⟨r, hr⟩ := Option.isSome_iff_exists.1 hw
    obtain ⟨r', hr'⟩ := Option.isSome_iff_exists.1 hw'
    obtain ⟨hexempt, hexempt'⟩ := hapart hready d hne hd' r hr r' hr'
    exact absurd (h.ok.exempt_of_writes hr hr' hne hexempt) hexempt'
  bytes := by
    have hroom := (h.room a.core hready).1
    show p.line ++ (if p.fifo.length < depth then p.fifo ++ [b] else p.fifo) =
      s'.output.map Prod.snd
    rw [if_pos hroom, step_of_next hb hs, ← List.append_assoc, h.bytes, List.map_append]
    rfl

omit [DecidableEq Core] in
theorem Delivers.shift (h : Delivers exempt depth p) {fifo : List β} (hfifo : p.fifo = b :: fifo) :
    Delivers exempt depth { p with fifo, line := p.line ++ [b] } where
  ok := h.ok
  room c hc := by
    obtain ⟨hroom, hnext⟩ := h.room c hc
    rw [hfifo, List.length_cons] at hroom
    exact ⟨Nat.lt_of_succ_lt hroom, hnext⟩
  bytes := by
    have hbytes := h.bytes
    rw [hfifo] at hbytes
    exact (List.append_cons ..).symm.trans hbytes

theorem Delivers.step (h : Delivers exempt depth p) {x : PortAct Core}
    (hapart : PortApart exempt p x) (hs : portStep depth p x = some p') :
    Delivers exempt depth p' := by
  obtain ⟨a, s', -, hb, hs', rfl⟩ | ⟨a, -, hb, rfl⟩ | ⟨a, b, s', rfl, hb, hready, hs', rfl⟩ |
    ⟨b, fifo, -, hfifo, rfl⟩ := portStep_cases hs
  · exact h.quiet hb hs'
  · exact h.test hb
  · exact h.store hapart hready hb hs'
  · exact h.shift hfifo

/-- **What goes down the line.** If no exempt routine stores between the test and the store of another
core, and no other core between its own, then what has been sent and what is in the FIFO is,
item by item, the output. -/
theorem line_eq_output (hdisc : ∀ c, ∃ i, Disciplined exempt false (programs c) i)
    {xs : List (PortAct Core)}
    (hapart : Along (portStep depth) (PortApart exempt) (portInit programs) xs)
    (hs : exec (portStep depth) (portInit programs) xs = some p) :
    p.line ++ p.fifo = p.cores.output.map Prod.snd := by
  have hinit : Delivers exempt depth (portInit programs) := delivers_init hdisc
  exact (exec_invariant_along (fun _ _ _ h hG hs => Delivers.step h hG hs) hinit hapart hs).bytes

end Refines

end LockDiscipline
