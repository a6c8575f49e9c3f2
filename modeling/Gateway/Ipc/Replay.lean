import Mathlib.Data.List.Nodup
import Gateway.Ipc.HonestRuns

/-!
# Replayed and transplanted mailbox contents

The four mailboxes, with an outside writer that between whole operations copies earlier contents of
any mailbox (fields, counter, tag and status) into any mailbox. It never makes up a tag: every tag
it writes was stored by `mailbox_send`.

The tag covers sender, type, data and counter. `mailbox_receive` compares the counter with nothing,
and neither the status nor the destination is covered, so the contents of a ready mailbox are
accepted again after they were delivered and in any other mailbox
(`replay_delivers_twice`). Sends are delivered at most once, and from their own mailbox, in exactly
the runs in which no copy makes ready a message that was delivered already or was sent elsewhere
(`replay_protected_iff`).
-/

namespace Gateway

open Runs OneSlot

/-- The contents of a mailbox and, for the statements only, the accepted send that wrote them. -/
structure Stored where
  mb : Mailbox
  origin : Option ℕ

abbrev Boxes := Fin 4 → Stored

structure ReplayState where
  boxes : Boxes
  /-- The earlier contents of all mailboxes, oldest first. -/
  past : List Boxes
  /-- The destination of each accepted send; send `k` is entry `k`. -/
  sent : List (Fin 4)
  /-- Each delivery: which send, and from which mailbox. -/
  delivered : List (ℕ × Fin 4)

inductive ReplayAct where
  /-- A core calls an operation on mailbox `d`. -/
  | call (mpidr : DWord) (d : Fin 4) (c : Call)
  /-- The writer copies the contents that mailbox `src` had at time `t` into mailbox `dst`. -/
  | copy (t : ℕ) (src dst : Fin 4)

/-- The mailboxes just after `mailbox_init`. -/
def replayInit (mb₀ : Fin 4 → Mailbox) : ReplayState where
  boxes d := ⟨mailboxInit (mb₀ d), none⟩
  past := []
  sent := []
  delivered := []

/-- The contents at each time up to now. -/
def ReplayState.times (s : ReplayState) : List Boxes := s.past ++ [s.boxes]

/-- Mailbox `d` gets the contents `st`. -/
def ReplayState.store (s : ReplayState) (d : Fin 4) (st : Stored) : ReplayState :=
  { s with boxes := Function.update s.boxes d st, past := s.past ++ [s.boxes] }

/-- A call has left `mb` in mailbox `d`; what it did there is `e`. -/
def ReplayState.after (s : ReplayState) (d : Fin 4) (mb : Mailbox) : Event Delivery → ReplayState
  | .post _ => { s.store d ⟨mb, some s.sent.length⟩ with sent := s.sent ++ [d] }
  | .take _ =>
    { s.store d ⟨mb, (s.boxes d).origin⟩ with
      delivered := s.delivered ++ (s.boxes d).origin.toList.map fun k => (k, d) }
  | _ => s.store d ⟨mb, (s.boxes d).origin⟩

def replayStep (key : Key) (s : ReplayState) : ReplayAct → Option ReplayState
  | .call mpidr d c =>
    let r := c.run key mpidr (s.boxes d).mb
    some (s.after d r.1 (Record.event ⟨mpidr, c, r.2⟩))
  | .copy t src dst => (s.times[t]?).map fun b => s.store dst (b src)

/-- Each accepted send was delivered at most once, and from the mailbox it was sent to. -/
def DeliveredOnce (s : ReplayState) : Prop :=
  (s.delivered.map Prod.fst).Nodup ∧ ∀ p ∈ s.delivered, s.sent[p.1]? = some p.2

/-- The send `k` was addressed to mailbox `d` and has not been delivered. -/
def Undelivered (s : ReplayState) (k : ℕ) (d : Fin 4) : Prop :=
  s.sent[k]? = some d ∧ k ∉ s.delivered.map Prod.fst

/-- If `st` is ready, it is the message of a send to `d` that has not been delivered. -/
def Fresh (s : ReplayState) (d : Fin 4) (st : Stored) : Prop :=
  st.mb.status = 1 → ∃ k, st.origin = some k ∧ Undelivered s k d

/-- The step does not copy ready contents that were delivered already or sent elsewhere. -/
def CopiesFresh (s : ReplayState) : ReplayAct → Prop
  | .call .. => True
  | .copy t src dst => ∀ b, s.times[t]? = some b → Fresh s dst (b src)

section

variable {key : Key}

/-- The contents are sealed, and if they are ready a send wrote them. -/
structure Genuine (key : Key) (st : Stored) : Prop where
  authentic : Sealed key st.mb
  origin : st.mb.status = 1 → ∃ k, st.origin = some k

/-- What a call does to genuine contents: it posts, takes, or makes nothing ready. -/
theorem call_cases {st : Stored} (h : Genuine key st) (mpidr : DWord) (c : Call) {r : Mailbox × Outcome}
    (hr : c.run key mpidr st.mb = r) {e : Event Delivery} (he : Record.event ⟨mpidr, c, r.2⟩ = e) :
    Sealed key r.1 ∧
    ((∃ m, e = .post m) ∨
      (∃ m k, e = .take m ∧ st.mb.status = 1 ∧ st.origin = some k ∧ r.1.status ≠ 1) ∨
      ((∀ m, e ≠ .post m ∧ e ≠ .take m) ∧ (r.1.status = 1 → st.mb.status = 1))) := by
  obtain ⟨hs, hn⟩ := Call.simulates h.authentic mpidr c
  rw [hr] at hs hn
  rw [he] at hn
  refine ⟨hs, ?_⟩
  by_cases hp : ∃ m, e = .post m
  · exact Or.inl hp
  by_cases ht : ∃ m, e = .take m
  · obtain ⟨m, rfl⟩ := ht
    obtain ⟨h1, h2⟩ := next_take hn
    obtain ⟨k, hk⟩ := h.origin (Mailbox.status_of_slot h1)
    exact Or.inr (Or.inl ⟨m, k, rfl, Mailbox.status_of_slot h1, hk, Mailbox.slot_eq_none.1 h2⟩)
  · push Not at hp ht
    refine Or.inr (Or.inr ⟨fun m => ⟨hp m, ht m⟩, fun h1 => ?_⟩)
    by_contra hidle
    exact Mailbox.slot_eq_none.1 (next_of_ne_post hn hp (Mailbox.slot_idle hidle)) h1

theorem replayStep_call (s : ReplayState) (mpidr : DWord) (d : Fin 4) (c : Call) :
    replayStep key s (.call mpidr d c) = some (s.after d (c.run key mpidr (s.boxes d).mb).1
      (Record.event ⟨mpidr, c, (c.run key mpidr (s.boxes d).mb).2⟩)) := rfl

theorem replayStep_copy (key : Key) {s : ReplayState} {t : ℕ} {b : Boxes} (hb : s.times[t]? = some b)
    (src dst : Fin 4) : replayStep key s (.copy t src dst) = some (s.store dst (b src)) := by
  show (s.times[t]?).map (fun b => s.store dst (b src)) = _
  rw [hb]
  rfl

/-- The four things a step can do. -/
theorem replayStep_cases {s s' : ReplayState} {a : ReplayAct}
    (hg : ∀ d, Genuine key (s.boxes d)) (h : replayStep key s a = some s') :
    (∃ d mb, Sealed key mb ∧
      s' = { s.store d ⟨mb, some s.sent.length⟩ with sent := s.sent ++ [d] }) ∨
    (∃ d mb k, (s.boxes d).mb.status = 1 ∧ (s.boxes d).origin = some k ∧ mb.status ≠ 1 ∧
      s' = { s.store d ⟨mb, some k⟩ with delivered := s.delivered ++ [(k, d)] }) ∨
    (∃ d mb, Sealed key mb ∧ (mb.status = 1 → (s.boxes d).mb.status = 1) ∧
      s' = s.store d ⟨mb, (s.boxes d).origin⟩) ∨
    (∃ t src dst b, a = .copy t src dst ∧ s.times[t]? = some b ∧ s' = s.store dst (b src)) := by
  cases a with
  | copy t src dst =>
    obtain ⟨b, hb, rfl⟩ := Option.map_eq_some_iff.1 h
    exact Or.inr (Or.inr (Or.inr ⟨t, src, dst, b, rfl, hb, rfl⟩))
  | call mpidr d c =>
    obtain rfl := Option.some.inj h
    have hcall := call_cases (hg d) mpidr c rfl rfl
    generalize c.run key mpidr (s.boxes d).mb = r at hcall
    generalize Record.event ⟨mpidr, c, r.2⟩ = e at hcall
    obtain ⟨hs, ⟨m, rfl⟩ | ⟨m, k, rfl, h1, hk, h2⟩ | ⟨hne, h1⟩⟩ := hcall
    · exact Or.inl ⟨d, r.1, hs, rfl⟩
    · refine Or.inr (Or.inl ⟨d, r.1, k, h1, hk, h2, ?_⟩)
      rw [ReplayState.after, hk]
      rfl
    · refine Or.inr (Or.inr (Or.inl ⟨d, r.1, hs, h1, ?_⟩))
      cases e with
      | post m => exact absurd rfl (hne m).1
      | take m => exact absurd rfl (hne m).2
      | refuse | miss | drop => rfl

/-! ## Every copy is of genuine contents -/

/-- All contents that the mailboxes have held are genuine. -/
def AllGenuine (key : Key) (s : ReplayState) : Prop := ∀ b ∈ s.times, ∀ d, Genuine key (b d)

theorem AllGenuine.boxes {s : ReplayState} (h : AllGenuine key s) (d : Fin 4) :
    Genuine key (s.boxes d) := h _ (by simp [ReplayState.times]) d

theorem times_store (s : ReplayState) (d : Fin 4) (st : Stored) :
    (s.store d st).times = s.times ++ [Function.update s.boxes d st] := rfl

theorem past_after (s : ReplayState) (d : Fin 4) (mb : Mailbox) (e : Event Delivery) :
    (s.after d mb e).past = s.past ++ [s.boxes] := by
  cases e <;> rfl

theorem AllGenuine.store {s : ReplayState} (h : AllGenuine key s) {d : Fin 4} {st : Stored}
    (hst : Genuine key st) : AllGenuine key (s.store d st) := by
  intro b hb d'
  rw [times_store] at hb
  rcases List.mem_append.1 hb with hb | hb
  · exact h b hb d'
  · rw [List.mem_singleton.1 hb]
    by_cases hd : d' = d
    · subst hd; rwa [Function.update_self]
    · rw [Function.update_of_ne hd]; exact h.boxes d'

theorem allGenuine_init (mb₀ : Fin 4 → Mailbox) : AllGenuine key (replayInit mb₀) := by
  intro b hb d
  obtain rfl : b = (replayInit mb₀).boxes := by simpa [ReplayState.times, replayInit] using hb
  exact ⟨sealed_init key _, fun h => by simp [replayInit, mailboxInit] at h⟩

theorem allGenuine_step {s s' : ReplayState} {a : ReplayAct} (h : AllGenuine key s)
    (hs : replayStep key s a = some s') : AllGenuine key s' := by
  rcases replayStep_cases h.boxes hs with ⟨d, mb, hm, rfl⟩ | ⟨d, mb, k, -, -, h2, rfl⟩ |
    ⟨d, mb, hm, h1, rfl⟩ | ⟨t, src, dst, b, -, hb, rfl⟩
  · exact h.store ⟨hm, fun _ => ⟨_, rfl⟩⟩
  · exact h.store ⟨fun h1 => absurd h1 h2, fun h1 => absurd h1 h2⟩
  · exact h.store ⟨hm, fun h' => (h.boxes d).origin (h1 h')⟩
  · exact h.store (h b (List.mem_of_getElem? hb) src)

/-! ## Runs with fresh copies -/

/-- Deliveries are in order, and what is ready has still to be delivered. -/
structure Protected (s : ReplayState) : Prop where
  once : DeliveredOnce s
  fresh : ∀ d, Fresh s d (s.boxes d)

theorem protected_init (mb₀ : Fin 4 → Mailbox) : Protected (replayInit mb₀) where
  once := ⟨List.nodup_nil, by simp [replayInit]⟩
  fresh d h := by simp [replayInit, mailboxInit] at h

/-- Storing contents that are fresh keeps everything that is ready fresh. -/
theorem Protected.store {s : ReplayState} (h : Protected s) {d : Fin 4} {st : Stored}
    (hst : Fresh s d st) : Protected (s.store d st) where
  once := h.once
  fresh d' := by
    show Fresh s d' (Function.update s.boxes d st d')
    by_cases hd : d' = d
    · subst hd; rwa [Function.update_self]
    · rw [Function.update_of_ne hd]; exact h.fresh d'

theorem Protected.lt {s : ReplayState} (h : Protected s) {k : ℕ}
    (hk : k ∈ s.delivered.map Prod.fst) : k < s.sent.length := by
  obtain ⟨p, hp, rfl⟩ := List.mem_map.1 hk
  exact (List.getElem?_eq_some_iff.1 (h.once.2 p hp)).1

theorem Protected.post {s : ReplayState} (h : Protected s) (d : Fin 4) (mb : Mailbox) :
    Protected { s.store d ⟨mb, some s.sent.length⟩ with sent := s.sent ++ [d] } where
  once := ⟨h.once.1, fun p hp => List.getElem?_append_left
    (h.lt (List.mem_map_of_mem hp)) ▸ h.once.2 p hp⟩
  fresh d' := by
    intro h1
    by_cases hd : d' = d
    · subst hd
      refine ⟨s.sent.length, by simp [ReplayState.store], ?_, fun hk => ?_⟩
      · exact List.getElem?_concat_length
      · exact absurd (h.lt hk) (Nat.lt_irrefl _)
    · have hb : Function.update s.boxes d ⟨mb, some s.sent.length⟩ d' = s.boxes d' :=
        Function.update_of_ne hd _ _
      simp only [ReplayState.store, hb] at h1 ⊢
      obtain ⟨k, hk, hsent, hnew⟩ := h.fresh d' h1
      refine ⟨k, hk, ?_, hnew⟩
      rw [List.getElem?_append_left (List.getElem?_eq_some_iff.1 hsent).1]
      exact hsent

theorem Protected.take {s : ReplayState} (h : Protected s) {d : Fin 4} {mb : Mailbox} {k : ℕ}
    (h1 : (s.boxes d).mb.status = 1) (hk : (s.boxes d).origin = some k) (h2 : mb.status ≠ 1) :
    Protected { s.store d ⟨mb, some k⟩ with delivered := s.delivered ++ [(k, d)] } := by
  obtain ⟨k', hk', hsent, hnew⟩ := h.fresh d h1
  obtain rfl : k' = k := Option.some.inj (hk'.symm.trans hk)
  refine ⟨⟨?_, ?_⟩, fun d' h1' => ?_⟩
  · simp only [List.map_append, List.map_cons, List.map_nil]
    exact List.nodup_append_comm.1 (List.nodup_cons.2 ⟨hnew, h.once.1⟩)
  · intro p hp
    rcases List.mem_append.1 hp with hp | hp
    · exact h.once.2 p hp
    · rw [List.mem_singleton.1 hp]; exact hsent
  · by_cases hd : d' = d
    · subst hd
      simp only [ReplayState.store, Function.update_self] at h1'
      exact absurd h1' h2
    · have hb : Function.update s.boxes d ⟨mb, some k'⟩ d' = s.boxes d' :=
        Function.update_of_ne hd _ _
      simp only [ReplayState.store, hb] at h1' ⊢
      obtain ⟨j, hj, hjs, hjn⟩ := h.fresh d' h1'
      refine ⟨j, hj, hjs, ?_⟩
      -- the delivered send went to `d`, this one to `d'`
      have hne : j ≠ k' := by
        rintro rfl
        exact hd (Option.some.inj (hjs.symm.trans hsent))
      simpa [hne] using hjn

theorem protected_step {s s' : ReplayState} {a : ReplayAct} (hg : AllGenuine key s)
    (h : Protected s) (hf : CopiesFresh s a) (hs : replayStep key s a = some s') :
    Protected s' := by
  rcases replayStep_cases hg.boxes hs with ⟨d, mb, -, rfl⟩ | ⟨d, mb, k, h1, hk, h2, rfl⟩ |
    ⟨d, mb, -, h1, rfl⟩ | ⟨t, src, dst, b, rfl, hb, rfl⟩
  · exact h.post d mb
  · exact h.take h1 hk h2
  · exact h.store fun h' => h.fresh d (h1 h')
  · exact h.store (hf b hb)

/-- What holds after a run whose copies are fresh. -/
theorem protected_of_along {mb₀ : Fin 4 → Mailbox} {acts : List ReplayAct} {s : ReplayState}
    (hf : Along (replayStep key) CopiesFresh (replayInit mb₀) acts)
    (h : exec (replayStep key) (replayInit mb₀) acts = some s) :
    AllGenuine key s ∧ Protected s :=
  exec_invariant_along (I := fun s => AllGenuine key s ∧ Protected s)
    (fun _ _ _ hI hG hs => ⟨allGenuine_step hI.1 hs, protected_step hI.1 hI.2 hG hs⟩)
    ⟨allGenuine_init mb₀, protected_init mb₀⟩ hf h

/-! ## Copies that are not fresh -/

/-- A receive from genuine ready contents delivers the send that wrote them. -/
theorem receive_delivers {s : ReplayState} {d : Fin 4} {k : ℕ} (hg : Genuine key (s.boxes d))
    (h1 : (s.boxes d).mb.status = 1) (hk : (s.boxes d).origin = some k) (mpidr : DWord) :
    ∃ s', replayStep key s (.call mpidr d .receive) = some s' ∧ s'.sent = s.sent ∧
      s'.delivered = s.delivered ++ [(k, d)] := by
  have hrun : Call.run key mpidr .receive (s.boxes d).mb = _ :=
    mailboxReceive_ready h1 (hg.authentic h1)
  refine ⟨_, replayStep_call s mpidr d .receive, ?_, ?_⟩
  · rw [hrun]; rfl
  · rw [hrun]; show s.delivered ++ _ = _; rw [hk]; rfl

/-- After a copy that is not fresh, one receive delivers a send twice or in the wrong place. -/
theorem not_deliveredOnce_of_stale {s : ReplayState} (hg : AllGenuine key s) {t : ℕ}
    {src dst : Fin 4} {b : Boxes} (hb : s.times[t]? = some b) (hstale : ¬ Fresh s dst (b src))
    (mpidr : DWord) :
    ∃ s', exec (replayStep key) s [.copy t src dst, .call mpidr dst .receive] = some s' ∧
      ¬ DeliveredOnce s' := by
  unfold Fresh at hstale
  push Not at hstale
  obtain ⟨h1, hnone⟩ := hstale
  have hgen := hg b (List.mem_of_getElem? hb) src
  obtain ⟨k, hk⟩ := hgen.origin h1
  have hcopy := replayStep_copy key hb src dst
  have hbox : (s.store dst (b src)).boxes dst = b src := Function.update_self ..
  obtain ⟨s', hs', hsent, hdel⟩ := receive_delivers (s := s.store dst (b src)) (d := dst) (k := k)
    (by rwa [hbox]) (by rwa [hbox]) (by rwa [hbox]) mpidr
  refine ⟨s', exec_cons_eq_some.2 ⟨_, hcopy, exec_cons_eq_some.2 ⟨s', hs', rfl⟩⟩, fun hD => ?_⟩
  apply hnone k hk
  rw [DeliveredOnce, hsent, hdel] at hD
  refine ⟨hD.2 (k, dst) (by simp), fun hmem => ?_⟩
  have hnodup := hD.1
  rw [List.map_append, List.map_cons, List.map_nil] at hnodup
  exact (List.nodup_cons.1 (List.nodup_append_comm.1 hnodup)).1 hmem

end

/-- **Replay protection.** In every run from `mailbox_init`, each accepted send is delivered at most
once and only from its own mailbox, and a further `mailbox_receive` would not break this, in every
state exactly when no copy makes ready a message already delivered or sent to another mailbox. -/
theorem replay_protected_iff (key : Key) (mb₀ : Fin 4 → Mailbox) (acts : List ReplayAct) :
    (∀ pre s, pre <+: acts → exec (replayStep key) (replayInit mb₀) pre = some s →
      DeliveredOnce s ∧ ∀ mpidr d s', replayStep key s (.call mpidr d .receive) = some s' →
        DeliveredOnce s') ↔
      Along (replayStep key) CopiesFresh (replayInit mb₀) acts := by
  constructor
  · intro hP
    refine along_of_forall_prefix fun pre a s hpre hs hA => ?_
    cases a with
    | call => trivial
    | copy t src dst =>
      intro b hb
      by_contra hstale
      obtain ⟨s', hs', hnot⟩ :=
        not_deliveredOnce_of_stale (protected_of_along hA hs).1 hb hstale 0
      obtain ⟨s₁, h1, h2⟩ := exec_cons_eq_some.1 hs'
      obtain ⟨s₂, h2, h3⟩ := exec_cons_eq_some.1 h2
      rw [Option.some.inj h3] at h2
      exact hnot ((hP _ s₁ hpre (exec_concat_eq_some.2 ⟨s, hs, h1⟩)).2 0 dst s' h2)
  · intro hA pre s hpre hs
    obtain ⟨hg, hp⟩ := protected_of_along (hA.initial hpre hs) hs
    exact ⟨hp.once, fun mpidr d s' h =>
      (protected_step (a := .call mpidr d .receive) hg hp trivial h).once⟩

/-- An accepted send to an idle mailbox leaves it ready, as send number `s.sent.length`. -/
theorem send_accepted (key : Key) {s : ReplayState} {d : Fin 4} (h : (s.boxes d).mb.status ≠ 1)
    (mpidr : DWord) (msgType data : Word) :
    ∃ s', replayStep key s (.call mpidr d (.send msgType data)) = some s' ∧
      (s'.boxes d).mb.status = 1 ∧ (s'.boxes d).origin = some s.sent.length ∧
      s'.delivered = s.delivered := by
  obtain ⟨ho, h1, -⟩ := mailboxSend_ok key mpidr msgType data h
  refine ⟨_, replayStep_call s mpidr d (.send msgType data), ?_⟩
  simp only [Call.run]
  rw [ho]
  have hbox : (s.after d (mailboxSend key mpidr msgType data (s.boxes d).mb).1
      (.post ⟨getCoreId mpidr, msgType, data⟩)).boxes d = ⟨_, some s.sent.length⟩ :=
    Function.update_self ..
  exact ⟨(congrArg (·.mb.status) hbox).trans h1, congrArg (·.origin) hbox, rfl⟩

/-- The contents of a ready mailbox, copied back after their delivery into any mailbox `d'`, are
delivered again. -/
theorem replay_delivers_twice {key : Key} {s : ReplayState} {d : Fin 4} {k : ℕ}
    (hg : AllGenuine key s) (h1 : (s.boxes d).mb.status = 1) (hk : (s.boxes d).origin = some k)
    (mpidr : DWord) (d' : Fin 4) :
    ∃ s', exec (replayStep key) s [.call mpidr d .receive, .copy s.past.length d d',
        .call mpidr d' .receive] = some s' ∧ s'.delivered = s.delivered ++ [(k, d), (k, d')] := by
  obtain ⟨s₁, hs₁, -, hdel₁⟩ := receive_delivers (hg.boxes d) h1 hk mpidr
  have htime : s₁.times[s.past.length]? = some s.boxes := by
    rw [replayStep_call] at hs₁
    obtain rfl := Option.some.inj hs₁
    rw [ReplayState.times, past_after, List.append_assoc, List.getElem?_append_right (Nat.le_refl _)]
    simp
  have hbox : (s₁.store d' (s.boxes d)).boxes d' = s.boxes d := Function.update_self ..
  obtain ⟨s₃, hs₃, -, hdel₃⟩ := receive_delivers (s := s₁.store d' (s.boxes d)) (d := d') (k := k)
    (by rw [hbox]; exact hg.boxes d) (by rwa [hbox]) (by rwa [hbox]) mpidr
  refine ⟨s₃, exec_cons_eq_some.2 ⟨s₁, hs₁, exec_cons_eq_some.2 ⟨_, replayStep_copy key htime d d',
    exec_cons_eq_some.2 ⟨s₃, hs₃, rfl⟩⟩⟩, ?_⟩
  rw [hdel₃]
  show s₁.delivered ++ [(k, d')] = _
  rw [hdel₁, List.append_assoc]
  rfl

/-- Core 0 sends to Core 3, which receives; the writer copies the contents from before the receive
back into the same mailbox, and Core 3 receives the message a second time. -/
theorem mailbox_replays : ¬ ∀ (mb₀ : Fin 4 → Mailbox) (acts : List ReplayAct) (s : ReplayState),
    exec (replayStep secretKey) (replayInit mb₀) acts = some s → DeliveredOnce s := by
  intro hall
  let mb₀ : Fin 4 → Mailbox := fun _ => ⟨0, 0, 0, 0, 0, Vector.replicate 32 0⟩
  obtain ⟨s₁, hs₁, h1, hk, hdel₁⟩ := send_accepted secretKey (s := replayInit mb₀) (d := 3)
    (by simp [replayInit, mailboxInit]) 0 msgData 7
  have hg := allGenuine_step (allGenuine_init mb₀) hs₁
  obtain ⟨s', hs', hdel'⟩ := replay_delivers_twice hg h1 hk 3 3
  have hD := hall mb₀ _ s' (exec_cons_eq_some.2 ⟨s₁, hs₁, hs'⟩)
  rw [DeliveredOnce, hdel', hdel₁] at hD
  exact absurd hD.1 (by decide)

end Gateway
