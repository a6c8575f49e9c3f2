import Gateway.Ipc.Operations

/-!
# Honest runs of one mailbox

Any sequence of `mailbox_send`, `mailbox_receive` and `mailbox_clear`, by any cores, on a mailbox
that nothing else writes. Such a run is a log of the one-place channel (`honest`), so a message
that is delivered is the latest one accepted, unaltered, and it is delivered once.
-/

namespace Gateway

open Runs OneSlot

section

variable (key : Key)

/-- One call on the mailbox: the core's `mpidr_el1` and the operation. -/
abbrev CallBy := DWord × Call

def callStep (mb : Mailbox) (c : CallBy) : Option Mailbox := some (c.2.run key c.1 mb).1

theorem callStep_eq (mb : Mailbox) (c : CallBy) :
    callStep key mb c = some (c.2.run key c.1 mb).1 := rfl

/-- What the caller sees of a call. -/
def callRecord (mb : Mailbox) (c : CallBy) : Record := ⟨c.1, c.2, (c.2.run key c.1 mb).2⟩

/-- The mailbox after the calls `cs`. -/
def afterCalls (mb : Mailbox) (cs : List CallBy) : Mailbox :=
  cs.foldl (fun mb c => (c.2.run key c.1 mb).1) mb

/-- The calls of a run and their outcomes, in order. -/
def callLog (mb : Mailbox) (cs : List CallBy) : List Record :=
  labels (callStep key) (callRecord key) mb cs

theorem exec_callStep (mb : Mailbox) (cs : List CallBy) :
    exec (callStep key) mb cs = some (afterCalls key mb cs) := by
  induction cs generalizing mb with
  | nil => rfl
  | cons c cs ih => exact ih _

/-- **Refinement of runs.** The events of the calls are a run of the one-place channel. -/
theorem honest : Lockstep (callStep key) OneSlot.next (Sealed key) Mailbox.slot
    fun mb c => (callRecord key mb c).event where
  inv mb c mb' h hs := by
    obtain rfl := Option.some.inj hs
    exact (Call.simulates h c.1 c.2).1
  sim mb c mb' h hs := by
    obtain rfl := Option.some.inj hs
    exact (Call.simulates h c.1 c.2).2

/-- The call was a `mailbox_send` that returned 0. -/
def Record.Posts (r : Record) : Prop := ∃ msgType data, r.call = .send msgType data ∧ r.outcome.ret = 0

/-- The call was a `mailbox_receive` that returned 1. -/
def Record.Delivers (r : Record) : Prop := r.call = .receive ∧ r.outcome.ret = 1

theorem Record.posts_of_event {r : Record} {d : Delivery} (h : r.event = .post d) :
    ∃ msgType data, r.call = .send msgType data ∧ r.outcome.ret = 0 ∧
      d = ⟨getCoreId r.mpidr, msgType, data⟩ := by
  unfold Record.event at h
  split at h
  case h_1 msgType data hcall hret => exact ⟨msgType, data, hcall, hret, (Event.post.inj h).symm⟩
  all_goals cases h

theorem Record.quiet_of_event {r : Record} (h : r.event = .refuse) :
    ¬ r.Posts ∧ ¬ r.Delivers := by
  unfold Record.event at h
  split at h
  case h_2 hcall hret =>
    constructor
    · rintro ⟨-, -, -, hr⟩
      exact hret hr
    · rintro ⟨hc, -⟩
      rw [hcall] at hc
      cases hc
  all_goals cases h

theorem Record.event_eq_drop {r : Record} : r.event = .drop ↔ r.call = .clear := by
  unfold Record.event
  constructor
  · intro h
    split at h
    case h_5 hclear => exact hclear
    all_goals cases h
  · intro h
    rw [h]

/-- A receive that returns 1 has stored a triple. -/
theorem event_of_delivers {mb : Mailbox} {c : CallBy} (h : (callRecord key mb c).Delivers) :
    (callRecord key mb c).event = .take mb.delivery ∧
      (callRecord key mb c).outcome.out = some mb.delivery := by
  obtain ⟨mpidr, call⟩ := c
  obtain ⟨rfl, hr⟩ := h
  have hm : mb.status = 1 ∧ hmacTagVerify key mb = true := by
    by_contra hm
    change (mailboxReceive key mb).2.ret = 1 at hr
    unfold mailboxReceive at hr
    rw [if_neg hm] at hr
    split at hr <;> simp at hr
  have hrun : mailboxReceive key mb = ({ mb with status := 2 }, ⟨1, some mb.delivery⟩) := if_pos hm
  simp [callRecord, Call.run, hrun, Record.event]

/-- Each record of a log is the record of a call on the mailbox its predecessors left. -/
theorem callLog_split {mb : Mailbox} {cs : List CallBy} {pre rest : List Record} {r : Record}
    (h : callLog key mb cs = pre ++ r :: rest) :
    ∃ cs₁ c cs₂, cs = cs₁ ++ c :: cs₂ ∧ callLog key mb cs₁ = pre ∧
      r = callRecord key (afterCalls key mb cs₁) c := by
  induction pre generalizing mb cs with
  | nil =>
    cases cs with
    | nil => simp [callLog, labels] at h
    | cons c cs =>
      rw [callLog, labels_cons (callStep_eq key mb c)] at h
      exact ⟨[], c, cs, rfl, rfl, (List.cons.inj h).1.symm⟩
  | cons r₀ pre ih =>
    cases cs with
    | nil => simp [callLog, labels] at h
    | cons c cs =>
      rw [callLog, labels_cons (callStep_eq key mb c)] at h
      obtain ⟨h0, h⟩ := List.cons.inj h
      obtain ⟨cs₁, d, cs₂, rfl, hpre, hr⟩ := ih h
      refine ⟨c :: cs₁, d, cs₂, rfl, ?_, hr⟩
      rw [callLog, labels_cons (callStep_eq key mb c), h0]
      exact congrArg _ hpre

/-- Every mailbox that the calls leave behind is sealed, and its slot is what the events leave. -/
theorem afterCalls_simulates (mb₀ : Mailbox) (cs : List CallBy) :
    Sealed key (afterCalls key (mailboxInit mb₀) cs) ∧
      exec OneSlot.next none ((callLog key (mailboxInit mb₀) cs).map Record.event) =
        some (afterCalls key (mailboxInit mb₀) cs).slot := by
  obtain ⟨hsealed, hslot⟩ := (honest key).exec (sealed_init key mb₀) (exec_callStep key _ cs)
  rw [Mailbox.slot_init] at hslot
  rw [callLog, map_labels]
  exact ⟨hsealed, hslot⟩

/-- **Honest delivery.** From an initialised mailbox, in every sequence of calls by any cores: the
branch that rejects a message is never taken; and a `mailbox_receive` that returns 1 stores the
triple of the latest `mailbox_send` that returned 0, with no delivery in between. -/
theorem honest_delivery (mb₀ : Mailbox) (cs : List CallBy) :
    (∀ pre mpidr post, cs = pre ++ (mpidr, .receive) :: post →
      ¬ Rejects key (afterCalls key (mailboxInit mb₀) pre)) ∧
    (∀ pre r post, callLog key (mailboxInit mb₀) cs = pre ++ r :: post → r.Delivers →
      ∃ p s q msgType data, pre = p ++ s :: q ∧ s.call = .send msgType data ∧ s.outcome.ret = 0 ∧
        r.outcome.out = some ⟨getCoreId s.mpidr, msgType, data⟩ ∧
        ∀ x ∈ q, ¬ x.Posts ∧ ¬ x.Delivers) := by
  refine ⟨fun pre mpidr post _ => not_rejects_of_sealed (afterCalls_simulates key mb₀ pre).1,
    fun pre r post hlog hr => ?_⟩
  obtain ⟨cs₁, c, cs₂, -, -, hcall⟩ := callLog_split key hlog
  rw [hcall] at hr
  obtain ⟨hev, hout⟩ := event_of_delivers key hr
  rw [← hcall] at hev hout
  -- the receive takes a message, so the channel was posted it last
  have hrun := (afterCalls_simulates key mb₀ cs).2
  rw [hlog, List.map_append, List.map_cons, hev] at hrun
  obtain ⟨p, q, hpq, hq⟩ := take_of_post hrun
  obtain ⟨p', l, rfl, rfl, hl⟩ := List.map_eq_append_iff.1 hpq
  obtain ⟨s, q', rfl, hs, rfl⟩ := List.map_eq_cons_iff.1 hl
  obtain ⟨msgType, data, hsend, hret, hd⟩ := Record.posts_of_event hs
  refine ⟨p', s, q', msgType, data, rfl, hsend, hret, hd ▸ hout, fun x hx => ?_⟩
  exact Record.quiet_of_event (hq _ (List.mem_map_of_mem hx))

/-- A receive on a ready mailbox delivers its message. -/
theorem receive_of_ready (mb₀ : Mailbox) (cs : List CallBy)
    (h : (afterCalls key (mailboxInit mb₀) cs).status = 1) :
    (mailboxReceive key (afterCalls key (mailboxInit mb₀) cs)).2 =
      ⟨1, some (afterCalls key (mailboxInit mb₀) cs).delivery⟩ := by
  rw [mailboxReceive_ready h ((afterCalls_simulates key mb₀ cs).1 h)]

/-- An accepted message is delivered by the receive that comes next, whoever makes the two calls. -/
theorem receive_after_send (mb₀ : Mailbox) (cs : List CallBy) (mpidr : DWord) (msgType data : Word)
    (h : (afterCalls key (mailboxInit mb₀) cs).status ≠ 1) :
    (mailboxReceive key (afterCalls key (mailboxInit mb₀) (cs ++ [(mpidr, .send msgType data)]))).2 =
      ⟨1, some ⟨getCoreId mpidr, msgType, data⟩⟩ := by
  have hsend : afterCalls key (mailboxInit mb₀) (cs ++ [(mpidr, .send msgType data)]) =
      (mailboxSend key mpidr msgType data (afterCalls key (mailboxInit mb₀) cs)).1 :=
    List.foldl_concat ..
  obtain ⟨-, hready, hdelivery, -⟩ := mailboxSend_ok key mpidr msgType data h
  rw [← hsend] at hready hdelivery
  rw [receive_of_ready key mb₀ _ hready, hdelivery]

example (mb₀ : Mailbox) : (mailboxReceive key
    (afterCalls key (mailboxInit mb₀) [(0x80000002, .send msgData 7)])).2 =
      ⟨1, some ⟨2, msgData, 7⟩⟩ :=
  receive_after_send key mb₀ [] 0x80000002 msgData 7 (by show (0 : Word) ≠ 1; decide)

end

end Gateway
