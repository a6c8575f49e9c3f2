import Mathlib.Data.Fintype.Defs
import Gateway.RingBuffer.Ringbuf

/-!
# The ring buffer as a bounded queue

Runs of any number of threads in which no two calls of one kind disturb each other: no thread
stores `head` while another is inside a `ring_buffer_put`, and none stores `tail` while another is
inside a `ring_buffer_get` (`Undisturbed`). Then what a thread inside a call has read still holds
(`RingBuffer.Holds`), and the calls take effect one by one on a queue of capacity 255
(`Linearized`, `linearized_of_along`): a successful call at its store, a refused put at its load of
`tail`, a get that finds nothing at its load of `head`.
-/

namespace Gateway

open Runs CyclicQueue

/-! ## What a thread inside a call has read -/

/-- What the values read by the call mean for the buffer as it is now. -/
def RingBuffer.Holds (rb : RingBuffer) : Pc → Prop
  | .idle | .putHead _ | .getHead => True
  | .putTail _ nextHead => nextHead = nextIndex rb.head
  | .putIndex _ nextHead | .putPublish _ nextHead =>
    nextHead = nextIndex rb.head ∧ nextHead ≠ rb.tail
  | .putData _ nextHead i => nextHead = nextIndex rb.head ∧ nextHead ≠ rb.tail ∧ i = rb.head
  | .getTail h => h ≠ rb.tail → rb.head ≠ rb.tail
  | .getIndex => rb.head ≠ rb.tail
  | .getData i => rb.head ≠ rb.tail ∧ i = rb.tail
  | .getReload c => rb.head ≠ rb.tail ∧ c = rb.data rb.tail.toNat
  | .getPublish c nextTail =>
    rb.head ≠ rb.tail ∧ c = rb.data rb.tail.toNat ∧ nextTail = nextIndex rb.tail

/-- Both indices are below the size. -/
structure RingBuffer.InRange (rb : RingBuffer) : Prop where
  head : rb.head.toNat < ringBufferSize
  tail : rb.tail.toNat < ringBufferSize

section

variable {rb : RingBuffer} {pc : Pc}

theorem toNat_ne {i j : Word} (h : i ≠ j) : i.toNat ≠ j.toNat := fun he => h (BitVec.eq_of_toNat_eq he)

theorem nextIndex_ne {i j : Word} (hi : i.toNat < ringBufferSize) (hj : j.toNat < ringBufferSize)
    (h : i ≠ j) : nextIndex i ≠ nextIndex j := by
  intro he
  apply toNat_ne h
  apply next_inj hi hj
  rw [← nextIndex_toNat, ← nextIndex_toNat, he]

theorem RingBuffer.queue_eq_nil (h : rb.InRange) : rb.queue = [] ↔ rb.head = rb.tail := by
  unfold RingBuffer.queue
  rw [CyclicQueue.queue_eq_nil h.head h.tail]
  exact ⟨BitVec.eq_of_toNat_eq, congrArg _⟩

theorem RingBuffer.length_queue_full (h : rb.InRange) :
    rb.queue.length = 255 ↔ nextIndex rb.head = rb.tail := by
  have hfull := CyclicQueue.length_queue_full h.head h.tail rb.data
  unfold RingBuffer.queue
  rw [show 255 = ringBufferSize - 1 from rfl, hfull, ← nextIndex_toNat]
  exact ⟨BitVec.eq_of_toNat_eq, congrArg _⟩

/-- There is room in a buffer that is not full. -/
theorem RingBuffer.length_queue_lt (h : rb.InRange) (hroom : nextIndex rb.head ≠ rb.tail) :
    rb.queue.length < 255 := by
  have hne : rb.queue.length ≠ 255 := fun he => hroom ((length_queue_full h).1 he)
  have hlt : rb.queue.length < ringBufferSize := by
    unfold RingBuffer.queue
    rw [length_queue]
    exact used_lt h.tail
  unfold ringBufferSize at hlt
  omega

/-! ## The three stores -/

/-- The store of a put to the cell at `head`. -/
def RingBuffer.store (rb : RingBuffer) (c : Byte) : RingBuffer :=
  { rb with data := Function.update rb.data rb.head.toNat c }

/-- The store that ends a put. -/
def RingBuffer.push (rb : RingBuffer) : RingBuffer := { rb with head := nextIndex rb.head }

/-- The store that ends a get. -/
def RingBuffer.pop (rb : RingBuffer) : RingBuffer := { rb with tail := nextIndex rb.tail }

theorem RingBuffer.queue_store (h : rb.InRange) (c : Byte) : (rb.store c).queue = rb.queue :=
  CyclicQueue.queue_store h.head h.tail rb.data c

theorem RingBuffer.queue_push (h : rb.InRange) (hroom : nextIndex rb.head ≠ rb.tail) :
    rb.push.queue = rb.queue ++ [rb.data rb.head.toNat] := by
  have hne := toNat_ne hroom
  rw [nextIndex_toNat] at hne
  unfold RingBuffer.queue RingBuffer.push
  rw [nextIndex_toNat]
  exact CyclicQueue.queue_push h.head h.tail rb.data hne

theorem RingBuffer.queue_pop (h : rb.InRange) (hne : rb.head ≠ rb.tail) :
    rb.queue = rb.data rb.tail.toNat :: rb.pop.queue := by
  unfold RingBuffer.queue RingBuffer.pop
  rw [nextIndex_toNat]
  exact CyclicQueue.queue_pop h.head h.tail rb.data (toNat_ne hne)

theorem RingBuffer.Holds.store (h : rb.Holds pc) (c : Byte) : (rb.store c).Holds pc := by
  -- a get that has read its byte read it from another cell
  have hdata : rb.head ≠ rb.tail → (rb.store c).data rb.tail.toNat = rb.data rb.tail.toNat :=
    fun hne => Function.update_of_ne (toNat_ne hne).symm _ _
  cases pc with
  | getReload b => exact ⟨h.1, h.2.trans (hdata h.1).symm⟩
  | getPublish b nextTail => exact ⟨h.1, h.2.1.trans (hdata h.1).symm, h.2.2⟩
  | _ => exact h

theorem RingBuffer.Holds.push (h : rb.Holds pc) (hpc : pc.inPut = false)
    (hroom : nextIndex rb.head ≠ rb.tail) : rb.push.Holds pc := by
  cases pc with
  | idle | putHead | getHead => trivial
  | putTail | putIndex | putData | putPublish => cases hpc
  | getTail => exact fun _ => hroom
  | getIndex => exact hroom
  | getData | getReload | getPublish => exact ⟨hroom, h.2⟩

theorem RingBuffer.Holds.pop (h : rb.Holds pc) (hr : rb.InRange) (hpc : pc.inGet = false)
    (hne : rb.head ≠ rb.tail) : rb.pop.Holds pc := by
  have hroom : nextIndex rb.head ≠ nextIndex rb.tail := nextIndex_ne hr.head hr.tail hne
  cases pc with
  | idle | putHead | getHead => trivial
  | getTail | getIndex | getData | getReload | getPublish => cases hpc
  | putTail => exact h
  | putIndex c nextHead | putPublish c nextHead => exact ⟨h.1, h.1 ▸ hroom⟩
  | putData c nextHead i => exact ⟨h.1, h.1 ▸ hroom, h.2.2⟩

end

/-! ## The invariant -/

section

variable {T : Type*} [DecidableEq T]

/-- The thread is about to store `head`. -/
def Pc.atPublish : Pc → Bool
  | .putPublish .. => true
  | _ => false

/-- The thread is about to store `tail`. -/
def Pc.atRelease : Pc → Bool
  | .getPublish .. => true
  | _ => false

/-- A thread that is about to store `head` is the only one inside a put, and one that is about to
store `tail` is the only one inside a get. -/
def Undisturbed (s : RingState T) : RingAct T → Prop
  | .access t =>
    ((s.pc t).atPublish = true → ∀ u, u ≠ t → (s.pc u).inPut = false) ∧
      ((s.pc t).atRelease = true → ∀ u, u ≠ t → (s.pc u).inGet = false)
  | _ => True

instance [Fintype T] (s : RingState T) (a : RingAct T) : Decidable (Undisturbed s a) := by
  cases a <;> unfold Undisturbed <;> infer_instance

structure RingInv (s : RingState T) : Prop where
  inRange : s.rb.InRange
  holds : ∀ t, s.rb.Holds (s.pc t)
  /-- The byte of a put about to publish is in its cell, unless another put has stored there. -/
  stored : ∀ t c nextHead, s.pc t = .putPublish c nextHead →
    (∀ u, u ≠ t → (s.pc u).atPublish = false) → s.rb.data s.rb.head.toNat = c

omit [DecidableEq T] in
theorem ringInv_start (rb₀ : RingBuffer) : RingInv (ringStart (T := T) rb₀) where
  inRange := ⟨Nat.zero_lt_succ 255, Nat.zero_lt_succ 255⟩
  holds _ := trivial
  stored _ _ _ h := by cases h

variable {s : RingState T} {t : T} {rb : RingBuffer} {pc : Pc}

/-- A step of `t` that is not the store to the cell at `head` keeps the invariant if the values read
by the others stay right and those of `t` are. -/
theorem RingInv.goto (h : RingInv s) (hr : rb.InRange) (hself : rb.Holds pc)
    (hothers : ∀ u, u ≠ t → rb.Holds (s.pc u))
    (hpub : pc.atPublish = false) (hcell : (s.pc t).atPublish = false →
      rb.data rb.head.toNat = s.rb.data s.rb.head.toNat)
    (hexcl : (s.pc t).atPublish = true → ∀ u, u ≠ t → (s.pc u).inPut = false) :
    RingInv (s.goto t rb pc) where
  inRange := hr
  holds u := by
    by_cases hu : u = t
    · subst hu; rwa [goto_pc_self]
    · rw [goto_pc_of_ne _ _ _ hu]; exact hothers u hu
  stored u c nextHead hpc halone := by
    by_cases hu : u = t
    · subst hu
      rw [goto_pc_self] at hpc
      rw [hpc] at hpub
      cases hpub
    · rw [goto_pc_of_ne _ _ _ hu] at hpc
      cases ht : (s.pc t).atPublish with
      | true =>
        have := hexcl ht u hu
        rw [hpc] at this
        cases this
      | false =>
        refine (hcell ht).trans (h.stored u c nextHead hpc fun v hv => ?_)
        by_cases hvt : v = t
        · rwa [hvt]
        · rw [← goto_pc_of_ne s rb pc hvt]; exact halone v hv

/-- A step that only reads. -/
theorem RingInv.read (h : RingInv s) (hself : s.rb.Holds pc) (hpub : pc.atPublish = false)
    (ht : (s.pc t).atPublish = false) : RingInv (s.goto t s.rb pc) :=
  h.goto h.inRange hself (fun u _ => h.holds u) hpub (fun _ => rfl)
    fun h' => by rw [ht] at h'; cases h'

/-- The store of a put to the cell at `head`. -/
theorem RingInv.store (h : RingInv s) {c : Byte} {nextHead i : Word}
    (hpc : s.pc t = .putData c nextHead i) :
    i = s.rb.head ∧ RingInv (s.goto t (s.rb.store c) (.putPublish c nextHead)) := by
  obtain ⟨hnext, hroom, rfl⟩ : s.rb.Holds (.putData c nextHead i) := hpc ▸ h.holds t
  refine ⟨rfl, ⟨⟨h.inRange.head, h.inRange.tail⟩, fun u => ?_, fun u b n hu halone => ?_⟩⟩
  · by_cases hut : u = t
    · subst hut; rw [goto_pc_self]; exact ⟨hnext, hroom⟩
    · rw [goto_pc_of_ne _ _ _ hut]; exact (h.holds u).store c
  · by_cases hut : u = t
    · subst hut
      rw [goto_pc_self] at hu
      obtain ⟨rfl, -⟩ := Pc.putPublish.inj hu
      exact Function.update_self ..
    · have := halone t (Ne.symm hut)
      rw [goto_pc_self] at this
      cases this

/-! ## The calls take effect one by one -/

/-- The operation that takes effect in this step, and its thread. -/
def takesEffect (s : RingState T) : RingAct T → Option (T × Event Byte)
  | .access t =>
    match s.pc t with
    | .putTail c nextHead => if nextHead = s.rb.tail then some (t, .full c) else none
    | .putPublish c _ => some (t, .put c)
    | .getHead => if s.rb.head = s.rb.tail then some (t, .empty) else none
    | .getPublish c _ => some (t, .get c)
    | _ => none
  | _ => none

/-- The operation of a thread at `pc` that has taken effect though its call has not returned: a get
that has found nothing. -/
def pending (rb : RingBuffer) (t : T) : Pc → List (T × Event Byte)
  | .getTail h => if h = rb.tail then [(t, .empty)] else []
  | _ => []

/-- The operations `l` that took effect are operations of a queue of capacity 255, which now holds
the bytes in the buffer; they are the completed calls of each thread in its order, and its pending
operation. -/
structure Linearized (s : RingState T) (l : List (Option (T × Event Byte))) : Prop where
  inv : RingInv s
  served : exec (serveBy (ringBufferSize - 1)) [] l = some s.rb.queue
  accepted : puts (events l.reduceOption) = s.accepted
  returned : gets (events l.reduceOption) = s.returned
  calls : ∀ t, eventsOf t l.reduceOption = eventsOf t s.log ++ pending s.rb t (s.pc t)

theorem linearized_start (rb₀ : RingBuffer) : Linearized (ringStart (T := T) rb₀) [] where
  inv := ringInv_start rb₀
  served := congrArg some ((RingBuffer.queue_eq_nil (ringInv_start (T := T) rb₀).inRange).2 rfl).symm
  accepted := rfl
  returned := rfl
  calls _ := rfl

variable {l : List (Option (T × Event Byte))}

theorem Linearized.serve (h : Linearized s l) {o : Option (T × Event Byte)} {q : List Byte}
    (ho : serveBy (ringBufferSize - 1) s.rb.queue o = some q) :
    exec (serveBy (ringBufferSize - 1)) [] (l ++ [o]) = some q :=
  exec_concat_eq_some.2 ⟨_, h.served, ho⟩

/-- A step in which nothing takes effect and no call returns. -/
theorem Linearized.silent (h : Linearized s l) (hinv : RingInv (s.goto t rb pc))
    (hq : rb.queue = s.rb.queue) (htail : rb.tail = s.rb.tail)
    (hpend : pending rb t pc = pending s.rb t (s.pc t)) :
    Linearized (s.goto t rb pc) (l ++ [none]) where
  inv := hinv
  served := h.serve (congrArg some hq.symm)
  accepted := by
    rw [List.reduceOption_append]
    exact (congrArg _ (congrArg _ (List.append_nil _))).trans h.accepted
  returned := by
    rw [List.reduceOption_append]
    exact (congrArg _ (congrArg _ (List.append_nil _))).trans h.returned
  calls u := by
    rw [List.reduceOption_append, List.reduceOption_singleton, Option.toList_none, List.append_nil,
      h.calls u, goto_log, goto_rb]
    by_cases hu : u = t
    · subst hu; rw [goto_pc_self, hpend]
    · rw [goto_pc_of_ne _ _ _ hu]
      unfold pending
      rw [htail]

/-- A step in which a call takes effect and returns. -/
theorem Linearized.complete (h : Linearized s l) {e : Event Byte} (hinv : RingInv (s.ret t rb e))
    (hq : CyclicQueue.serve (ringBufferSize - 1) s.rb.queue e = some rb.queue)
    (hothers : ∀ u, u ≠ t → pending rb u (s.pc u) = pending s.rb u (s.pc u))
    (hpend : pending s.rb t (s.pc t) = []) :
    Linearized (s.ret t rb e) (l ++ [some (t, e)]) where
  inv := hinv
  served := h.serve hq
  accepted := by
    rw [List.reduceOption_append, events, List.map_append, puts_append]
    show puts (events _) ++ _ = puts (List.map _ (s.log ++ _))
    rw [h.accepted, List.map_append, puts_append]
    rfl
  returned := by
    rw [List.reduceOption_append, events, List.map_append, gets_append]
    show gets (events _) ++ _ = gets (List.map _ (s.log ++ _))
    rw [h.returned, List.map_append, gets_append]
    rfl
  calls u := by
    rw [List.reduceOption_append, List.reduceOption_singleton, Option.toList_some, ret_log, eventsOf,
      eventsOf, List.filter_append, List.filter_append, ret_rb]
    show eventsOf u _ ++ _ = eventsOf u _ ++ _ ++ _
    rw [h.calls u]
    by_cases hu : u = t
    · subst hu; rw [ret_pc_self, hpend, List.append_nil]; exact (List.append_nil _).symm
    · have hne : List.filter (fun x => decide (x.1 = u)) [(t, e)] = [] := by
        simp [Ne.symm hu]
      rw [ret_pc_of_ne _ _ _ hu, hothers u hu, hne, List.append_nil, List.append_nil]

/-- A `ring_buffer_put` that loads `tail` and finds the buffer full returns. -/
theorem Linearized.refuses (h : Linearized s l) {c : Byte} {nextHead : Word}
    (hpc : s.pc t = .putTail c nextHead) (hfull : nextHead = s.rb.tail) :
    Linearized (s.ret t s.rb (.full c)) (l ++ [some (t, .full c)]) := by
  have hnext : nextHead = nextIndex s.rb.head := by
    have hh := h.inv.holds t
    rwa [hpc] at hh
  have hlen : s.rb.queue.length = 255 :=
    (RingBuffer.length_queue_full h.inv.inRange).2 (hnext.symm.trans hfull)
  have hinv : RingInv (s.goto t s.rb .idle) := h.inv.read trivial rfl (by rw [hpc]; rfl)
  exact h.complete ⟨hinv.inRange, hinv.holds, hinv.stored⟩ (if_pos hlen) (fun _ _ => rfl)
    (by rw [hpc]; rfl)

/-- A `ring_buffer_get` that loads `head` and finds it equal to `tail` has taken effect. -/
theorem Linearized.findsNothing (h : Linearized s l) (hpc : s.pc t = .getHead)
    (he : s.rb.head = s.rb.tail) :
    Linearized (s.goto t s.rb (.getTail s.rb.head)) (l ++ [some (t, .empty)]) where
  inv := h.inv.read (fun hne => absurd he hne) rfl (by rw [hpc]; rfl)
  served := h.serve (if_pos ((RingBuffer.queue_eq_nil h.inv.inRange).2 he))
  accepted := by
    rw [List.reduceOption_append, events, List.map_append, puts_append]
    exact (List.append_nil _).trans h.accepted
  returned := by
    rw [List.reduceOption_append, events, List.map_append, gets_append]
    exact (List.append_nil _).trans h.returned
  calls u := by
    rw [List.reduceOption_append, List.reduceOption_singleton, Option.toList_some, eventsOf,
      List.filter_append]
    show eventsOf u _ ++ _ = _
    rw [h.calls u, goto_log, goto_rb]
    by_cases hu : u = t
    · subst hu
      rw [goto_pc_self, hpc]
      simp [pending, he]
    · rw [goto_pc_of_ne _ _ _ hu]
      simp [Ne.symm hu]

/-- A `ring_buffer_get` that has found nothing returns. -/
theorem Linearized.returnsNothing (h : Linearized s l) {i : Word} (hpc : s.pc t = .getTail i)
    (he : i = s.rb.tail) : Linearized (s.ret t s.rb .empty) (l ++ [none]) where
  inv := by
    have hread : RingInv (s.goto t s.rb .idle) := h.inv.read trivial rfl (by rw [hpc]; rfl)
    exact ⟨hread.inRange, hread.holds, hread.stored⟩
  served := h.serve rfl
  accepted := by
    rw [List.reduceOption_append]
    refine (congrArg _ (congrArg _ (List.append_nil _))).trans (h.accepted.trans ?_)
    show _ = puts (List.map _ (s.log ++ _))
    rw [List.map_append, puts_append]
    exact (List.append_nil _).symm
  returned := by
    rw [List.reduceOption_append]
    refine (congrArg _ (congrArg _ (List.append_nil _))).trans (h.returned.trans ?_)
    show _ = gets (List.map _ (s.log ++ _))
    rw [List.map_append, gets_append]
    exact (List.append_nil _).symm
  calls u := by
    rw [List.reduceOption_append, List.reduceOption_singleton, Option.toList_none, List.append_nil,
      h.calls u, ret_log, ret_rb, eventsOf, eventsOf, List.filter_append, List.append_assoc]
    by_cases hu : u = t
    · subst hu
      rw [ret_pc_self, hpc]
      simp [pending, he]
    · rw [ret_pc_of_ne _ _ _ hu]
      simp [Ne.symm hu]

/-- A put publishes its byte. -/
theorem Linearized.putReturns (h : Linearized s l) {c : Byte} {nextHead : Word}
    (hpc : s.pc t = .putPublish c nextHead) (hexcl : ∀ u, u ≠ t → (s.pc u).inPut = false) :
    Linearized (s.ret t { s.rb with head := nextHead } (.put c)) (l ++ [some (t, .put c)]) := by
  obtain ⟨rfl, hroom⟩ : s.rb.Holds (.putPublish c nextHead) := hpc ▸ h.inv.holds t
  have hpub : ∀ u, u ≠ t → (s.pc u).atPublish = false := by
    intro u hu
    have := hexcl u hu
    cases hu' : s.pc u <;> rw [hu'] at this <;> first | rfl | cases this
  have hcell := h.inv.stored t c _ hpc hpub
  have hr := h.inv.inRange
  have hinv : RingInv (s.goto t s.rb.push .idle) :=
    h.inv.goto ⟨nextIndex_lt _, hr.tail⟩ trivial
      (fun u hu => (h.inv.holds u).push (hexcl u hu) hroom) rfl
      (fun h' => by rw [hpc] at h'; cases h') fun _ => hexcl
  refine h.complete ⟨hinv.inRange, hinv.holds, hinv.stored⟩ ?_ (fun u _ => rfl) (by rw [hpc]; rfl)
  show (if s.rb.queue.length < 255 then some (s.rb.queue ++ [c]) else none) = some s.rb.push.queue
  rw [if_pos (RingBuffer.length_queue_lt hr hroom), RingBuffer.queue_push hr hroom, hcell]

/-- A get releases the cell of its byte. -/
theorem Linearized.getReturns (h : Linearized s l) {c : Byte} {nextTail : Word}
    (hpc : s.pc t = .getPublish c nextTail) (hexcl : ∀ u, u ≠ t → (s.pc u).inGet = false) :
    Linearized (s.ret t { s.rb with tail := nextTail } (.get c)) (l ++ [some (t, .get c)]) := by
  obtain ⟨hne, rfl, rfl⟩ : s.rb.Holds (.getPublish c nextTail) := hpc ▸ h.inv.holds t
  have hr := h.inv.inRange
  have hinv : RingInv (s.goto t s.rb.pop .idle) :=
    h.inv.goto ⟨hr.head, nextIndex_lt _⟩ trivial
      (fun u hu => (h.inv.holds u).pop hr (hexcl u hu) hne) rfl (fun _ => rfl)
      fun h' => by rw [hpc] at h'; cases h'
  refine h.complete ⟨hinv.inRange, hinv.holds, hinv.stored⟩ ?_ (fun u hu => ?_) (by rw [hpc]; rfl)
  · show (if s.rb.queue.head? = some _ then some s.rb.queue.tail else none) = some s.rb.pop.queue
    rw [RingBuffer.queue_pop hr hne]
    exact if_pos rfl
  · -- no other get is pending
    have := hexcl u hu
    cases hu' : s.pc u <;> rw [hu'] at this <;> first | rfl | cases this

theorem linearized_step {s' : RingState T} {a : RingAct T} (h : Linearized s l)
    (hg : Undisturbed s a) (hs : ringStep s a = some s') :
    Linearized s' (l ++ [takesEffect s a]) := by
  have hread : ∀ t pc, s.rb.Holds pc → pc.atPublish = false → (s.pc t).atPublish = false →
      pending s.rb t pc = pending s.rb t (s.pc t) →
      Linearized (s.goto t s.rb pc) (l ++ [none]) := fun t pc hself hpub ht hpend =>
    h.silent (h.inv.read hself hpub ht) rfl rfl hpend
  cases a with
  | put t c =>
    obtain ⟨hpc, hs⟩ := Option.ite_none_right_eq_some.1 hs
    obtain rfl := Option.some.inj hs
    exact hread t _ trivial rfl (by rw [hpc]; rfl) (by rw [hpc]; rfl)
  | get t =>
    obtain ⟨hpc, hs⟩ := Option.ite_none_right_eq_some.1 hs
    obtain rfl := Option.some.inj hs
    exact hread t _ trivial rfl (by rw [hpc]; rfl) (by rw [hpc]; rfl)
  | access t =>
    have hh := h.inv.holds t
    replace hread := hread t
    change s.access t = some s' at hs
    unfold RingState.access at hs
    unfold takesEffect
    dsimp only at hs ⊢
    cases hpc : s.pc t with
    | idle => rw [hpc] at hs; cases hs
    | putHead c =>
      rw [hpc] at hs hread
      obtain rfl := Option.some.inj hs
      exact hread _ rfl rfl rfl rfl
    | putTail c nextHead =>
      rw [hpc] at hh
      rw [hpc] at hs hread
      obtain rfl := Option.some.inj hs
      dsimp only
      by_cases hfull : nextHead = s.rb.tail
      · rw [if_pos hfull, if_pos hfull]
        exact h.refuses hpc hfull
      · rw [if_neg hfull, if_neg hfull]
        exact hread _ ⟨hh, hfull⟩ rfl rfl rfl
    | putIndex c nextHead =>
      rw [hpc] at hh
      rw [hpc] at hs hread
      obtain rfl := Option.some.inj hs
      exact hread _ ⟨hh.1, hh.2, rfl⟩ rfl rfl rfl
    | putData c nextHead i =>
      rw [hpc] at hs
      obtain rfl := Option.some.inj hs
      obtain ⟨rfl, hinv⟩ := h.inv.store hpc
      exact h.silent hinv (RingBuffer.queue_store h.inv.inRange c) rfl (by rw [hpc]; rfl)
    | putPublish c nextHead =>
      rw [hpc] at hs
      obtain rfl := Option.some.inj hs
      exact h.putReturns hpc (hg.1 (by rw [hpc]; rfl))
    | getHead =>
      rw [hpc] at hs hread
      obtain rfl := Option.some.inj hs
      dsimp only
      by_cases he : s.rb.head = s.rb.tail
      · rw [if_pos he]
        exact h.findsNothing hpc he
      · rw [if_neg he]
        exact hread _ (fun hne => hne) rfl rfl (if_neg he)
    | getTail i =>
      rw [hpc] at hh
      rw [hpc] at hs hread
      obtain rfl := Option.some.inj hs
      dsimp only
      by_cases he : i = s.rb.tail
      · rw [if_pos he]
        exact h.returnsNothing hpc he
      · rw [if_neg he]
        exact hread _ (hh he) rfl rfl (if_neg he).symm
    | getIndex =>
      rw [hpc] at hh
      rw [hpc] at hs hread
      obtain rfl := Option.some.inj hs
      exact hread _ ⟨hh, rfl⟩ rfl rfl rfl
    | getData i =>
      rw [hpc] at hh
      rw [hpc] at hs hread
      obtain rfl := Option.some.inj hs
      exact hread _ ⟨hh.1, by rw [hh.2]⟩ rfl rfl rfl
    | getReload c =>
      rw [hpc] at hh
      rw [hpc] at hs hread
      obtain rfl := Option.some.inj hs
      exact hread _ ⟨hh.1, hh.2, rfl⟩ rfl rfl rfl
    | getPublish c nextTail =>
      rw [hpc] at hs
      obtain rfl := Option.some.inj hs
      exact h.getReturns hpc (hg.2 (by rw [hpc]; rfl))

/-- **Linearizability.** In every run whose calls do not disturb each other, the calls take effect
one by one on a queue of capacity 255. -/
theorem linearized_of_along {rb₀ : RingBuffer} {acts : List (RingAct T)} {s : RingState T}
    (hg : Along ringStep Undisturbed (ringStart rb₀) acts)
    (h : exec ringStep (ringStart rb₀) acts = some s) :
    Linearized s (labels ringStep takesEffect (ringStart rb₀) acts) :=
  labels_invariant_along (fun _ _ _ _ hJ hG hs => linearized_step hJ hG hs) (linearized_start rb₀)
    hg h

/-- What `ring_buffer_put` took and `ring_buffer_get` did not give back is in the buffer. -/
theorem Linearized.accepted_eq (h : Linearized s l) :
    s.accepted = s.returned ++ s.rb.queue ∧ s.rb.queue.length ≤ 255 := by
  rw [← h.accepted, ← h.returned]
  exact puts_eq h.served

end

end Gateway
