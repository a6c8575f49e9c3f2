import Gateway.RingBuffer.Linearization

/-!
# One producer, one consumer

The use for which `ringbuf.h` documents the ring buffer: one core only puts and another core only
gets. Then no two calls of one kind overlap, so every interleaving of their accesses is that of a
queue of capacity 255 (`ring_buffer_fifo`).
-/

namespace Gateway

open Runs CyclicQueue

variable {T : Type*} [DecidableEq T] {p c : T}

/-- Only `p` puts and only `c` gets. -/
def Spsc (p c : T) : RingAct T → Prop
  | .put t _ => t = p
  | .get t => t = c
  | .access _ => True

/-- Only `p` is inside a put and only `c` inside a get. -/
structure Sides (p c : T) (s : RingState T) : Prop where
  put : ∀ t, (s.pc t).isPut = true → t = p
  get : ∀ t, (s.pc t).isGet = true → t = c

omit [DecidableEq T] in
theorem sides_start (p c : T) (rb₀ : RingBuffer) : Sides p c (ringStart rb₀) where
  put _ h := by cases h
  get _ h := by cases h

theorem Sides.goto {s : RingState T} (h : Sides p c s) {t : T} {rb : RingBuffer} {pc : Pc}
    (hput : pc.isPut = true → t = p) (hget : pc.isGet = true → t = c) :
    Sides p c (s.goto t rb pc) where
  put u hu := by
    by_cases hut : u = t
    · subst hut; rw [goto_pc_self] at hu; exact hput hu
    · rw [goto_pc_of_ne _ _ _ hut] at hu; exact h.put u hu
  get u hu := by
    by_cases hut : u = t
    · subst hut; rw [goto_pc_self] at hu; exact hget hu
    · rw [goto_pc_of_ne _ _ _ hut] at hu; exact h.get u hu

theorem sides_step {s s' : RingState T} {a : RingAct T} (h : Sides p c s) (ha : Spsc p c a)
    (hs : ringStep s a = some s') : Sides p c s' := by
  cases a with
  | put t b =>
    obtain rfl := Option.some.inj (Option.ite_none_right_eq_some.1 hs).2
    exact h.goto (fun _ => ha) fun hget => by cases hget
  | get t =>
    obtain rfl := Option.some.inj (Option.ite_none_right_eq_some.1 hs).2
    exact h.goto (fun hput => by cases hput) fun _ => ha
  | access t =>
    rcases access_cases hs with ⟨rb, pc, rfl, -, hput, hget⟩ | ⟨rb, e, rfl, -, -⟩
    · exact h.goto (fun hp => h.put t (hput ▸ hp)) fun hg => h.get t (hget ▸ hg)
    · have hidle : Sides p c (s.goto t rb .idle) :=
        h.goto (fun hp => by cases hp) fun hg => by cases hg
      exact ⟨hidle.put, hidle.get⟩

theorem inPut_of_isPut {pc : Pc} (h : pc.isPut = false) : pc.inPut = false := by
  cases pc <;> first | rfl | cases h

theorem inGet_of_isGet {pc : Pc} (h : pc.isGet = false) : pc.inGet = false := by
  cases pc <;> first | rfl | cases h

omit [DecidableEq T] in
/-- Calls on different sides do not disturb each other. -/
theorem Sides.undisturbed {s : RingState T} (h : Sides p c s) (a : RingAct T) :
    Undisturbed s a := by
  cases a with
  | put | get => trivial
  | access t =>
    have hexcl : ∀ u q, u ≠ t → t = q → (b : Bool) → (b = true → u = q) → b = false := by
      intro u q hu ht b hb
      by_contra hne
      exact hu ((hb (Bool.not_eq_false _ ▸ hne)).trans ht.symm)
    refine ⟨fun hpub u hu => inPut_of_isPut (hexcl u p hu (h.put t ?_) _ (h.put u)),
      fun hrel u hu => inGet_of_isGet (hexcl u c hu (h.get t ?_) _ (h.get u))⟩
    · cases hpc : s.pc t <;> rw [hpc] at hpub <;> first | rfl | cases hpub
    · cases hpc : s.pc t <;> rw [hpc] at hrel <;> first | rfl | cases hrel

/-- While the consumer does not move, `tail` and the consumer's call stay as they are. -/
theorem consumer_waits {s s' : RingState T} {a : RingAct T} (h : Sides p c s) (ha : Spsc p c a)
    (hidle : s.pc c ≠ .idle) (hne : a ≠ .access c) (hs : ringStep s a = some s') :
    s'.pc c = s.pc c ∧ s'.rb.tail = s.rb.tail := by
  cases a with
  | put t b =>
    obtain ⟨ht, hs⟩ := Option.ite_none_right_eq_some.1 hs
    obtain rfl := Option.some.inj hs
    exact ⟨goto_pc_of_ne _ _ _ fun hc => hidle (hc ▸ ht), rfl⟩
  | get t =>
    obtain ⟨ht, -⟩ := Option.ite_none_right_eq_some.1 hs
    obtain rfl : t = c := ha
    exact absurd ht hidle
  | access t =>
    have htc : c ≠ t := fun hc => hne (hc ▸ rfl)
    rcases access_cases hs with ⟨rb, pc, rfl, htail, -, -⟩ | ⟨rb, e, rfl, htail | hget, -⟩
    · exact ⟨goto_pc_of_ne _ _ _ htc, htail⟩
    · exact ⟨ret_pc_of_ne _ _ _ htc, htail⟩
    · exact absurd (h.get t hget).symm htc

/-- The same over a run without an access of the consumer. -/
theorem consumer_waits_run {s s' : RingState T} {acts : List (RingAct T)} (h : Sides p c s)
    (hidle : s.pc c ≠ .idle) (hacts : ∀ a ∈ acts, Spsc p c a ∧ a ≠ .access c)
    (hexec : exec ringStep s acts = some s') : s'.pc c = s.pc c ∧ s'.rb.tail = s.rb.tail := by
  refine (exec_invariant_along (G := fun _ a => Spsc p c a ∧ a ≠ .access c)
    (I := fun t => Sides p c t ∧ t.pc c = s.pc c ∧ t.rb.tail = s.rb.tail)
    ?_ ⟨h, rfl, rfl⟩ (along_of_forall hacts) hexec).2
  rintro t a t' ⟨ht, htc, htt⟩ ⟨hG, hne⟩ hs
  obtain ⟨hk, hk'⟩ := consumer_waits ht hG (htc.symm ▸ hidle) hne hs
  exact ⟨sides_step ht hG hs, hk.trans htc, hk'.trans htt⟩

/-- The result that an access adds to the log is the result of that access. -/
theorem mayReturn_of_log {s s' : RingState T} {a : RingAct T} {t : T} {e : Event Byte}
    (hs : ringStep s a = some s') (hlog : s'.log = s.log ++ [(t, e)]) :
    a = .access t ∧ (s.pc t).MayReturn s.rb e := by
  have hne : s.log ≠ s.log ++ [(t, e)] := by simp
  cases a with
  | put u b =>
    obtain rfl := Option.some.inj (Option.ite_none_right_eq_some.1 hs).2
    exact absurd hlog hne
  | get u =>
    obtain rfl := Option.some.inj (Option.ite_none_right_eq_some.1 hs).2
    exact absurd hlog hne
  | access u =>
    rcases access_cases hs with ⟨rb, pc, rfl, -, -, -⟩ | ⟨rb, e', rfl, -, hmay⟩
    · exact absurd hlog hne
    · rw [ret_log] at hlog
      obtain ⟨rfl, rfl⟩ := Prod.mk.inj (List.singleton_inj.1 (List.append_cancel_left hlog))
      exact ⟨rfl, hmay⟩

/-- A put that returns -1 loads `tail` when the buffer is full. -/
theorem Linearized.full_of_log {s s' : RingState T} {l : List (Option (T × Event Byte))}
    {a : RingAct T} {t : T} {b : Byte} (h : Linearized s l) (hs : ringStep s a = some s')
    (hlog : s'.log = s.log ++ [(t, .full b)]) : s.rb.queue.length = 255 := by
  obtain ⟨-, hmay⟩ := mayReturn_of_log hs hlog
  have hnext : s.rb.Holds (.putTail b s.rb.tail) := hmay ▸ h.inv.holds t
  exact (RingBuffer.length_queue_full h.inv.inRange).2 hnext.symm

/-- A get of the consumer that returns -1 loaded `head` when the buffer was empty. -/
theorem Linearized.empty_of_log {s s₁ s₂ : RingState T} {l : List (Option (T × Event Byte))}
    {mid : List (RingAct T)} (h : Linearized s l) (hsides : Sides p c s) (hhead : s.pc c = .getHead)
    (hmid : ∀ a ∈ mid, Spsc p c a ∧ a ≠ .access c)
    (h₁ : exec ringStep s (.access c :: mid) = some s₁) (h₂ : ringStep s₁ (.access c) = some s₂)
    (hlog : s₂.log = s₁.log ++ [(c, .empty)]) : s.rb.queue = [] := by
  obtain ⟨s₀, h₀, h₁⟩ := exec_cons_eq_some.1 h₁
  have hload : ringStep s (.access c) = some (s.goto c s.rb (.getTail s.rb.head)) := by
    show s.access c = _
    unfold RingState.access
    rw [hhead]
  obtain rfl := Option.some.inj (hload.symm.trans h₀)
  -- until its next access the consumer has loaded `head`, and `tail` does not move
  have hloaded : (s.goto c s.rb (.getTail s.rb.head)).pc c = .getTail s.rb.head := goto_pc_self ..
  obtain ⟨hpc, htail⟩ := consumer_waits_run (sides_step (a := .access c) hsides trivial hload)
    (by rw [hloaded]; exact Pc.noConfusion) hmid h₁
  obtain ⟨-, hmay⟩ := mayReturn_of_log h₂ hlog
  have he : s.rb.head = s₁.rb.tail := Pc.getTail.inj ((hpc.trans hloaded).symm.trans hmay)
  exact (RingBuffer.queue_eq_nil h.inv.inRange).2 (he.trans htail)

/-- **A queue of capacity 255.** In every interleaving of the accesses of a core `p` that only puts
and a core `c` that only gets, from `ring_buffer_init`: the calls take effect, each between its
first access and its return, as the operations of such a queue; the bytes put in are the bytes
taken out followed by those in the buffer; a put returns -1 only if the buffer holds 255 bytes when
it loads `tail`, and a get only if it was empty when it loaded `head`. -/
theorem ring_buffer_fifo (rb₀ : RingBuffer) (acts : List (RingAct T))
    (s : RingState T) (hacts : ∀ a ∈ acts, Spsc p c a)
    (h : exec ringStep (ringStart rb₀) acts = some s) :
    (exec (serveBy 255) [] (labels ringStep takesEffect (ringStart rb₀) acts) = some s.rb.queue ∧
      ∀ t, eventsOf t (labels ringStep takesEffect (ringStart rb₀) acts).reduceOption =
        eventsOf t s.log ++ pending s.rb t (s.pc t)) ∧
    s.accepted = s.returned ++ s.rb.queue ∧ s.rb.queue.length ≤ 255 ∧
    (∀ pre a post s₁ s₂ b, acts = pre ++ a :: post →
      exec ringStep (ringStart rb₀) pre = some s₁ → ringStep s₁ a = some s₂ →
      s₂.log = s₁.log ++ [(p, .full b)] → s₁.rb.queue.length = 255) ∧
    (∀ pre mid post s₁ s₂ s₃, acts = pre ++ .access c :: mid ++ .access c :: post →
      .access c ∉ mid → exec ringStep (ringStart rb₀) pre = some s₁ → s₁.pc c = .getHead →
      exec ringStep s₁ (.access c :: mid) = some s₂ → ringStep s₂ (.access c) = some s₃ →
      s₃.log = s₂.log ++ [(c, .empty)] → s₁.rb.queue = []) := by
  have hspsc : ∀ pre t, pre <+: acts → exec ringStep (ringStart rb₀) pre = some t →
      Sides p c t ∧ Linearized t (labels ringStep takesEffect (ringStart rb₀) pre) := by
    intro pre t hpre ht
    have hA : Along ringStep (fun _ a => Spsc p c a) (ringStart rb₀) pre :=
      along_of_forall fun a ha => hacts a (hpre.subset ha)
    have hstep : ∀ (s : RingState T) a s', Sides p c s → Spsc p c a → ringStep s a = some s' →
        Sides p c s' := fun _ _ _ => sides_step
    refine ⟨exec_invariant_along hstep (sides_start p c rb₀) hA ht, linearized_of_along ?_ ht⟩
    exact (hA.strengthen hstep (sides_start p c rb₀)).mono fun s a hI => hI.1.undisturbed a
  have hlin := (hspsc acts s (List.prefix_refl _) h).2
  refine ⟨⟨hlin.served, hlin.calls⟩, hlin.accepted_eq.1, hlin.accepted_eq.2, ?_, ?_⟩
  · intro pre a post s₁ s₂ b hsplit h₁ h₂ hlog
    exact (hspsc pre s₁ (hsplit ▸ List.prefix_append _ _) h₁).2.full_of_log h₂ hlog
  · intro pre mid post s₁ s₂ s₃ hsplit hmid h₁ hhead h₂ h₃ hlog
    obtain ⟨hsides, hinv⟩ := hspsc pre s₁
      (by rw [hsplit, List.append_assoc]; exact List.prefix_append _ _) h₁
    refine hinv.empty_of_log hsides hhead (fun a ha => ⟨hacts a ?_, fun hac => hmid (hac ▸ ha)⟩)
      h₂ h₃ hlog
    rw [hsplit]
    simp [ha]

/-- Core 1 puts `A` while core 2 gets; core 2 loads `head` before it moves, and its get returns -1. -/
def onePut : List (RingAct (Fin 4)) :=
  [.put 1 0x41, .access 1, .get 2, .access 2, .access 1, .access 1, .access 1, .access 1, .access 2]

/-- A put of `B`, and then a get. -/
def putGet : List (RingAct (Fin 4)) :=
  .put 1 0x42 :: List.replicate 5 (.access 1) ++ .get 2 :: List.replicate 6 (.access 2)

/-- After that, 256 puts and gets take `head` and `tail` past the end of `data`. -/
def wrapAround : List (RingAct (Fin 4)) := onePut ++ (List.replicate 256 putGet).flatten

theorem spsc_wrapAround : ∀ a ∈ wrapAround, Spsc 1 2 a := by
  have hone : ∀ a ∈ onePut, Spsc 1 2 a := by simp [onePut, Spsc]
  have hround : ∀ a ∈ putGet, Spsc 1 2 a := by simp [putGet, Spsc]
  intro a ha
  obtain ha | ha := List.mem_append.1 ha
  · exact hone a ha
  · obtain ⟨round, hmem, ha⟩ := List.mem_flatten.1 ha
    rw [List.eq_of_mem_replicate hmem] at ha
    exact hround a ha

theorem ring_buffer_fifo_wrapAround : ∃ s,
    exec ringStep (ringStart ⟨7, 9, fun _ => 0⟩) wrapAround = some s ∧
      s.rb.head = 1 ∧ s.rb.tail = 0 ∧ s.accepted = s.returned ++ s.rb.queue := by
  have heval : (exec ringStep (ringStart ⟨7, 9, fun _ => 0⟩) wrapAround).map
      (fun s => (s.rb.head, s.rb.tail)) = some (1, 0) := by decide +kernel
  obtain ⟨s, hrun, hindices⟩ := Option.map_eq_some_iff.1 heval
  obtain ⟨hhead, htail⟩ := Prod.mk.inj hindices
  exact ⟨s, hrun, hhead, htail, (ring_buffer_fifo _ wrapAround s spsc_wrapAround hrun).2.1⟩

end Gateway
