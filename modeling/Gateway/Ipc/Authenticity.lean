import Gateway.Ipc.Tamper

/-!
# What a tampered mailbox delivers

If the writer leaves alone what the operations rely on, every delivered triple was sent by its
sender (`mailbox_authentic`). Over the data of a send that is under way, before it is fetched for
the tag, the writer can put any word: it is signed and delivered (`window_delivers`), so
authenticity fails (`mailbox_delivers_tampered`).
-/

namespace Gateway

open Runs CriticalSection

variable {Core : Type*} [DecidableEq Core] {key : Key} {mpidr : Core → DWord}

/-! ## The invariant -/

omit [DecidableEq Core] in
theorem WasSent.mono {calls calls' : List (Core × MailboxOp)} (h : ∀ e ∈ calls, e ∈ calls')
    {d : Delivery} (hd : WasSent mpidr calls d) : WasSent mpidr calls' d := by
  obtain ⟨c, dest, hmem, hid⟩ := hd
  exact ⟨c, dest, h _ hmem, hid⟩

/-- Every operation under way was called and knows what it needs; what was delivered was sent. -/
structure SystemInv (key : Key) (mpidr : Core → DWord) (calls : List (Core × MailboxOp))
    (s : MailboxSystem Core) : Prop where
  mutex : Mutex (mailboxClient key mpidr) s
  called : ∀ c op, (s.phase c).current = some op → (c, op) ∈ calls
  inside : ∀ c op l, s.phase c = .inside op l →
    LocalInv (WasSent mpidr calls) (s.mem op.dest) l
  release : ∀ c op r, s.phase c = .release op r → ∀ d, r.out = some d → WasSent mpidr calls d
  hist : ∀ e ∈ s.hist, ∀ d, e.2.2.out = some d → WasSent mpidr calls d

structure TamperInv (key : Key) (mpidr : Core → DWord) (s : TamperState Core) : Prop where
  sys : SystemInv key mpidr s.calls s.sys
  signed : ∀ msg ∈ s.signed, SentMessage (WasSent mpidr s.calls) msg

theorem tamperInv_init (mb₀ : Fin 4 → Mailbox) :
    TamperInv key mpidr (tamperInit mb₀ : TamperState Core) where
  sys := {
    mutex := mutex_init _
    called := fun _ _ h => by cases h
    inside := fun _ _ _ h => by cases h
    release := fun _ _ _ h => by cases h
    hist := fun _ h => by cases h }
  signed _ h := by cases h

section

variable {calls calls' : List (Core × MailboxOp)} {s s' : MailboxSystem Core} {c : Core}
  {p : Phase MailboxOp Local Outcome}

omit [DecidableEq Core] in
theorem SystemInv.mono (h : SystemInv key mpidr calls s) (hsub : ∀ e ∈ calls, e ∈ calls') :
    SystemInv key mpidr calls' s where
  mutex := h.mutex
  called c op hc := hsub _ (h.called c op hc)
  inside c op l hc := (h.inside c op l hc).mono fun _ => WasSent.mono hsub
  release c op r hc d hd := (h.release c op r hc d hd).mono hsub
  hist e he d hd := (h.hist e he d hd).mono hsub

/-- A step of core `c` to the phase `p` that leaves alone the mailboxes in which others work. -/
theorem SystemInv.goto (h : SystemInv key mpidr calls s)
    (hmutex : Mutex (mailboxClient key mpidr) s') (hphase : s'.phase = (s.goto c p).phase)
    (hhist : s'.hist = s.hist)
    (hmem : ∀ d op l, d ≠ c → s.phase d = .inside op l → s'.mem op.dest = s.mem op.dest)
    (hcur : ∀ op, p.current = some op → (c, op) ∈ calls)
    (hin : ∀ op l, p = .inside op l → LocalInv (WasSent mpidr calls) (s'.mem op.dest) l)
    (hrel : ∀ op r, p = .release op r → ∀ d, r.out = some d → WasSent mpidr calls d) :
    SystemInv key mpidr calls s' := by
  have hself : s'.phase c = p := by rw [hphase, goto_phase_self]
  have hother : ∀ d, d ≠ c → s'.phase d = s.phase d := fun d hd => by
    rw [hphase, goto_phase_of_ne _ _ hd]
  refine ⟨hmutex, fun d op hd => ?_, fun d op l hd => ?_, fun d op r hd => ?_, hhist ▸ h.hist⟩
  · by_cases hdc : d = c
    · subst hdc; rw [hself] at hd; exact hcur op hd
    · rw [hother d hdc] at hd; exact h.called d op hd
  · by_cases hdc : d = c
    · subst hdc; rw [hself] at hd; exact hin op l hd
    · rw [hother d hdc] at hd
      rw [hmem d op l hdc hd]
      exact h.inside d op l hd
  · by_cases hdc : d = c
    · subst hdc; rw [hself] at hd; exact hrel op r hd
    · rw [hother d hdc] at hd; exact h.release d op r hd

omit [DecidableEq Core] in
/-- Where a call starts, it has its arguments. -/
theorem localInv_start {op : MailboxOp} (h : (c, op) ∈ calls) (mb : Mailbox) :
    LocalInv (WasSent mpidr calls) mb (op.start (mpidr c)) := by
  obtain ⟨dest, call⟩ := op
  cases call with
  | send msgType data => exact ⟨c, dest, h, rfl⟩
  | receive | clear => trivial

/-- An access in a critical section. -/
theorem SystemInv.access (h : SystemInv key mpidr calls s) {op : MailboxOp} {l : Local}
    (hc : s.phase c = .inside op l)
    (hacc : ∀ msg, l.accepts (s.mem op.dest) = some msg → SentMessage (WasSent mpidr calls) msg)
    (hmutex : Mutex (mailboxClient key mpidr)
      (s.access (mailboxClient key mpidr) c op (mailboxAccess key l (s.mem op.dest)))) :
    SystemInv key mpidr calls
      (s.access (mailboxClient key mpidr) c op (mailboxAccess key l (s.mem op.dest))) := by
  have hhold : (s.phase c).holding = some op := by rw [hc]; rfl
  have hafter := access_inv key (h.inside c op l hc) hacc
  generalize mailboxAccess key l (s.mem op.dest) = x at hafter hmutex
  refine h.goto hmutex rfl rfl (fun d op' l' hdc hd => Function.update_of_ne
    (h.mutex.lock_ne hhold (by rw [hd]; rfl) hdc) ..) (fun op' hop => ?_) (fun op' l' hop => ?_)
    fun op' r hop => ?_
  · refine h.called c op' (hop ▸ ?_)
    rw [hc]
    cases x.2 <;> rfl
  · show LocalInv _ (Function.update s.mem op.dest x.1 op'.dest) l'
    cases hx : x.2 with
    | inl l₁ =>
      rw [hx] at hop hafter
      obtain ⟨rfl, rfl⟩ := Phase.inside.inj hop
      rwa [Function.update_self]
    | inr r => rw [hx] at hop; cases hop
  · cases hx : x.2 with
    | inl l₁ => rw [hx] at hop; cases hop
    | inr r₁ =>
      rw [hx] at hop hafter
      obtain ⟨-, rfl⟩ := Phase.release.inj hop
      exact hafter

theorem systemInv_step {a : Act Core MailboxOp} (h : SystemInv key mpidr calls s)
    (hacc : ∀ c ok op l msg, a = .step c ok → s.phase c = .inside op l →
      l.accepts (s.mem op.dest) = some msg → SentMessage (WasSent mpidr calls) msg)
    (hs : step (mailboxClient key mpidr) s a = some s') :
    SystemInv key mpidr (calls ++ calledIn a) s' := by
  have hmutex := mutex_step h.mutex hs
  rcases step_cases hs with ⟨c, op, rfl, -, rfl⟩ | ⟨c, ok, op, o, p, rfl, hc, rfl, hp⟩ |
    ⟨c, ok, op, rfl, hc, -, rfl⟩ | ⟨c, ok, op, l, rfl, hc, rfl⟩ | ⟨c, ok, op, r, rfl, hc, rfl⟩
  · have h' : SystemInv key mpidr (calls ++ [(c, op)]) s :=
      h.mono fun e he => List.mem_append_left _ he
    refine h'.goto hmutex rfl rfl (fun _ _ _ _ _ => rfl) (fun op' hop => ?_)
      (fun _ _ hop => by cases hop) fun _ _ hop => by cases hop
    rw [← Option.some.inj hop]
    exact List.mem_append_right _ List.mem_cons_self
  all_goals rw [calledIn, List.append_nil]
  · have hcur : (s.phase c).current = some op := by rcases hc with hc | hc <;> rw [hc] <;> rfl
    refine h.goto hmutex rfl rfl (fun _ _ _ _ _ => rfl) (fun op' hop => ?_) (fun _ _ hop => ?_)
      fun _ _ hop => ?_
    · rcases hp with rfl | ⟨rfl, -⟩ <;> rw [← Option.some.inj hop] <;> exact h.called c op hcur
    · rcases hp with rfl | ⟨rfl, -⟩ <;> cases hop
    · rcases hp with rfl | ⟨rfl, -⟩ <;> cases hop
  · have hcalled : (c, op) ∈ calls := h.called c op (by rw [hc]; rfl)
    refine h.goto hmutex rfl rfl (fun _ _ _ _ _ => rfl) (fun op' hop => ?_) (fun op' l hop => ?_)
      fun _ _ hop => by cases hop
    · rwa [← Option.some.inj hop]
    · obtain ⟨rfl, rfl⟩ := Phase.inside.inj hop
      exact localInv_start hcalled _
  · exact h.access hc (fun msg => hacc c ok op l msg rfl hc) hmutex
  · have hidle := h.goto (h.mutex.release (show (s.phase c).holding = some op by rw [hc]; rfl)) rfl rfl
      (fun _ _ _ _ _ => rfl) (fun _ hop => by cases hop) (fun _ _ hop => by cases hop)
      fun _ _ hop => by cases hop
    refine ⟨hmutex, hidle.called, hidle.inside, hidle.release, fun e he => ?_⟩
    rcases List.mem_append.1 he with he | he
    · exact h.hist e he
    · rw [List.mem_singleton.1 he]
      exact h.release c op r hc

omit [DecidableEq Core] in
/-- A message that is signed in a step was sent. -/
theorem signedIn_sent {a : Act Core MailboxOp} (h : SystemInv key mpidr calls s) :
    ∀ msg ∈ signedIn s a, SentMessage (WasSent mpidr calls) msg := by
  intro msg hmsg
  cases a with
  | call => cases hmsg
  | step c ok =>
    unfold signedIn at hmsg
    dsimp only at hmsg
    cases hc : s.phase c with
    | inside op l =>
      rw [hc] at hmsg
      exact signs_inv (h.inside c op l hc) (Option.mem_toList.1 hmsg)
    | _ => rw [hc] at hmsg; cases hmsg

/-- A write that leaves alone what the operations rely on. -/
theorem SystemInv.overwrite (h : SystemInv key mpidr calls s) {d : Fin 4} {w : Overwrite}
    (hlock : ∀ c v, Holds (mailboxClient key mpidr) s c d → w = .lock v → v ≠ 0)
    (hfield : ∀ c op l f, s.phase c = .inside op l → op.dest = d → l.Relies f →
      ((s.mem d).overwrite w).get f = (s.mem d).get f) :
    SystemInv key mpidr calls (overwriteSystem s d w) := by
  cases w with
  | lock v =>
    have hmutex := h.mutex.storeWord (l := d) (v := v) fun c hc => hlock c v hc rfl
    exact ⟨hmutex, h.called, h.inside, h.release, h.hist⟩
  | _ =>
    refine ⟨⟨h.mutex.held, h.mutex.excl, h.mutex.armed⟩, h.called, fun c op l hc => ?_, h.release,
      h.hist⟩
    show LocalInv _ (Function.update s.mem d _ op.dest) l
    by_cases hd : op.dest = d
    · rw [hd, Function.update_self]
      exact (hd ▸ h.inside c op l hc).untouched fun f hf => hfield c op l f hc hd hf
    · rw [Function.update_of_ne hd]
      exact h.inside c op l hc

end

theorem tamperInv_step {s s' : TamperState Core} {a : TamperAct Core}
    (h : TamperInv key mpidr s) (hunf : Unforged s a) (hunt : Untouched key mpidr s a)
    (hs : tamperStep key mpidr s a = some s') : TamperInv key mpidr s' := by
  cases a with
  | core a =>
    obtain ⟨sys, hsys, rfl⟩ := Option.map_eq_some_iff.1 hs
    have hsub : ∀ e ∈ s.calls, e ∈ s.calls ++ calledIn a := fun e he => List.mem_append_left _ he
    have hmono : ∀ msg, SentMessage (WasSent mpidr s.calls) msg →
        SentMessage (WasSent mpidr (s.calls ++ calledIn a)) msg :=
      fun msg ⟨d, hd, hrest⟩ => ⟨d, hd.mono hsub, hrest⟩
    refine ⟨systemInv_step h.sys (fun c ok op l msg ha hc hacc => ?_) hsys, fun msg hmsg => ?_⟩
    · subst ha
      exact h.signed msg (hunf op l msg hc hacc)
    · rcases List.mem_append.1 hmsg with hmsg | hmsg
      · exact hmono msg (h.signed msg hmsg)
      · exact hmono msg (signedIn_sent h.sys msg hmsg)
  | write d w =>
    obtain rfl := Option.some.inj hs
    exact ⟨h.sys.overwrite hunt.1 hunt.2, h.signed⟩

/-! ## A core that works alone -/

section

/-- From `s` the cores reach `s'` with no forged tag and no write. -/
def Clean (key : Key) (mpidr : Core → DWord) (s s' : TamperState Core) : Prop :=
  ∃ acts, exec (tamperStep key mpidr) s acts = some s' ∧ Along (tamperStep key mpidr) Unforged s acts ∧
    Along (tamperStep key mpidr) (Untouched key mpidr) s acts

/-- Only core `c` has moved, inside one operation. -/
structure Quiet (c : Core) (s s' : TamperState Core) : Prop where
  phase : ∀ d, d ≠ c → s'.sys.phase d = s.sys.phase d
  hist : s'.sys.hist = s.sys.hist
  calls : s'.calls = s.calls
  signed : ∀ msg ∈ s.signed, msg ∈ s'.signed

variable {s s₁ s₂ : TamperState Core} {c : Core} {op : MailboxOp} {l l' : Local} {mb mb' : Mailbox}

theorem Clean.trans (h : Clean key mpidr s s₁) (h' : Clean key mpidr s₁ s₂) :
    Clean key mpidr s s₂ := by
  obtain ⟨as, he, hunf, hunt⟩ := h
  obtain ⟨bs, he', hunf', hunt'⟩ := h'
  exact ⟨as ++ bs, exec_append_eq_some.2 ⟨s₁, he, he'⟩, (along_append he).2 ⟨hunf, hunf'⟩,
    (along_append he).2 ⟨hunt, hunt'⟩⟩

omit [DecidableEq Core] in
theorem Quiet.trans (h : Quiet c s s₁) (h' : Quiet c s₁ s₂) : Quiet c s s₂ where
  phase d hd := (h'.phase d hd).trans (h.phase d hd)
  hist := h'.hist.trans h.hist
  calls := h'.calls.trans h.calls
  signed msg hmsg := h'.signed msg (h.signed msg hmsg)

/-- One step of a core. -/
theorem clean_core {a : Act Core MailboxOp} {sys : MailboxSystem Core}
    (h : step (mailboxClient key mpidr) s.sys a = some sys) (hunf : Unforged s (.core a)) :
    Clean key mpidr s ⟨sys, s.calls ++ calledIn a, s.signed ++ signedIn s.sys a⟩ := by
  refine ⟨[.core a], exec_cons_eq_some.2 ⟨_, ?_, rfl⟩, ⟨hunf, fun _ _ => trivial⟩,
    ⟨trivial, fun _ _ => trivial⟩⟩
  exact Option.map_eq_some_iff.2 ⟨sys, h, rfl⟩

variable (mpidr) in
/-- One access of an operation that goes on. -/
theorem clean_access (hc : s.sys.phase c = .inside op l) (hm : s.sys.mem op.dest = mb)
    (h : mailboxAccess key l mb = (mb', .inl l'))
    (hacc : ∀ msg, l.accepts mb = some msg → msg ∈ s.signed) :
    ∃ s', Clean key mpidr s s' ∧ Quiet c s s' ∧ s'.sys.phase c = .inside op l' ∧
      s'.sys.mem op.dest = mb' ∧ s'.signed = s.signed ++ (l.signs mb).toList := by
  subst hm
  have hstep : step (mailboxClient key mpidr) s.sys (.step c true) =
      some (s.sys.access (mailboxClient key mpidr) c op (mb', .inl l')) := by
    unfold step
    dsimp only
    rw [hc]
    exact congrArg (fun x => some (s.sys.access (mailboxClient key mpidr) c op x)) h
  have hsigned : signedIn s.sys (.step c true) = (l.signs (s.sys.mem op.dest)).toList := by
    unfold signedIn
    dsimp only
    rw [hc]
  refine ⟨_, clean_core hstep ?_, ⟨fun d hd => goto_phase_of_ne _ _ hd, rfl, List.append_nil _,
    fun msg hmsg => List.mem_append_left _ hmsg⟩, goto_phase_self .., Function.update_self .., ?_⟩
  · intro op' l₁ msg hc' hmsg
    obtain ⟨rfl, rfl⟩ := Phase.inside.inj (hc.symm.trans hc')
    exact hacc msg hmsg
  · rw [hsigned]

/-- The accesses of one core with nothing in between. -/
theorem clean_leads {S : List (List Byte)} (h : Leads mpidr key (· ∈ S) l mb l' mb')
    (hc : s.sys.phase c = .inside op l) (hm : s.sys.mem op.dest = mb)
    (hS : ∀ msg ∈ S, msg ∈ s.signed) :
    ∃ s', Clean key mpidr s s' ∧ Quiet c s s' ∧ s'.sys.phase c = .inside op l' ∧
      s'.sys.mem op.dest = mb' := by
  induction h generalizing s with
  | refl l mb =>
    exact ⟨s, ⟨[], rfl, trivial, trivial⟩, ⟨fun _ _ => rfl, rfl, rfl, fun _ h => h⟩, hc, hm⟩
  | @next l mb mb₁ l₁ l' mb' hQ haccess _ ih =>
    obtain ⟨s₁, hclean, hquiet, hc₁, hm₁, -⟩ := clean_access mpidr hc hm haccess
      fun msg hmsg => by
        cases l with
        | receiveCompare m expected change i =>
          obtain ⟨-, hmsg⟩ := Option.ite_none_left_eq_some.1 hmsg
          obtain ⟨-, hmsg⟩ := Option.ite_none_right_eq_some.1 hmsg
          exact hS _ (Option.some.inj hmsg ▸ hQ m expected change i rfl)
        | _ => cases hmsg
    obtain ⟨s₂, hclean', hquiet', hc₂, hm₂⟩ := ih hc₁ hm₁ fun msg hmsg =>
      hquiet.signed msg (hS msg hmsg)
    exact ⟨s₂, hclean.trans hclean', hquiet.trans hquiet', hc₂, hm₂⟩

/-- A core calls an operation and takes the free lock. -/
theorem clean_enter (key : Key) (mpidr : Core → DWord) (op : MailboxOp) (hc : s.sys.phase c = .idle)
    (hfree : s.sys.word op.dest = 0) :
    ∃ s', Clean key mpidr s s' ∧ s'.sys.phase c = .inside op (op.start (mpidr c)) ∧
      s'.sys.mem = s.sys.mem ∧ (∀ d, d ≠ c → s'.sys.phase d = s.sys.phase d) ∧
      s'.sys.hist = s.sys.hist ∧ s'.calls = s.calls ++ [(c, op)] ∧ s'.signed = s.signed := by
  let K := mailboxClient key mpidr
  let sys₁ := s.sys.goto c (.ldxr op)
  let sys₂ := (sys₁.setMonitor c (some op.dest)).goto c (.stxr op)
  let sys₃ := (sys₂.storeWord op.dest 1).goto c (.inside op (op.start (mpidr c)))
  have hc₁ : sys₁.phase c = .ldxr op := goto_phase_self ..
  have hc₂ : sys₂.phase c = .stxr op := goto_phase_self ..
  have h₁ : step K s.sys (.call c op) = some sys₁ := by
    unfold step
    dsimp only
    rw [hc]
  have h₂ : step K sys₁ (.step c true) = some sys₂ := by
    unfold step
    dsimp only
    rw [hc₁]
    dsimp only
    rw [if_pos (show sys₁.word (K.lock op) = 0 from hfree)]
    rfl
  have h₃ : step K sys₂ (.step c true) = some sys₃ := by
    unfold step
    dsimp only
    rw [hc₂]
    exact congrArg some (if_pos ⟨rfl, Function.update_self ..⟩)
  have hsigned₁ : signedIn sys₁ (.step c true) = [] := by
    unfold signedIn
    dsimp only
    rw [hc₁]
  have hsigned₂ : signedIn sys₂ (.step c true) = [] := by
    unfold signedIn
    dsimp only
    rw [hc₂]
  have hrun := (clean_core h₁ trivial).trans ((clean_core (a := .step c true) h₂ fun _ _ _ h => ?_).trans
    (clean_core (a := .step c true) h₃ fun _ _ _ h => ?_))
  · refine ⟨_, hrun, goto_phase_self .., rfl, fun d hd => ?_, rfl, ?_, ?_⟩
    · exact (goto_phase_of_ne _ _ hd).trans ((goto_phase_of_ne _ _ hd).trans (goto_phase_of_ne _ _ hd))
    · simp [calledIn]
    · show s.signed ++ [] ++ signedIn sys₁ _ ++ signedIn sys₂ _ = s.signed
      rw [hsigned₁, hsigned₂, List.append_nil, List.append_nil, List.append_nil]
  · cases hc₁.symm.trans h
  · cases hc₂.symm.trans h

/-- The last access of an operation, and the release of its lock. -/
theorem clean_finish (mpidr : Core → DWord) {r : Outcome} (hc : s.sys.phase c = .inside op l)
    (hm : s.sys.mem op.dest = mb) (h : mailboxAccess key l mb = (mb', .inr r))
    (hacc : ∀ msg, l.accepts mb = some msg → msg ∈ s.signed) :
    ∃ s', Clean key mpidr s s' ∧ s'.sys.phase c = .idle ∧ s'.sys.mem op.dest = mb' ∧
      s'.sys.word op.dest = 0 ∧ (∀ d, d ≠ c → s'.sys.phase d = s.sys.phase d) ∧
      s'.sys.hist = s.sys.hist ++ [(c, op, r)] ∧ s'.calls = s.calls ∧
      ∀ msg ∈ s.signed, msg ∈ s'.signed := by
  subst hm
  let K := mailboxClient key mpidr
  let sys₁ := s.sys.access K c op (mb', .inr r)
  have hc₁ : sys₁.phase c = .release op r := goto_phase_self ..
  have h₁ : step K s.sys (.step c true) = some sys₁ := by
    unfold step
    dsimp only
    rw [hc]
    exact congrArg (fun x => some (s.sys.access K c op x)) h
  have h₂ : step K sys₁ (.step c true) = some
      { (sys₁.storeWord op.dest 0).goto c .idle with hist := sys₁.hist ++ [(c, op, r)] } := by
    unfold step
    dsimp only
    rw [hc₁]
    rfl
  have hrun := (clean_core (a := .step c true) h₁ ?_).trans
    (clean_core (a := .step c true) h₂ fun _ _ _ h => ?_)
  · refine ⟨_, hrun, goto_phase_self .., Function.update_self .., Function.update_self ..,
      fun d hd => ?_, rfl, ?_, fun msg hmsg => List.mem_append_left _ (List.mem_append_left _ hmsg)⟩
    · exact (goto_phase_of_ne _ _ hd).trans (goto_phase_of_ne _ _ hd)
    · simp [calledIn]
  · intro op' l₁ msg hc' hmsg
    obtain ⟨rfl, rfl⟩ := Phase.inside.inj (hc.symm.trans hc')
    exact hacc msg hmsg
  · cases hc₁.symm.trans h

end

/-! ## A word put over the data of a send -/

section

variable {s : TamperState Core} {c : Core} {d : Fin 4} {mb : Mailbox}

/-- The mailbox a send leaves once it has stored the triple that is now in `mb`. -/
def sealedWith (key : Key) (mb : Mailbox) : Mailbox :=
  let mb := { mb with counter := mb.counter + 1 }
  { mb with tag := hmacTagCompute key mb, status := 1 }

theorem sealedWith_delivery (key : Key) (mb : Mailbox) :
    (sealedWith key mb).delivery = mb.delivery := rfl

theorem authentic_sealedWith (key : Key) (mb : Mailbox) : Authentic key (sealedWith key mb) :=
  congrArg (hmacDigest key) (Mailbox.msg_congr fun f => by cases f <;> rfl)

/-- A send up to its store of the data. -/
theorem clean_send_stores (key : Key) (mpidr : Core → DWord) (msgType data : Word)
    (hc : s.sys.phase c = .idle) (hfree : s.sys.word d = 0) (hidle : (s.sys.mem d).status ≠ 1) :
    ∃ s', Clean key mpidr s s' ∧ s'.sys.phase c = .inside ⟨d, .send msgType data⟩ .sendCounter ∧
      s'.sys.mem d =
        { s.sys.mem d with senderId := getCoreId (mpidr c), msgType, msgData := data } ∧
      (∀ e, e ≠ c → s'.sys.phase e = s.sys.phase e) ∧ s'.sys.hist = s.sys.hist ∧
      s'.calls = s.calls ++ [(c, ⟨d, .send msgType data⟩)] := by
  obtain ⟨s₁, hr₁, hc₁, hm₁, hp₁, hh₁, hcalls₁, -⟩ :=
    clean_enter key mpidr ⟨d, .send msgType data⟩ hc hfree
  have hstores : Leads mpidr key (· ∈ ([] : List (List Byte)))
      (.sendStatus (mpidr c) msgType data) (s.sys.mem d) .sendCounter
      { s.sys.mem d with senderId := getCoreId (mpidr c), msgType, msgData := data } := by
    refine .next (fun _ _ _ _ h => by cases h) (access_sendStatus key hidle _ msgType data) ?_
    refine .next (fun _ _ _ _ h => by cases h) rfl (.next (fun _ _ _ _ h => by cases h) rfl ?_)
    exact .next (fun _ _ _ _ h => by cases h) rfl (.refl _ _)
  obtain ⟨s₂, hr₂, hq₂, hc₂, hm₂⟩ := clean_leads hstores hc₁ (congrFun hm₁ d) fun _ h => by cases h
  exact ⟨s₂, hr₁.trans hr₂, hc₂, hm₂, fun e he => (hq₂.phase e he).trans (hp₁ e he),
    hq₂.hist.trans hh₁, hq₂.calls.trans hcalls₁⟩

/-- The rest of a send: the message that is in the mailbox is signed. -/
theorem clean_send_rest (key : Key) (mpidr : Core → DWord) {msgType data : Word}
    (hc : s.sys.phase c = .inside ⟨d, .send msgType data⟩ .sendCounter) :
    ∃ s', Clean key mpidr s s' ∧ s'.sys.mem d = sealedWith key (s.sys.mem d) ∧
      s'.sys.word d = 0 ∧ (∀ e, e ≠ c → s'.sys.phase e = s.sys.phase e) ∧
      s'.calls = s.calls ∧ (sealedWith key (s.sys.mem d)).msg ∈ s'.signed := by
  let mb : Mailbox := { s.sys.mem d with counter := (s.sys.mem d).counter + 1 }
  have hfetch : Leads mpidr key (· ∈ ([] : List (List Byte))) .sendCounter (s.sys.mem d)
      (.sendFetch ((List.range 15).map mb.fetch)) mb := by
    refine .next (fun _ _ _ _ h => by cases h) rfl (.next (fun _ _ _ _ h => by cases h) rfl ?_)
    exact leads_sendFetch mb
  obtain ⟨s₁, hr₁, hq₁, hc₁, hm₁⟩ := clean_leads hfetch hc rfl fun _ h => by cases h
  have hlast : mailboxAccess key (.sendFetch ((List.range 15).map mb.fetch)) mb =
      (mb, .inl (.sendTag (hmacTagCompute key mb) 0)) := rfl
  obtain ⟨s₂, hr₂, hq₂, hc₂, hm₂, hsigned⟩ := clean_access mpidr hc₁ hm₁ hlast fun _ h => by cases h
  have htag : Leads mpidr key (· ∈ ([] : List (List Byte))) (.sendTag (hmacTagCompute key mb) 0) mb
      .sendReady { mb with tag := hmacTagCompute key mb } := leads_tag _ mb
  obtain ⟨s₃, hr₃, hq₃, hc₃, hm₃⟩ := clean_leads htag hc₂ hm₂ fun _ h => by cases h
  have hready : mailboxAccess key .sendReady { mb with tag := hmacTagCompute key mb } =
      (sealedWith key (s.sys.mem d), .inr ⟨0, none⟩) := rfl
  obtain ⟨s₄, hr₄, -, hm₄, hw₄, hp₄, -, hcalls₄, hs₄⟩ := clean_finish mpidr hc₃ hm₃ hready
    fun _ h => by cases h
  refine ⟨s₄, hr₁.trans (hr₂.trans (hr₃.trans hr₄)), hm₄, hw₄, fun e he => ?_, ?_, ?_⟩
  · rw [hp₄ e he, hq₃.phase e he, hq₂.phase e he, hq₁.phase e he]
  · rw [hcalls₄, hq₃.calls, hq₂.calls, hq₁.calls]
  · refine hs₄ _ (hq₃.signed _ ?_)
    rw [hsigned]
    exact List.mem_append_right _ (Option.mem_toList.2 rfl)

/-- A receive from a mailbox whose message was signed delivers it. -/
theorem clean_receive (key : Key) (mpidr : Core → DWord) (hc : s.sys.phase c = .idle)
    (hfree : s.sys.word d = 0) (hready : (s.sys.mem d).status = 1)
    (hauth : Authentic key (s.sys.mem d)) (hsigned : (s.sys.mem d).msg ∈ s.signed) :
    ∃ s', Clean key mpidr s s' ∧ s'.calls = s.calls ++ [(c, ⟨d, .receive⟩)] ∧
      (c, ⟨d, .receive⟩, ⟨1, some (s.sys.mem d).delivery⟩) ∈ s'.sys.hist := by
  obtain ⟨s₁, hr₁, hc₁, hm₁, -, -, hcalls₁, hs₁⟩ := clean_enter key mpidr ⟨d, .receive⟩ hc hfree
  have hm₁ : s₁.sys.mem d = s.sys.mem d := congrFun hm₁ d
  rw [← hs₁] at hsigned
  generalize s.sys.mem d = mb at hready hauth hsigned hm₁ ⊢
  have hfetch : Leads mpidr key (· ∈ s₁.signed) .receiveStatus mb
      (.receiveFetch ((List.range 15).map mb.fetch)) mb :=
    .next (fun _ _ _ _ h => by cases h) (access_receiveStatus key hready) (leads_receiveFetch mb)
  have hverify : Leads mpidr key (· ∈ s₁.signed) (.receiveFetch ((List.range 15).map mb.fetch)) mb
      .receiveSender mb := by
    refine .next (fun _ _ _ _ h => by cases h) rfl ?_
    rw [fetchNext_last]
    have hcompare : Leads mpidr key (· ∈ s₁.signed) _ mb _ mb := leads_compare mb hsigned
    rwa [if_pos (hmacTagVerify_iff.2 hauth)] at hcompare
  obtain ⟨s₂, hr₂, hq₂, hc₂, hm₂⟩ := clean_leads (hfetch.trans (hverify.trans (leads_deliver mb)))
    hc₁ hm₁ fun _ h => h
  obtain ⟨s₃, hr₃, -, -, -, -, hh₃, hcalls₃, -⟩ := clean_finish mpidr hc₂ hm₂ rfl
    fun _ h => by cases h
  refine ⟨s₃, hr₁.trans (hr₂.trans hr₃), ?_, ?_⟩
  · rw [hcalls₃, hq₂.calls, hcalls₁]
  · rw [hh₃]
    exact List.mem_append_right _ (List.mem_singleton.2 rfl)

/-- **The window.** Core `c` sends and core `c'` receives. Whatever the writer puts over the data once
`mailbox_send` has stored it and not yet fetched it is signed and delivered. -/
theorem window_delivers (key : Key) (mpidr : Core → DWord) (mb₀ : Fin 4 → Mailbox) (c c' : Core)
    (hne : c' ≠ c) (d : Fin 4) (msgType data v : Word) :
    ∃ acts s, exec (tamperStep key mpidr) (tamperInit mb₀) acts = some s ∧
      Along (tamperStep key mpidr) Unforged (tamperInit mb₀) acts ∧
      (v = data → Along (tamperStep key mpidr) (Untouched key mpidr) (tamperInit mb₀) acts) ∧
      s.calls = [(c, ⟨d, .send msgType data⟩), (c', ⟨d, .receive⟩)] ∧
      (c', ⟨d, .receive⟩, ⟨1, some ⟨getCoreId (mpidr c), msgType, v⟩⟩) ∈ s.sys.hist := by
  have hidle : (mailboxInit (mb₀ d)).status ≠ 1 := by simp [mailboxInit]
  obtain ⟨s₁, ⟨as₁, he₁, hunf₁, hunt₁⟩, hc₁, hm₁, hp₁, hh₁, hcalls₁⟩ :=
    clean_send_stores (s := tamperInit mb₀) (c := c) key mpidr msgType data rfl rfl hidle
  -- the write
  let s₂ : TamperState Core :=
    { s₁ with sys := s₁.sys.setMem d ((s₁.sys.mem d).overwrite (.msgData v)) }
  have hm₂ : s₂.sys.mem d = (s₁.sys.mem d).overwrite (.msgData v) := Function.update_self ..
  obtain ⟨s₃, hr₃, hm₃, hw₃, hp₃, hcalls₃, hsigned₃⟩ := clean_send_rest (s := s₂) key mpidr hc₁
  have hc₃ : s₃.sys.phase c' = .idle := (hp₃ c' hne).trans (hp₁ c' hne)
  obtain ⟨s₄, hr₄, hcalls₄, hh₄⟩ := clean_receive key mpidr hc₃ hw₃ (by rw [hm₃]; rfl)
    (by rw [hm₃]; exact authentic_sealedWith key _) (by rw [hm₃]; exact hsigned₃)
  obtain ⟨as₂, he₂, hunf₂, hunt₂⟩ := hr₃.trans hr₄
  refine ⟨as₁ ++ .write d (.msgData v) :: as₂, s₄, ?_, ?_, fun hv => ?_, ?_, ?_⟩
  · exact exec_append_eq_some.2 ⟨s₁, he₁, exec_cons_eq_some.2 ⟨s₂, rfl, he₂⟩⟩
  · refine (along_append he₁).2 ⟨hunf₁, trivial, fun s h => ?_⟩
    rwa [← Option.some.inj h]
  · refine (along_append he₁).2 ⟨hunt₁,
      ⟨fun _ _ _ h => Overwrite.noConfusion h, fun _ _ _ f _ _ _ => ?_⟩, fun s h => ?_⟩
    · rw [hv, hm₁]
      cases f <;> rfl
    · rwa [← Option.some.inj h]
  · rw [hcalls₄, hcalls₃]
    show s₁.calls ++ _ = _
    rw [hcalls₁]
    rfl
  · rw [hm₃, sealedWith_delivery, hm₂, hm₁] at hh₄
    exact hh₄

end

/-- Every triple that a `mailbox_receive` has delivered was sent by a core with its sender's id. -/
def Authenticated (mpidr : Core → DWord) (s : TamperState Core) : Prop :=
  ∀ e ∈ s.sys.hist, ∀ d, e.2.2 = ⟨1, some d⟩ → WasSent mpidr s.calls d

/-- **Authenticity.** If the writer cannot forge a tag, changes no field on which an operation under
way relies, and frees no held lock, then in every state reached every delivered triple was sent
before, by a core with its sender's id. -/
theorem mailbox_authentic (key : Key) (mpidr : Core → DWord) (mb₀ : Fin 4 → Mailbox)
    (acts : List (TamperAct Core))
    (hunf : Along (tamperStep key mpidr) Unforged (tamperInit mb₀) acts)
    (hunt : Along (tamperStep key mpidr) (Untouched key mpidr) (tamperInit mb₀) acts)
    (pre : List (TamperAct Core)) (s : TamperState Core) (hpre : pre <+: acts)
    (h : exec (tamperStep key mpidr) (tamperInit mb₀) pre = some s) : Authenticated mpidr s := by
  have hboth : Along (tamperStep key mpidr) (fun s a => Unforged s a ∧ Untouched key mpidr s a)
      (tamperInit mb₀) pre := (hunf.and hunt).initial hpre h
  have hinv := exec_invariant_along (I := TamperInv key mpidr)
    (fun _ _ _ hI hG hs => tamperInv_step hI hG.1 hG.2 hs) (tamperInv_init mb₀) hboth h
  intro e he d hd
  exact hinv.sys.hist e he d (by rw [hd])

/-- Core 0 sends 7 to core 3, and the writer puts 7 over the data that is there. -/
theorem mailbox_authentic_sameWord : ∃ s : TamperState (Fin 4),
    (3, ⟨3, .receive⟩, ⟨1, some ⟨0, msgData, 7⟩⟩) ∈ s.sys.hist ∧
      Authenticated (fun c => BitVec.ofNat 64 c.val) s := by
  let mb₀ : Fin 4 → Mailbox := fun _ => ⟨0, 0, 0, 0, 0, Vector.replicate 32 0⟩
  obtain ⟨acts, s, h, hunf, hunt, -, hh⟩ := window_delivers secretKey
    (fun c : Fin 4 => BitVec.ofNat 64 c.val) mb₀ 0 3 (by decide) 3 msgData 7 7
  exact ⟨s, hh, mailbox_authentic secretKey _ mb₀ acts hunf (hunt rfl) acts s
    (List.prefix_refl _) h⟩

/-- Core 0 sends 7 to core 3. The writer puts 9 over the data before `hmac_tag_compute` fetches it,
and core 3 receives 9 from core 0, which has sent no 9. -/
theorem mailbox_delivers_tampered : ¬ ∀ (mb₀ : Fin 4 → Mailbox) (acts : List (TamperAct (Fin 4)))
    (s : TamperState (Fin 4)),
    exec (tamperStep secretKey fun c => BitVec.ofNat 64 c.val) (tamperInit mb₀) acts = some s →
    Along (tamperStep secretKey fun c => BitVec.ofNat 64 c.val) Unforged (tamperInit mb₀) acts →
    Authenticated (fun c => BitVec.ofNat 64 c.val) s := by
  intro hall
  let mb₀ : Fin 4 → Mailbox := fun _ => ⟨0, 0, 0, 0, 0, Vector.replicate 32 0⟩
  obtain ⟨acts, s, h, hunf, -, hcalls, hh⟩ := window_delivers secretKey
    (fun c : Fin 4 => BitVec.ofNat 64 c.val) mb₀ 0 3 (by decide) 3 msgData 7 9
  obtain ⟨c, dest, hsent, -⟩ := hall mb₀ acts s h hunf _ hh _ rfl
  rw [hcalls] at hsent
  simp at hsent

end Gateway
