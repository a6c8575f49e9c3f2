import Gateway.Lib.CriticalSection

/-!
# Critical sections in one memory

The cores of `Gateway.Lib.CriticalSection` with their lock words and protected memories laid out in
one memory. A `Layout` says where they are and which store each access makes; its laws say that a
store changes what it is meant to change and nothing else. Then the system over the one memory runs
in lockstep with the system over separate memories (`Layout.sim`).
-/

namespace CriticalSection

variable {Core Lock Op Local Mem Ret M : Type*} [DecidableEq Core] [DecidableEq Lock]

structure Layout (K : Client Core Lock Op Local Mem Ret) (M : Type*) where
  word : M → Lock → BitVec 32
  mem : M → Lock → Mem
  /-- The store to a lock word. -/
  setWord : Lock → BitVec 32 → M → M
  /-- The store that an operation makes in its next access, if it makes one. -/
  store : Op → Local → M → M
  word_setWord : ∀ l v m, word (setWord l v m) = Function.update (word m) l v
  mem_setWord : ∀ l v m, mem (setWord l v m) = mem m
  word_store : ∀ op l m, word (store op l m) = word m
  mem_store : ∀ op l m, mem (store op l m) =
    Function.update (mem m) (K.lock op) (K.access l (mem m (K.lock op))).1

/-- The system over one memory. -/
structure Packed (Core Lock Op Local Ret M : Type*) where
  ram : M
  monitor : Core → Option Lock
  phase : Core → Phase Op Local Ret
  hist : List (Core × Op × Ret)

namespace Packed

variable (s : Packed Core Lock Op Local Ret M)

def goto (c : Core) (p : Phase Op Local Ret) : Packed Core Lock Op Local Ret M :=
  { s with phase := Function.update s.phase c p }

def setMonitor (c : Core) (o : Option Lock) : Packed Core Lock Op Local Ret M :=
  { s with monitor := Function.update s.monitor c o }

/-- The store to lock word `l` has left `ram`; it clears the monitors on it. -/
def storeWord (l : Lock) (ram : M) : Packed Core Lock Op Local Ret M :=
  { s with ram, monitor := fun c => if s.monitor c = some l then none else s.monitor c }

end Packed

section Step

variable {K : Client Core Lock Op Local Mem Ret} (L : Layout K M)

namespace Layout

def step (s : Packed Core Lock Op Local Ret M) : Act Core Op →
    Option (Packed Core Lock Op Local Ret M)
  | .call c op =>
    match s.phase c with
    | .idle => some (s.goto c (.ldxr op))
    | _ => none
  | .step c ok =>
    match s.phase c with
    | .idle => none
    | .ldxr op =>
      some ((s.setMonitor c (some (K.lock op))).goto c
        (if L.word s.ram (K.lock op) = 0 then .stxr op else .ldxr op))
    | .stxr op =>
      some (if ok = true ∧ s.monitor c = some (K.lock op) then
          (s.storeWord (K.lock op) (L.setWord (K.lock op) 1 s.ram)).goto c (.inside op (K.start c op))
        else (s.setMonitor c none).goto c (.ldxr op))
    | .inside op l =>
      some ({ s with ram := L.store op l s.ram }.goto c
        (.after op (K.access l (L.mem s.ram (K.lock op))).2))
    | .release op r =>
      some { (s.storeWord (K.lock op) (L.setWord (K.lock op) 0 s.ram)).goto c .idle with
        hist := s.hist ++ [(c, op, r)] }

/-- The separate memories. -/
def unpack (s : Packed Core Lock Op Local Ret M) : State Core Lock Op Local Mem Ret :=
  ⟨L.word s.ram, s.monitor, L.mem s.ram, s.phase, s.hist⟩

variable {L} {s s' : Packed Core Lock Op Local Ret M} {a : Act Core Op}

theorem unpack_goto (c : Core) (p : Phase Op Local Ret) :
    L.unpack (s.goto c p) = (L.unpack s).goto c p := rfl

omit [DecidableEq Core] in
theorem unpack_storeWord (l : Lock) (v : BitVec 32) :
    L.unpack (s.storeWord l (L.setWord l v s.ram)) = (L.unpack s).storeWord l v := by
  unfold unpack State.storeWord Packed.storeWord
  rw [L.word_setWord, L.mem_setWord]

omit [DecidableEq Core] in
theorem unpack_store (op : Op) (l : Local) :
    L.unpack { s with ram := L.store op l s.ram } =
      (L.unpack s).setMem (K.lock op) (K.access l (L.mem s.ram (K.lock op))).1 := by
  unfold unpack State.setMem
  rw [L.word_store, L.mem_store]

/-- A step over the one memory is the same step over the separate memories. -/
theorem step_unpack (s : Packed Core Lock Op Local Ret M) (a : Act Core Op) :
    CriticalSection.step K (L.unpack s) a = (L.step s a).map L.unpack := by
  cases a with
  | call c op =>
    have hphase : (L.unpack s).phase c = s.phase c := rfl
    unfold Layout.step CriticalSection.step
    dsimp only
    rw [hphase]
    cases s.phase c <;> rfl
  | step c ok =>
    have hphase : (L.unpack s).phase c = s.phase c := rfl
    unfold Layout.step CriticalSection.step
    dsimp only
    rw [hphase]
    cases s.phase c with
    | idle | ldxr => rfl
    | stxr op =>
      dsimp only
      rw [Option.map_some, apply_ite L.unpack, unpack_goto, unpack_storeWord]
      rfl
    | inside op l =>
      dsimp only
      rw [Option.map_some, unpack_goto, unpack_store]
      rfl
    | release op r =>
      dsimp only
      rw [← unpack_storeWord]
      rfl

theorem sim (h : L.step s a = some s') :
    CriticalSection.step K (L.unpack s) a = some (L.unpack s') := by
  rw [step_unpack, h, Option.map_some]

/-- What a step does to the memory. -/
theorem ram_cases (h : L.step s a = some s') :
    s'.ram = s.ram ∨ (∃ l v, s'.ram = L.setWord l v s.ram) ∨ ∃ op l, s'.ram = L.store op l s.ram := by
  cases a with
  | call c op =>
    unfold Layout.step at h
    dsimp only at h
    cases hp : s.phase c <;> rw [hp] at h
    · rw [← Option.some.inj h]
      exact Or.inl rfl
    all_goals cases h
  | step c ok =>
    unfold Layout.step at h
    dsimp only at h
    cases hp : s.phase c with
    | idle => rw [hp] at h; cases h
    | ldxr op =>
      rw [hp] at h
      rw [← Option.some.inj h]
      exact Or.inl rfl
    | stxr op =>
      rw [hp] at h
      rw [← Option.some.inj h]
      split
      · exact Or.inr (Or.inl ⟨_, _, rfl⟩)
      · exact Or.inl rfl
    | inside op l =>
      rw [hp] at h
      rw [← Option.some.inj h]
      exact Or.inr (Or.inr ⟨_, _, rfl⟩)
    | release op r =>
      rw [hp] at h
      rw [← Option.some.inj h]
      exact Or.inr (Or.inl ⟨_, _, rfl⟩)

end Layout

end Step

end CriticalSection
