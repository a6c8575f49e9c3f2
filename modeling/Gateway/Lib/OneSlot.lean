import Mathlib.Data.List.Induction
import Gateway.Lib.Exec

/-!
# A one-place channel

The channel holds at most one message. Posting to a full channel is refused, taking empties it,
and dropping empties it whatever it holds. An operation is recorded by what it did (`Event`);
`next` says which records are possible in which state, so a log is a run of `next`.

* `take_of_post`: a message that is taken was posted, and between the two nothing but refusals
  happened: it is the latest one posted, and it had not been taken.
* `posts_eq_of_lossless`, `accounted_iff`: every posted message is taken or held, at every moment
  of a log, exactly when no `drop` meets a full channel.
-/

namespace OneSlot

open Runs

variable {M : Type*} [DecidableEq M]

/-- What an operation did. -/
inductive Event (M : Type*) where
  /-- A message was posted. -/
  | post (m : M)
  /-- A message was refused. -/
  | refuse
  /-- The message was taken. -/
  | take (m : M)
  /-- There was nothing to take. -/
  | miss
  /-- The channel was emptied. -/
  | drop
  deriving DecidableEq

/-- The channel after an event; `none` if the event cannot happen in that state. -/
def next : Option M → Event M → Option (Option M)
  | none, .post m => some (some m)
  | none, .miss => some none
  | some m, .refuse => some (some m)
  | some m, .take m' => if m' = m then some none else none
  | _, .drop => some none
  | _, _ => none

theorem next_take {slot : Option M} {m : M} {s : Option M} (h : next slot (.take m) = some s) :
    slot = some m ∧ s = none := by
  cases slot with
  | none => simp [next] at h
  | some x =>
    simp only [next] at h
    split at h
    · rename_i hm
      exact ⟨by rw [hm], (Option.some.inj h).symm⟩
    · simp at h

/-- An event other than a post cannot fill the channel. -/
theorem next_of_ne_post {slot : Option M} {e : Event M} {s : Option M} (h : next slot e = some s)
    (he : ∀ m, e ≠ .post m) (hs : slot = none) : s = none := by
  subst hs
  cases e with
  | post m => exact absurd rfl (he m)
  | miss | drop => exact (Option.some.inj h).symm
  | refuse | take => simp [next] at h

/-- A channel that holds `m` after an event had just been posted `m`, or already held it and
refused another message. -/
theorem next_eq_full {slot : Option M} {e : Event M} {m : M} (h : next slot e = some (some m)) :
    e = .post m ∨ e = .refuse ∧ slot = some m := by
  cases slot <;> cases e <;> simp [next] at h
  · exact Or.inl (by rw [h])
  · exact Or.inr ⟨rfl, by rw [h]⟩

/-- The message a channel holds is the one last posted, and only refusals followed. -/
theorem post_of_full {es : List (Event M)} {m : M} (h : exec next none es = some (some m)) :
    ∃ pre post, es = pre ++ .post m :: post ∧ ∀ e ∈ post, e = .refuse := by
  induction es using List.reverseRecOn with
  | nil => simp at h
  | append_singleton es e ih =>
    obtain ⟨slot, hs, he⟩ := exec_concat_eq_some.1 h
    rcases next_eq_full he with rfl | ⟨rfl, rfl⟩
    · exact ⟨es, [], rfl, by simp⟩
    · obtain ⟨pre, post, rfl, hq⟩ := ih hs
      refine ⟨pre, post ++ [.refuse], by simp, fun e he => ?_⟩
      rcases List.mem_append.1 he with he | he
      · exact hq e he
      · exact List.mem_singleton.1 he

/-- **Takes.** A taken message is the latest one posted, and it was not taken or dropped before. -/
theorem take_of_post {pre rest : List (Event M)} {m : M} {s : Option M}
    (h : exec next none (pre ++ .take m :: rest) = some s) :
    ∃ p q, pre = p ++ .post m :: q ∧ ∀ e ∈ q, e = .refuse := by
  obtain ⟨slot, hs, h⟩ := exec_append_eq_some.1 h
  obtain ⟨s₁, h1, -⟩ := exec_cons_eq_some.1 h
  obtain ⟨rfl, -⟩ := next_take h1
  exact post_of_full hs

/-! ## Accounting -/

/-- The messages posted. -/
def posts (es : List (Event M)) : List M :=
  es.filterMap fun | .post m => some m | _ => none

/-- The messages taken. -/
def takes (es : List (Event M)) : List M :=
  es.filterMap fun | .take m => some m | _ => none

omit [DecidableEq M] in
@[simp] theorem posts_append (es fs : List (Event M)) : posts (es ++ fs) = posts es ++ posts fs :=
  List.filterMap_append

omit [DecidableEq M] in
@[simp] theorem takes_append (es fs : List (Event M)) : takes (es ++ fs) = takes es ++ takes fs :=
  List.filterMap_append

/-- A step that loses nothing: a full channel is not dropped. -/
def Lossless (slot : Option M) (e : Event M) : Prop := e = .drop → slot = none

/-- Every posted message was taken or is held, with its multiplicity. -/
def Accounted (es : List (Event M)) (slot : Option M) : Prop :=
  ∀ m, (posts es).count m ≤ (takes es).count m + slot.toList.count m

/-- One event other than a lossy drop keeps the messages posted equal to those taken followed by
the one held. -/
theorem posts_step {es : List (Event M)} {slot s : Option M} {e : Event M}
    (h : posts es = takes es ++ slot.toList) (hl : Lossless slot e) (he : next slot e = some s) :
    posts (es ++ [e]) = takes (es ++ [e]) ++ s.toList := by
  rw [posts_append, takes_append, h]
  cases e with
  | post m =>
    cases slot <;> simp [next] at he
    subst he; simp [posts, takes]
  | refuse =>
    cases slot <;> simp [next] at he
    subst he; simp [posts, takes]
  | take m =>
    obtain ⟨rfl, rfl⟩ := next_take he
    simp [posts, takes]
  | miss =>
    cases slot <;> simp [next] at he
    subst he; simp [posts, takes]
  | drop =>
    obtain rfl := hl rfl
    simp only [next, Option.some.injEq] at he
    subst he; simp [posts, takes]

theorem posts_eq_of_lossless {es : List (Event M)} {slot : Option M}
    (h : exec next none es = some slot) (hl : Along next Lossless none es) :
    posts es = takes es ++ slot.toList := by
  induction es using List.reverseRecOn generalizing slot with
  | nil => rw [← Option.some.inj h]; rfl
  | append_singleton es e ih =>
    obtain ⟨s₁, h1, h2⟩ := exec_concat_eq_some.1 h
    obtain ⟨hl1, hl2⟩ := (along_append h1).1 hl
    exact posts_step (ih h1 hl1) hl2.1 h2

/-- A drop that meets a full channel leaves one message unaccounted for. -/
theorem not_accounted_of_drop {es : List (Event M)} {m : M}
    (h : posts es = takes es ++ [m]) : ¬ Accounted (es ++ [.drop]) (none : Option M) := by
  intro hA
  have hm := hA m
  rw [posts_append, takes_append, h] at hm
  simp only [posts, takes, List.filterMap_cons_none, List.filterMap_nil, List.append_nil,
    List.count_append, List.count_singleton_self, Option.toList_none, List.count_nil] at hm
  omega

/-- **Accounting.** All posted messages are accounted for at every moment of a log exactly when no
drop meets a full channel. -/
theorem accounted_iff {es : List (Event M)} {s : Option M} (h : exec next none es = some s) :
    (∀ pre slot, pre <+: es → exec next none pre = some slot → Accounted pre slot) ↔
      Along next Lossless none es := by
  constructor
  · intro hA
    induction es using List.reverseRecOn generalizing s with
    | nil => trivial
    | append_singleton es e ih =>
      obtain ⟨slot, h1, h2⟩ := exec_concat_eq_some.1 h
      have hl := ih h1 fun pre slot hp => hA pre slot (hp.trans (List.prefix_append _ _))
      refine (along_append h1).2 ⟨hl, fun he => ?_, fun _ _ => trivial⟩
      subst he
      have hs : s = none := by cases slot <;> simp [next] at h2 <;> exact h2.symm
      subst hs
      by_contra hslot
      obtain ⟨m, rfl⟩ := Option.ne_none_iff_exists'.1 hslot
      exact not_accounted_of_drop (posts_eq_of_lossless h1 hl)
        (hA _ none (List.prefix_refl _) h)
  · rintro hl pre slot ⟨post, rfl⟩ hp m
    have heq := posts_eq_of_lossless hp ((along_append hp).1 hl).1
    rw [heq]
    exact Nat.le_of_eq List.count_append

end OneSlot
