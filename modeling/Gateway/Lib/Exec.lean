import Mathlib.Tactic.Common

/-!
# Runs of a partial step function

A system is a function `step : σ → α → Option σ` of a state and an action; an action that is not
enabled gives `none`. A run is a list of actions, and `exec` is the state it ends in.

* `exec_invariant`: what every step keeps, every run keeps.
* `Along G`: every step of the run is taken in a state and with an action that satisfy `G`.
  `exec_invariant_along` is the invariant rule for such runs.
* `Lockstep`: every step is one step of another system. Runs, conditions along runs and prefixes
  of runs carry over.
-/

namespace Runs

variable {σ τ α β : Type*}

section Exec

variable (step : σ → α → Option σ)

/-- The state in which the run `as` from `s` ends; `none` if one of its actions is not enabled. -/
def exec : σ → List α → Option σ
  | s, [] => some s
  | s, a :: as => (step s a).bind fun s' => exec s' as

@[simp] theorem exec_nil (s : σ) : exec step s [] = some s := rfl

@[simp] theorem exec_cons (s : σ) (a : α) (as : List α) :
    exec step s (a :: as) = (step s a).bind fun s' => exec step s' as := rfl

theorem exec_append (s : σ) (as bs : List α) :
    exec step s (as ++ bs) = (exec step s as).bind fun s' => exec step s' bs := by
  induction as generalizing s with
  | nil => rfl
  | cons a as ih =>
    rw [List.cons_append, exec_cons, exec_cons, Option.bind_assoc]
    exact Option.bind_congr fun s' _ => ih s'

variable {step}

theorem exec_append_eq_some {s s'' : σ} {as bs : List α} :
    exec step s (as ++ bs) = some s'' ↔
      ∃ s', exec step s as = some s' ∧ exec step s' bs = some s'' := by
  rw [exec_append, Option.bind_eq_some_iff]

theorem exec_cons_eq_some {s s'' : σ} {a : α} {as : List α} :
    exec step s (a :: as) = some s'' ↔
      ∃ s', step s a = some s' ∧ exec step s' as = some s'' := by
  rw [exec_cons, Option.bind_eq_some_iff]

theorem exec_concat_eq_some {s s'' : σ} {as : List α} {a : α} :
    exec step s (as ++ [a]) = some s'' ↔
      ∃ s', exec step s as = some s' ∧ step s' a = some s'' := by
  simp [exec_append_eq_some]

/-- What every step keeps, every run keeps. -/
theorem exec_invariant {I : σ → Prop} (hI : ∀ s a s', I s → step s a = some s' → I s')
    {s s' : σ} {as : List α} (h0 : I s) (h : exec step s as = some s') : I s' := by
  induction as generalizing s with
  | nil => rwa [Option.some.inj h] at h0
  | cons a as ih =>
    obtain ⟨s₁, hs, h⟩ := exec_cons_eq_some.1 h
    exact ih (hI s a s₁ h0 hs) h

end Exec

/-! ## Runs whose steps meet a condition -/

section Along

variable (step : σ → α → Option σ) (G : σ → α → Prop)

/-- Every step of the run satisfies `G`, a condition on the state before it and on its action. -/
def Along : σ → List α → Prop
  | _, [] => True
  | s, a :: as => G s a ∧ ∀ s', step s a = some s' → Along s' as

@[simp] theorem along_nil (s : σ) : Along step G s [] := trivial

theorem along_cons {s : σ} {a : α} {as : List α} :
    Along step G s (a :: as) ↔ G s a ∧ ∀ s', step s a = some s' → Along step G s' as := Iff.rfl

theorem along_cons_of_step {s s' : σ} {a : α} {as : List α} (h : step s a = some s') :
    Along step G s (a :: as) ↔ G s a ∧ Along step G s' as := by
  rw [along_cons]
  refine and_congr_right fun _ => ⟨fun hA => hA s' h, fun hA t ht => ?_⟩
  rwa [Option.some.inj (h.symm.trans ht)] at hA

instance [∀ s a, Decidable (G s a)] (s : σ) (as : List α) : Decidable (Along step G s as) :=
  match as with
  | [] => .isTrue trivial
  | a :: as =>
    match h : step s a with
    | none => decidable_of_iff (G s a) ⟨fun hG => ⟨hG, fun s' hs => by rw [h] at hs; cases hs⟩, And.left⟩
    | some s' =>
      have : Decidable (Along step G s' as) := instDecidableAlong s' as
      decidable_of_iff (G s a ∧ Along step G s' as) (along_cons_of_step step G h).symm

variable {step G}

theorem along_append {s s' : σ} {as bs : List α} (h : exec step s as = some s') :
    Along step G s (as ++ bs) ↔ Along step G s as ∧ Along step G s' bs := by
  induction as generalizing s with
  | nil => rw [List.nil_append, Option.some.inj h]; exact (and_iff_right trivial).symm
  | cons a as ih =>
    obtain ⟨s₁, hs, h⟩ := exec_cons_eq_some.1 h
    rw [List.cons_append, along_cons_of_step step G hs, along_cons_of_step step G hs, ih h,
      and_assoc]

theorem Along.mono {H : σ → α → Prop} (hGH : ∀ s a, G s a → H s a) {s : σ} {as : List α}
    (h : Along step G s as) : Along step H s as := by
  induction as generalizing s with
  | nil => trivial
  | cons a as ih => exact ⟨hGH s a h.1, fun s' hs => ih (h.2 s' hs)⟩

theorem Along.and {H : σ → α → Prop} {s : σ} {as : List α} (h : Along step G s as)
    (h' : Along step H s as) : Along step (fun s a => G s a ∧ H s a) s as := by
  induction as generalizing s with
  | nil => trivial
  | cons a as ih => exact ⟨⟨h.1, h'.1⟩, fun s' hs => ih (h.2 s' hs) (h'.2 s' hs)⟩

theorem along_of_forall {P : α → Prop} {s : σ} {as : List α} (h : ∀ a ∈ as, P a) :
    Along step (fun _ a => P a) s as := by
  induction as generalizing s with
  | nil => trivial
  | cons a as ih =>
    exact ⟨h a List.mem_cons_self, fun s' _ => ih fun b hb => h b (List.mem_cons_of_mem a hb)⟩

/-- What every step that meets `G` keeps holds before every step of a run along `G`. -/
theorem Along.strengthen {I : σ → Prop} (hI : ∀ s a s', I s → G s a → step s a = some s' → I s')
    {s : σ} {as : List α} (h0 : I s) (h : Along step G s as) :
    Along step (fun s a => I s ∧ G s a) s as := by
  induction as generalizing s with
  | nil => trivial
  | cons a as ih => exact ⟨⟨h0, h.1⟩, fun s' hs => ih (hI s a s' h0 h.1 hs) (h.2 s' hs)⟩

/-- A run is along `G` if each of its steps meets `G` once all steps before it do. -/
theorem along_of_forall_prefix {s : σ} {as : List α}
    (h : ∀ pre a s', pre ++ [a] <+: as → exec step s pre = some s' → Along step G s pre → G s' a) :
    Along step G s as := by
  induction as generalizing s with
  | nil => trivial
  | cons a as ih =>
    have ha : G s a := h [] a s (by simp) rfl trivial
    refine ⟨ha, fun s₁ hs => ih fun pre b s' hpre he hA => ?_⟩
    exact h (a :: pre) b s' (by simpa using hpre) (exec_cons_eq_some.2 ⟨s₁, hs, he⟩)
      ((along_cons_of_step step G hs).2 ⟨ha, hA⟩)

theorem Along.initial {s : σ} {as bs : List α} {s' : σ} (h : Along step G s bs) (hp : as <+: bs)
    (he : exec step s as = some s') : Along step G s as := by
  obtain ⟨cs, rfl⟩ := hp
  exact ((along_append he).1 h).1

/-- What every step that meets `G` keeps, every run along `G` keeps. -/
theorem exec_invariant_along {I : σ → Prop}
    (hI : ∀ s a s', I s → G s a → step s a = some s' → I s')
    {s s' : σ} {as : List α} (h0 : I s) (hG : Along step G s as)
    (h : exec step s as = some s') : I s' := by
  induction as generalizing s with
  | nil => rwa [Option.some.inj h] at h0
  | cons a as ih =>
    obtain ⟨s₁, hs, h⟩ := exec_cons_eq_some.1 h
    exact ih (hI s a s₁ h0 hG.1 hs) (hG.2 s₁ hs) h

end Along

/-! ## Lockstep simulation -/

section Lockstep

variable (step : σ → α → Option σ) (step' : τ → β → Option τ)

/-- What an observer records of a run: the label of each of its steps. -/
def labels (label : σ → α → β) : σ → List α → List β
  | _, [] => []
  | s, a :: as => label s a :: ((step s a).map fun s' => labels label s' as).getD []

/-- Every step from a state satisfying `I` is, through `f`, one step of `step'`: the one that
`label` names. -/
structure Lockstep (I : σ → Prop) (f : σ → τ) (label : σ → α → β) : Prop where
  inv : ∀ s a s', I s → step s a = some s' → I s'
  sim : ∀ s a s', I s → step s a = some s' → step' (f s) (label s a) = some (f s')

variable {step step'}

theorem labels_cons {label : σ → α → β} {s s' : σ} {a : α} {as : List α} (h : step s a = some s') :
    labels step label s (a :: as) = label s a :: labels step label s' as := by
  simp [labels, h]

theorem labels_append (label : σ → α → β) {s s' : σ} {as : List α}
    (h : exec step s as = some s') (bs : List α) :
    labels step label s (as ++ bs) = labels step label s as ++ labels step label s' bs := by
  induction as generalizing s with
  | nil => rw [Option.some.inj h]; rfl
  | cons a as ih =>
    obtain ⟨s₁, hs, h⟩ := exec_cons_eq_some.1 h
    rw [List.cons_append, labels_cons hs, labels_cons hs, ih h, List.cons_append]

theorem map_labels {γ : Type*} (label : σ → α → β) (g : β → γ) (s : σ) (as : List α) :
    (labels step label s as).map g = labels step (fun s a => g (label s a)) s as := by
  induction as generalizing s with
  | nil => rfl
  | cons a as ih =>
    cases hs : step s a with
    | none => simp [labels, hs]
    | some s' => rw [labels_cons hs, labels_cons hs, List.map_cons, ih]

theorem length_labels {label : σ → α → β} {s s' : σ} {as : List α}
    (h : exec step s as = some s') : (labels step label s as).length = as.length := by
  induction as generalizing s with
  | nil => rfl
  | cons a as ih =>
    obtain ⟨s₁, hs, h⟩ := exec_cons_eq_some.1 h
    rw [labels_cons hs, List.length_cons, List.length_cons, ih h]

/-- What holds of the start with no labels, and is kept by every step that meets `G` with its label
added, holds of every run along `G` with its labels. -/
theorem labels_invariant_along {label : σ → α → β} {G : σ → α → Prop} {J : σ → List β → Prop}
    (hJ : ∀ s l a s', J s l → G s a → step s a = some s' → J s' (l ++ [label s a]))
    {s s' : σ} {as : List α} (h0 : J s []) (hG : Along step G s as)
    (h : exec step s as = some s') : J s' (labels step label s as) := by
  have aux : ∀ l, J s l → J s' (l ++ labels step label s as) := by
    clear h0
    induction as generalizing s with
    | nil =>
      intro l hl
      rwa [← Option.some.inj h, labels, List.append_nil]
    | cons a as ih =>
      intro l hl
      obtain ⟨s₁, hs, h⟩ := exec_cons_eq_some.1 h
      have := ih (hG.2 s₁ hs) h _ (hJ s l a s₁ hl hG.1 hs)
      rwa [labels_cons hs, List.append_cons]
  exact aux [] h0

/-- A condition that the label of a step tells holds along a run exactly when all its labels tell
it. -/
theorem along_iff_forall_labels (label : σ → α → β) {G : σ → α → Prop} (P : β → Prop)
    (hP : ∀ s a, G s a ↔ P (label s a)) {s s' : σ} {as : List α} (h : exec step s as = some s') :
    Along step G s as ↔ ∀ b ∈ labels step label s as, P b := by
  induction as generalizing s with
  | nil => simp [labels]
  | cons a as ih =>
    obtain ⟨s₁, hs, h⟩ := exec_cons_eq_some.1 h
    rw [along_cons_of_step step G hs, labels_cons hs, List.forall_mem_cons, hP s a, ih h]

variable {I : σ → Prop} {f : σ → τ} {label : σ → α → β}

theorem Lockstep.exec (hL : Lockstep step step' I f label) {s s' : σ} {as : List α} (h0 : I s)
    (h : exec step s as = some s') :
    I s' ∧ Runs.exec step' (f s) (labels step label s as) = some (f s') := by
  induction as generalizing s with
  | nil => rw [← Option.some.inj h]; exact ⟨h0, rfl⟩
  | cons a as ih =>
    obtain ⟨s₁, hs, h⟩ := exec_cons_eq_some.1 h
    rw [labels_cons hs, exec_cons, hL.sim s a s₁ h0 hs]
    exact ih (hL.inv s a s₁ h0 hs) h

/-- A condition that is a condition on the images of the steps holds along a run exactly when it
holds along the image. -/
theorem Lockstep.along_iff (hL : Lockstep step step' I f label) {G : σ → α → Prop}
    {G' : τ → β → Prop} (hG : ∀ s a, I s → (G s a ↔ G' (f s) (label s a))) {s s' : σ} {as : List α}
    (h0 : I s) (h : Runs.exec step s as = some s') :
    Along step G s as ↔ Along step' G' (f s) (labels step label s as) := by
  induction as generalizing s with
  | nil => exact Iff.rfl
  | cons a as ih =>
    obtain ⟨s₁, hs, h⟩ := exec_cons_eq_some.1 h
    rw [along_cons_of_step step G hs, labels_cons hs,
      along_cons_of_step step' G' (hL.sim s a s₁ h0 hs), hG s a h0, ih (hL.inv s a s₁ h0 hs) h]

/-- The prefixes of the image of a run are the images of its prefixes. -/
theorem Lockstep.forall_prefix_iff (hL : Lockstep step step' I f label)
    {P : List β → τ → Prop} {s s' : σ} {as : List α} (h0 : I s) (h : Runs.exec step s as = some s') :
    (∀ pre t, pre <+: labels step label s as → Runs.exec step' (f s) pre = some t → P pre t) ↔
      ∀ pre t, pre <+: as → Runs.exec step s pre = some t →
        P (labels step label s pre) (f t) := by
  constructor
  · rintro hP pre t ⟨post, rfl⟩ ht
    refine hP _ _ ?_ (hL.exec h0 ht).2
    rw [labels_append label ht]
    exact List.prefix_append _ _
  · intro hP pre t hpre ht
    -- the prefix of the run that produced `pre`
    obtain ⟨s₁, h1, h2⟩ := exec_append_eq_some.1
      ((List.take_append_drop pre.length as).symm ▸ h)
    have hlen : pre.length ≤ as.length := by
      have := hpre.length_le
      rwa [length_labels h] at this
    have hlab : labels step label s (as.take pre.length) = pre := by
      have happ := labels_append label h1 (as.drop pre.length)
      rw [List.take_append_drop] at happ
      refine List.IsPrefix.eq_of_length ?_ ?_
      · exact List.prefix_of_prefix_length_le (happ ▸ List.prefix_append _ _) hpre
          (by rw [length_labels h1, List.length_take]; omega)
      · rw [length_labels h1, List.length_take]; omega
    obtain ⟨-, hex⟩ := hL.exec h0 h1
    rw [hlab] at hex
    have := hP _ _ (List.take_prefix _ _) h1
    rwa [hlab, Option.some.inj (hex.symm.trans ht)] at this

end Lockstep

/-! ## Simulation with steps that do not show -/

section Stuttering

variable {step : σ → α → Option σ} {step' : τ → β → Option τ} {G : σ → α → Prop} {R : σ → τ → Prop}
  {label : α → Option β}

/-- If every step that meets `G` is, related by `R`, the step of `step'` that `label` names, or no
step at all where it names none, then a run along `G` is the run of the named steps. -/
theorem exec_filterMap
    (hshow : ∀ s a s' t b, G s a → R s t → step s a = some s' → label a = some b →
      ∃ t', step' t b = some t' ∧ R s' t')
    (hhide : ∀ s a s' t, G s a → R s t → step s a = some s' → label a = none → R s' t)
    {s s' : σ} {t : τ} {as : List α} (hG : Along step G s as) (hR : R s t)
    (h : exec step s as = some s') : ∃ t', exec step' t (as.filterMap label) = some t' ∧ R s' t' := by
  induction as generalizing s t with
  | nil =>
    rw [← Option.some.inj h]
    exact ⟨t, rfl, hR⟩
  | cons a as ih =>
    obtain ⟨s₁, hs, h⟩ := exec_cons_eq_some.1 h
    obtain ⟨ha, hG⟩ := (along_cons_of_step step G hs).1 hG
    cases hl : label a with
    | none =>
      rw [List.filterMap_cons_none hl]
      exact ih hG (hhide s a s₁ t ha hR hs hl) h
    | some b =>
      obtain ⟨t₁, ht, hR₁⟩ := hshow s a s₁ t b ha hR hs hl
      obtain ⟨t', ht', hR'⟩ := ih hG hR₁ h
      rw [List.filterMap_cons_some hl]
      exact ⟨t', exec_cons_eq_some.2 ⟨t₁, ht, ht'⟩, hR'⟩

end Stuttering

end Runs
