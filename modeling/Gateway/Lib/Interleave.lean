import Gateway.Lib.Exec

/-!
# Two systems side by side

`parStep` runs two systems with nothing in common: an action is one of the first, one of the second,
or one of neither. A run of both is a run of each on its own actions (`exec_par_iff`).
-/

namespace Runs

variable {σ τ α β : Type*}

def parStep (step₁ : σ → α → Option σ) (step₂ : τ → β → Option τ) (s : σ × τ) :
    Option (α ⊕ β) → Option (σ × τ)
  | some (.inl a) => (step₁ s.1 a).map fun s₁ => (s₁, s.2)
  | some (.inr b) => (step₂ s.2 b).map fun s₂ => (s.1, s₂)
  | none => some s

/-- The actions of the first system. -/
def lefts (acts : List (Option (α ⊕ β))) : List α := acts.filterMap (Option.bind · Sum.getLeft?)

/-- The actions of the second system. -/
def rights (acts : List (Option (α ⊕ β))) : List β := acts.filterMap (Option.bind · Sum.getRight?)

theorem exec_par_iff {step₁ : σ → α → Option σ} {step₂ : τ → β → Option τ} {s s' : σ × τ}
    {acts : List (Option (α ⊕ β))} : exec (parStep step₁ step₂) s acts = some s' ↔
      exec step₁ s.1 (lefts acts) = some s'.1 ∧ exec step₂ s.2 (rights acts) = some s'.2 := by
  induction acts generalizing s with
  | nil => simp [lefts, rights, Prod.ext_iff]
  | cons a acts ih =>
    rw [exec_cons_eq_some]
    match a with
    | none => simpa [parStep, lefts, rights] using ih
    | some (.inl a) =>
      have hl : lefts (some (.inl a) :: acts) = a :: lefts acts := rfl
      have hr : rights (some (.inl a) :: acts) = rights acts := rfl
      rw [hl, hr, exec_cons_eq_some]
      simp only [parStep, Option.map_eq_some_iff, ih]
      constructor
      · rintro ⟨_, ⟨s₁, hs, rfl⟩, h₁, h₂⟩
        exact ⟨⟨s₁, hs, h₁⟩, h₂⟩
      · rintro ⟨⟨s₁, hs, h₁⟩, h₂⟩
        exact ⟨_, ⟨s₁, hs, rfl⟩, h₁, h₂⟩
    | some (.inr b) =>
      have hl : lefts (some (.inr b) :: acts) = lefts acts := rfl
      have hr : rights (some (.inr b) :: acts) = b :: rights acts := rfl
      rw [hl, hr, exec_cons_eq_some]
      simp only [parStep, Option.map_eq_some_iff, ih]
      constructor
      · rintro ⟨_, ⟨s₂, hs, rfl⟩, h₁, h₂⟩
        exact ⟨h₁, s₂, hs, h₂⟩
      · rintro ⟨h₁, s₂, hs, h₂⟩
        exact ⟨_, ⟨s₂, hs, rfl⟩, h₁, h₂⟩

/-- Labels that depend on the actions only. -/
theorem labels_eq_map {γ : Type*} {step : σ → α → Option σ} (label : α → γ) {s s' : σ}
    {acts : List α} (h : exec step s acts = some s') :
    labels step (fun _ a => label a) s acts = acts.map label := by
  induction acts generalizing s with
  | nil => rfl
  | cons a acts ih =>
    obtain ⟨s₁, hs, h⟩ := exec_cons_eq_some.1 h
    rw [labels_cons hs, ih h, List.map_cons]

end Runs
