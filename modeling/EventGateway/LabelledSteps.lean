import Mathlib.Logic.Relation
import Mathlib.Tactic.SplitIfs

namespace LabelledSteps

structure Machine (σ ℓ : Type) where
  initial : σ
  step : σ → ℓ → Option σ

namespace Machine

variable {σ ℓ : Type} {m : Machine σ ℓ} {s s' : σ}

def Step (m : Machine σ ℓ) (s s' : σ) : Prop := ∃ label, m.step s label = some s'

def Runs (m : Machine σ ℓ) : σ → σ → Prop := Relation.ReflTransGen m.Step

def Reachable (m : Machine σ ℓ) (s : σ) : Prop := m.Runs m.initial s

def restrict (m : Machine σ ℓ) (allowed : σ → ℓ → Bool) : Machine σ ℓ where
  initial := m.initial
  step := fun s label => if allowed s label then m.step s label else none

theorem Runs.invariant {P : σ → Prop} (hrun : m.Runs s s') (hs : P s)
    (hstep : ∀ s label s', P s → m.step s label = some s' → P s') : P s' := by
  induction hrun with
  | refl => exact hs
  | tail _ h ih =>
    obtain ⟨label, h⟩ := h
    exact hstep _ label _ ih h

theorem runs_of_labels (labels : List ℓ) (h : labels.foldlM m.step s = some s') : m.Runs s s' := by
  induction labels generalizing s with
  | nil =>
    obtain rfl := Option.some.inj h
    exact .refl
  | cons label labels ih =>
    obtain ⟨s₁, hstep, hrest⟩ := Option.bind_eq_some_iff.mp h
    exact .head ⟨label, hstep⟩ (ih hrest)

theorem reachable_of_labels (labels : List ℓ) (h : labels.foldlM m.step m.initial = some s) : m.Reachable s :=
  runs_of_labels labels h

theorem step_of_restrict {allowed : σ → ℓ → Bool} {label : ℓ} (h : (m.restrict allowed).step s label = some s') :
    allowed s label = true ∧ m.step s label = some s' := by
  simp only [restrict] at h
  split_ifs at h with hallowed
  exact ⟨hallowed, h⟩

end Machine

end LabelledSteps
