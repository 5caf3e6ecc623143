import Mathlib.Tactic.Common

/-!
# Runs and what they keep

A run takes one step after another. What each step keeps, the run keeps; a step
may keep it only under a condition, and then the run has to meet the condition
wherever it takes a step.
-/

namespace DartUdp.Lib

variable {σ α : Type} {step : σ → α → σ} {P Q : σ → α → Prop} {I : σ → Prop}

/-- Each step of the run meets the condition in the state in which it is taken. -/
def Meets (step : σ → α → σ) (P : σ → α → Prop) : σ → List α → Prop
  | _, [] => True
  | s, a :: actions => P s a ∧ Meets step P (step s a) actions

def Meets.decidable [∀ s a, Decidable (P s a)] : (s : σ) → (actions : List α) →
    Decidable (Meets step P s actions)
  | _, [] => .isTrue trivial
  | s, a :: actions =>
      have := Meets.decidable (step s a) actions
      inferInstanceAs (Decidable (P s a ∧ Meets step P (step s a) actions))

instance [∀ s a, Decidable (P s a)] (s : σ) (actions : List α) :
    Decidable (Meets step P s actions) := Meets.decidable s actions

theorem Meets.mono {s : σ} {actions : List α} (h : Meets step P s actions)
    (hPQ : ∀ s a, P s a → Q s a) : Meets step Q s actions := by
  induction actions generalizing s with
  | nil => trivial
  | cons a actions ih => exact ⟨hPQ s a h.1, ih h.2⟩

/-- An invariant that every step keeps under the condition holds at the end. -/
theorem Meets.run {s : σ} {actions : List α} (h : Meets step P s actions) (hstart : I s)
    (hstep : ∀ s a, I s → P s a → I (step s a)) : I (actions.foldl step s) := by
  induction actions generalizing s with
  | nil => exact hstart
  | cons a actions ih => exact ih h.2 (hstep s a hstart h.1)

/-- An invariant that every step keeps holds at the end. -/
theorem run_keeps {s : σ} (actions : List α) (hstart : I s)
    (hstep : ∀ s a, I s → I (step s a)) : I (actions.foldl step s) := by
  induction actions generalizing s with
  | nil => exact hstart
  | cons a actions ih => exact ih (hstep s a hstart)

/-- Two conditions that agree wherever the invariant holds are met by the same
runs. -/
theorem meets_congr {s : σ} (actions : List α) (hstart : I s)
    (hPQ : ∀ s a, I s → (P s a ↔ Q s a)) (hstep : ∀ s a, I s → P s a → I (step s a)) :
    Meets step P s actions ↔ Meets step Q s actions := by
  induction actions generalizing s with
  | nil => exact Iff.rfl
  | cons a actions ih =>
      constructor
      · intro h
        exact ⟨(hPQ s a hstart).1 h.1, (ih (hstep s a hstart h.1)).1 h.2⟩
      · intro h
        have hP := (hPQ s a hstart).2 h.1
        exact ⟨hP, (ih (hstep s a hstart hP)).2 h.2⟩

end DartUdp.Lib
