import Mathlib.Tactic.Common

/-!
# Trace inclusion by simulation

A machine answers each operation with a reply and a new state. Its trace is
the list of the operations with their replies. A specification says which
replies it allows and how it moves on; it may leave the machine a choice. The
machine refines the specification when every trace of it is one the
specification allows, and a relation kept step by step is enough to show it.
-/

namespace DartUdp.Lib

variable {σ α ι ο : Type}

/-- The trace of a machine over a list of operations. -/
def trace (step : σ → ι → ο × σ) : σ → List ι → List (ι × ο)
  | _, [] => []
  | s, i :: is => (i, (step s i).1) :: trace step (step s i).2 is

/-- The traces a specification allows from one state to another. -/
inductive Allowed (allows : α → ι → ο → α → Prop) : α → List (ι × ο) → α → Prop
  | nil (a : α) : Allowed allows a [] a
  | cons {a a' a'' : α} {i : ι} {o : ο} {evs : List (ι × ο)} :
      allows a i o a' → Allowed allows a' evs a'' → Allowed allows a ((i, o) :: evs) a''

theorem Allowed.append {allows : α → ι → ο → α → Prop} {evs evs' : List (ι × ο)} {a a'' : α}
    (h : Allowed allows a (evs ++ evs') a'') :
    ∃ a', Allowed allows a evs a' ∧ Allowed allows a' evs' a'' := by
  induction evs generalizing a with
  | nil => exact ⟨a, .nil a, h⟩
  | cons ev evs ih =>
      cases h with
      | cons hstep hrest =>
          obtain ⟨a', h1, h2⟩ := ih hrest
          exact ⟨a', .cons hstep h1, h2⟩

/-- A simulation carries every trace of the machine over to the
specification. -/
theorem allowed_trace {step : σ → ι → ο × σ} {allows : α → ι → ο → α → Prop}
    {R : σ → α → Prop}
    (hstep : ∀ s a i, R s a → ∃ a', allows a i (step s i).1 a' ∧ R (step s i).2 a') :
    ∀ (is : List ι) {s : σ} {a : α}, R s a → ∃ a', Allowed allows a (trace step s is) a' := by
  intro is
  induction is with
  | nil => intro s a _; exact ⟨a, .nil a⟩
  | cons i is ih =>
      intro s a hR
      obtain ⟨a₁, hallow, hR₁⟩ := hstep s a i hR
      obtain ⟨a₂, hrest⟩ := ih hR₁
      exact ⟨a₂, .cons hallow hrest⟩

end DartUdp.Lib
