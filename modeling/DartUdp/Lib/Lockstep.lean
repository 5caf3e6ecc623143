import DartUdp.Lib.Prog

/-!
# Two runs in lockstep

A program started in two states that differ only in what it does not look at
ends the same way from both, and leaves states that still differ only in that.
The rules below follow the two runs together, along the program.
-/

namespace DartUdp.Lib

variable {ε σ τ α β : Type} {R : σ → σ → Prop} {s s' : σ}

/-- Two runs that end alike, in states related by `R`. -/
inductive Lockstep (R : σ → σ → Prop) :
    EStateM.Result ε σ α → EStateM.Result ε σ α → Prop
  | ok (a : α) {s s' : σ} (h : R s s') : Lockstep R (.ok a s) (.ok a s')
  | error (e : ε) {s s' : σ} (h : R s s') : Lockstep R (.error e s) (.error e s')

namespace Lockstep

theorem pure (a : α) (h : R s s') :
    Lockstep R ((Pure.pure a : EStateM ε σ α) s) ((Pure.pure a : EStateM ε σ α) s') := .ok a h

theorem throw (e : ε) (h : R s s') :
    Lockstep R ((throw e : EStateM ε σ α) s) ((throw e : EStateM ε σ α) s') := .error e h

theorem bind {m m' : EStateM ε σ α} {f f' : α → EStateM ε σ β}
    (h : Lockstep R (m s) (m' s'))
    (hf : ∀ a t t', R t t' → Lockstep R (f a t) (f' a t')) :
    Lockstep R ((m >>= f) s) ((m' >>= f') s') := by
  change Lockstep R (EStateM.bind m f s) (EStateM.bind m' f' s')
  unfold EStateM.bind
  generalize m s = r at h
  generalize m' s' = r' at h
  cases h with
  | ok a h => exact hf a _ _ h
  | error e h => exact .error e h

/-- What both read of their states goes on with each. -/
theorem get_bind {f f' : σ → EStateM ε σ β} (h : Lockstep R (f s s) (f' s' s')) :
    Lockstep R ((get >>= f) s) ((get >>= f') s') := h

theorem modify {f f' : σ → σ} (h : R (f s) (f' s')) :
    Lockstep R ((modify f : EStateM ε σ PUnit) s) ((modify f' : EStateM ε σ PUnit) s') := .ok _ h

theorem ofExcept {ε' : Type} (wrap : ε' → ε) (r : Except ε' α) (h : R s s') :
    Lockstep R (Lib.ofExcept wrap r s) (Lib.ofExcept wrap r s') := by
  cases r with
  | ok a => exact .ok a h
  | error e => exact .error (wrap e) h

theorem ite {b : Prop} [Decidable b] {m m' n n' : EStateM ε σ α}
    (h : b → Lockstep R (m s) (m' s')) (h' : ¬ b → Lockstep R (n s) (n' s')) :
    Lockstep R ((if b then m else n) s) ((if b then m' else n') s') := by
  by_cases hb : b
  · rw [if_pos hb, if_pos hb]
    exact h hb
  · rw [if_neg hb, if_neg hb]
    exact h' hb

/-- A program on a part that is the same in both. -/
theorem zoom {part : σ → τ} {put : τ → σ → σ} (m : EStateM ε τ α) (hpart : part s = part s')
    (hput : ∀ t, R (put t s) (put t s')) :
    Lockstep R (Lib.zoom part put m s) (Lib.zoom part put m s') := by
  unfold Lib.zoom
  rw [hpart]
  cases m (part s') with
  | ok a t => exact .ok a (hput t)
  | error e t => exact .error e (hput t)

/-- Two programs that end alike answer alike. -/
theorem answer_eq {m m' : EStateM ε σ α} (h : Lockstep R (m s) (m' s')) :
    answer m s = answer m' s' := by
  unfold answer
  generalize m s = r at h
  generalize m' s' = r' at h
  cases h with
  | ok a _ => rfl
  | error e _ => rfl

end Lockstep

end DartUdp.Lib
