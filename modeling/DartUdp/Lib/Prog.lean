import Mathlib.Order.Defs.Unbundled
import Mathlib.Tactic.Common

/-!
# Programs that fail in place

A method on `&mut self` that answers a `Result` keeps every write it made
before it failed. `EStateM` is that discipline: an error carries the state it
was raised in. This file has the rules the proofs use to run such a program
one step at a time and to reason about the state it leaves whichever way it
ends.
-/

namespace DartUdp.Lib

variable {ε σ α β : Type}

/-- The state a program leaves, whichever way it ends. -/
def after (m : EStateM ε σ α) (s : σ) : σ :=
  match m s with
  | .ok _ s' => s'
  | .error _ s' => s'

/-- The answer of a program that ended well. -/
def answer (m : EStateM ε σ α) (s : σ) : Option α :=
  match m s with
  | .ok a _ => some a
  | .error _ _ => none

/-- The error of a program that failed. -/
def failure (m : EStateM ε σ α) (s : σ) : Option ε :=
  match m s with
  | .ok _ _ => none
  | .error e _ => some e

theorem bind_ok {m : EStateM ε σ α} {f : α → EStateM ε σ β} {s s' : σ} {a : α}
    (h : m s = .ok a s') : (m >>= f) s = f a s' := by
  show EStateM.bind m f s = f a s'
  rw [EStateM.bind, h]

theorem bind_error {m : EStateM ε σ α} {f : α → EStateM ε σ β} {s s' : σ} {e : ε}
    (h : m s = .error e s') : (m >>= f) s = .error e s' := by
  show EStateM.bind m f s = .error e s'
  rw [EStateM.bind, h]

/-- An answer put in other words changes no state. -/
theorem after_bind_pure (m : EStateM ε σ α) (g : α → β) (s : σ) :
    after (m >>= fun a => pure (g a)) s = after m s := by
  show after (EStateM.bind m _) s = _
  unfold after EStateM.bind
  cases m s with
  | ok a s' => rfl
  | error e s' => rfl

/-- A program on a part of the state. -/
def zoom {τ : Type} (part : σ → τ) (put : τ → σ → σ) (m : EStateM ε τ α) : EStateM ε σ α :=
  fun s =>
    match m (part s) with
    | .ok a t => .ok a (put t s)
    | .error e t => .error e (put t s)

/-- The answer of a function that does not touch the state. -/
def ofExcept {ε' : Type} (wrap : ε' → ε) (r : Except ε' α) : EStateM ε σ α :=
  match r with
  | .ok a => pure a
  | .error e => throw (wrap e)

/-- A sequence that ended well did so in both parts. -/
theorem bind_inv {m : EStateM ε σ α} {f : α → EStateM ε σ β} {s s'' : σ} {b : β}
    (h : (m >>= f) s = .ok b s'') : ∃ a s', m s = .ok a s' ∧ f a s' = .ok b s'' := by
  change EStateM.bind m f s = _ at h
  cases hm : m s with
  | ok a s' =>
      rw [EStateM.bind, hm] at h
      exact ⟨a, s', rfl, h⟩
  | error e s' =>
      rw [EStateM.bind, hm] at h
      cases h

theorem tryCatch_error {m : EStateM ε σ α} {f : ε → EStateM ε σ α} {s s' : σ} {e : ε}
    (h : m s = .error e s') : (tryCatch m f) s = f e s' := by
  show EStateM.tryCatch m f s = _
  rw [EStateM.tryCatch, h]
  rfl

theorem tryCatch_ok {m : EStateM ε σ α} {f : ε → EStateM ε σ α} {s s' : σ} {a : α}
    (h : m s = .ok a s') : (tryCatch m f) s = .ok a s' := by
  show EStateM.tryCatch m f s = .ok a s'
  rw [EStateM.tryCatch, h]

@[simp] theorem get_run (s : σ) : (get : EStateM ε σ σ) s = .ok s s := rfl

@[simp] theorem set_run (t s : σ) : (set t : EStateM ε σ PUnit) s = .ok ⟨⟩ t := rfl

@[simp] theorem modify_run (f : σ → σ) (s : σ) :
    (modify f : EStateM ε σ PUnit) s = .ok ⟨⟩ (f s) := rfl

@[simp] theorem pure_run (a : α) (s : σ) : (pure a : EStateM ε σ α) s = .ok a s := rfl

@[simp] theorem throw_run (e : ε) (s : σ) :
    (throw e : EStateM ε σ α) s = .error e s := rfl

/-! ## What a program ends in

`Ends m s Q E` says that `m` started in `s` ends well with `Q` or fails with
`E`. The rules below compute it along the program; a call of another function
goes through `Ends.mono` and what is known of the callee. -/

/-- `m` started in `s` ends well with `Q` or fails with `E`. -/
def Ends (m : EStateM ε σ α) (s : σ) (Q : α → σ → Prop) (E : ε → σ → Prop) : Prop :=
  match m s with
  | .ok a s' => Q a s'
  | .error e s' => E e s'

instance (m : EStateM ε σ α) (s : σ) (Q : α → σ → Prop) (E : ε → σ → Prop)
    [∀ a s', Decidable (Q a s')] [∀ e s', Decidable (E e s')] : Decidable (Ends m s Q E) :=
  have : Decidable (match m s with
    | .ok a s' => Q a s'
    | .error e s' => E e s') :=
    match m s with
    | .ok a s' => inferInstanceAs (Decidable (Q a s'))
    | .error e s' => inferInstanceAs (Decidable (E e s'))
  this

section Ends

variable {m : EStateM ε σ α} {f : α → EStateM ε σ β} {s s' : σ}
  {Q Q' : α → σ → Prop} {R : β → σ → Prop} {E E' : ε → σ → Prop}

theorem Ends.ok {a : α} (h : Ends m s Q E) (hrun : m s = .ok a s') : Q a s' := by
  rwa [Ends, hrun] at h

theorem Ends.error {e : ε} (h : Ends m s Q E) (hrun : m s = .error e s') : E e s' := by
  rwa [Ends, hrun] at h

theorem Ends.mono (h : Ends m s Q E) (hQ : ∀ a s', Q a s' → Q' a s')
    (hE : ∀ e s', E e s' → E' e s') : Ends m s Q' E' := by
  unfold Ends at h ⊢
  split at h
  · exact hQ _ _ h
  · exact hE _ _ h

theorem Ends.and (h : Ends m s Q E) (h' : Ends m s Q' E') :
    Ends m s (fun a s' => Q a s' ∧ Q' a s') fun e s' => E e s' ∧ E' e s' := by
  unfold Ends at h h' ⊢
  cases hrun : m s with
  | ok a s' =>
      rw [hrun] at h h'
      exact ⟨h, h'⟩
  | error e s' =>
      rw [hrun] at h h'
      exact ⟨h, h'⟩

/-- A program ends the way it runs. -/
theorem Ends.run (m : EStateM ε σ α) (s : σ) :
    Ends m s (fun a s' => m s = .ok a s') fun e s' => m s = .error e s' := by
  unfold Ends
  split
  · next h => exact h
  · next h => exact h

/-- What holds however the program ends. -/
theorem Ends.of_forall (hQ : ∀ a s', Q a s') (hE : ∀ e s', E e s') : Ends m s Q E := by
  unfold Ends
  split
  · exact hQ _ _
  · exact hE _ _

/-- Nothing is said of where the program ends. -/
theorem ends_true : Ends m s (fun _ _ => True) fun _ _ => True :=
  Ends.of_forall (fun _ _ => trivial) fun _ _ => trivial

/-- The error a program fails with is one of those it may fail with. -/
theorem Ends.failed {e : ε} (h : Ends m s Q E) (hfails : failure m s = some e) : ∃ s', E e s' := by
  unfold failure at hfails
  cases hrun : m s with
  | ok a s' =>
      rw [hrun] at hfails
      cases hfails
  | error e' s' =>
      rw [hrun] at hfails
      cases hfails
      exact ⟨s', h.error hrun⟩

/-- What every way of ending has in common holds of the state left. -/
theorem Ends.after {P : σ → Prop} (h : Ends m s (fun _ => P) fun _ => P) : P (after m s) := by
  unfold Ends at h
  unfold Lib.after
  split at h
  · exact h
  · exact h

theorem Ends.answer {a : α} (h : Ends m s Q E) (ha : answer m s = some a) :
    Q a (Lib.after m s) := by
  unfold Ends at h
  unfold Lib.answer at ha
  unfold Lib.after
  split at h
  · next hrun =>
      rw [hrun] at ha
      cases ha
      exact h
  · next hrun =>
      rw [hrun] at ha
      cases ha

/-- A program that cannot fail answers. -/
theorem Ends.succeeds (h : Ends m s Q fun _ _ => False) :
    (Lib.answer m s).isSome ∧ ∃ a, Q a (Lib.after m s) := by
  unfold Ends at h
  unfold Lib.answer Lib.after
  split at h
  · exact ⟨rfl, _, h⟩
  · exact h.elim

theorem Ends.returns (h : Ends m s Q fun _ _ => False) : ∃ a s', m s = .ok a s' ∧ Q a s' := by
  cases hrun : m s with
  | ok a s' => exact ⟨a, s', rfl, h.ok hrun⟩
  | error e s' => exact (h.error hrun).elim

/-- A program that cannot end well does not answer. -/
theorem Ends.fails (h : Ends m s (fun _ _ => False) E) : Lib.answer m s = none := by
  unfold Ends at h
  unfold Lib.answer
  split at h
  · exact h.elim
  · rfl

/-- A program that ends well exactly under a condition answers exactly under it. -/
theorem Ends.isSome_answer_iff {P : Prop} (h : Ends m s (fun _ _ => P) fun _ _ => ¬ P) :
    (Lib.answer m s).isSome ↔ P := by
  unfold Ends at h
  unfold Lib.answer
  split at h
  · exact ⟨fun _ => h, fun _ => rfl⟩
  · exact ⟨nofun, fun hp => absurd hp h⟩

@[simp] theorem ends_bind :
    Ends (m >>= f) s R E ↔ Ends m s (fun a s' => Ends (f a) s' R E) E := by
  show Ends (EStateM.bind m f) s R E ↔ _
  unfold Ends EStateM.bind
  cases m s <;> exact Iff.rfl

@[simp] theorem ends_map {g : α → β} :
    Ends (g <$> m) s R E ↔ Ends m s (fun a s' => R (g a) s') E := by
  show Ends (EStateM.map g m) s R E ↔ _
  unfold Ends EStateM.map
  cases m s <;> exact Iff.rfl

@[simp] theorem ends_pure {a : α} : Ends (pure a) s Q E ↔ Q a s := Iff.rfl

@[simp] theorem ends_throw {e : ε} : Ends (throw e) s Q E ↔ E e s := Iff.rfl

@[simp] theorem ends_get {Q : σ → σ → Prop} : Ends get s Q E ↔ Q s s := Iff.rfl

@[simp] theorem ends_set {Q : PUnit → σ → Prop} {t : σ} : Ends (set t) s Q E ↔ Q ⟨⟩ t := Iff.rfl

@[simp] theorem ends_modify {Q : PUnit → σ → Prop} {g : σ → σ} :
    Ends (modify g) s Q E ↔ Q ⟨⟩ (g s) := Iff.rfl

@[simp] theorem ends_ite {c : Prop} [Decidable c] {m m' : EStateM ε σ α} :
    Ends (if c then m else m') s Q E ↔ (c → Ends m s Q E) ∧ (¬ c → Ends m' s Q E) := by
  split
  · next h => simp [h]
  · next h => simp [h]

@[simp] theorem ends_zoom {τ : Type} {part : σ → τ} {put : τ → σ → σ} {m : EStateM ε τ α} :
    Ends (zoom part put m) s Q E ↔
      Ends m (part s) (fun a t => Q a (put t s)) fun e t => E e (put t s) := by
  unfold Ends zoom
  cases m (part s) <;> exact Iff.rfl

@[simp] theorem ends_ofExcept {ε' : Type} {wrap : ε' → ε} {r : Except ε' α} :
    Ends (ofExcept wrap r) s Q E ↔ (∀ a, r = .ok a → Q a s) ∧ ∀ e, r = .error e → E (wrap e) s := by
  unfold ofExcept
  cases r <;> simp

@[simp] theorem ends_tryCatch {g : ε → EStateM ε σ α} :
    Ends (tryCatch m g) s Q E ↔ Ends m s Q fun e s' => Ends (g e) s' Q E := by
  show Ends (EStateM.tryCatch m g) s Q E ↔ _
  unfold Ends EStateM.tryCatch
  cases m s <;> exact Iff.rfl

end Ends

/-- The rules of the single steps, as one set for `simp`. -/
theorem ends_steps :
    (∀ {α β : Type} (m : EStateM ε σ α) (f : α → EStateM ε σ β) (s : σ) (Q : β → σ → Prop)
      (E : ε → σ → Prop), Ends (m >>= f) s Q E ↔ Ends m s (fun a s' => Ends (f a) s' Q E) E) ∧
    (∀ {α : Type} (a : α) (s : σ) (Q : α → σ → Prop) (E : ε → σ → Prop),
      Ends (pure a) s Q E ↔ Q a s) ∧
    (∀ {α : Type} (e : ε) (s : σ) (Q : α → σ → Prop) (E : ε → σ → Prop),
      Ends (throw e) s Q E ↔ E e s) ∧
    (∀ (s : σ) (Q : σ → σ → Prop) (E : ε → σ → Prop), Ends get s Q E ↔ Q s s) ∧
    (∀ (t s : σ) (Q : PUnit → σ → Prop) (E : ε → σ → Prop), Ends (set t) s Q E ↔ Q ⟨⟩ t) ∧
    (∀ (g : σ → σ) (s : σ) (Q : PUnit → σ → Prop) (E : ε → σ → Prop),
      Ends (modify g) s Q E ↔ Q ⟨⟩ (g s)) ∧
    ∀ {α : Type} (c : Prop) [Decidable c] (m m' : EStateM ε σ α) (s : σ) (Q : α → σ → Prop)
      (E : ε → σ → Prop),
      Ends (if c then m else m') s Q E ↔ (c → Ends m s Q E) ∧ (¬ c → Ends m' s Q E) :=
  ⟨fun _ _ _ _ _ => ends_bind, fun _ _ _ _ => ends_pure, fun _ _ _ _ => ends_throw,
    fun _ _ _ => ends_get, fun _ _ _ _ => ends_set, fun _ _ _ _ => ends_modify,
    fun _ _ _ _ _ _ _ => ends_ite⟩

/-! ## Programs within a relation

A preorder on states that every step respects is respected by the whole
program, whichever way it ends. -/

/-- However `m` ends, `R` holds between the state it started in and the one it
leaves. -/
def Within (R : σ → σ → Prop) (m : EStateM ε σ α) (s : σ) : Prop :=
  Ends m s (fun _ s' => R s s') fun _ s' => R s s'

section Within

variable {R : σ → σ → Prop} {m m' : EStateM ε σ α} {f : α → EStateM ε σ β} {s : σ}

theorem Within.after (h : Within R m s) : R s (after m s) := Ends.after h

theorem Within.mono {R' : σ → σ → Prop} (h : Within R m s) (hR : ∀ s', R s s' → R' s s') :
    Within R' m s :=
  Ends.mono h (fun _ s' => hR s') fun _ s' => hR s'

theorem Within.bind [IsTrans σ R] (hm : Within R m s) (hf : ∀ a s', Within R (f a) s') :
    Within R (m >>= f) s := by
  rw [Within, ends_bind]
  refine Ends.mono hm (fun a s' h => ?_) fun _ _ h => h
  exact Ends.mono (hf a s') (fun _ s'' => IsTrans.trans s s' s'' h)
    fun _ s'' => IsTrans.trans s s' s'' h

/-- The later part may use what holds of the answer and of the state it starts in. -/
theorem Within.bind_with [IsTrans σ R] {P : α → σ → Prop}
    (hm : Ends m s (fun a s' => R s s' ∧ P a s') fun _ s' => R s s')
    (hf : ∀ a s', R s s' → P a s' → Within R (f a) s') : Within R (m >>= f) s := by
  rw [Within, ends_bind]
  refine Ends.mono hm (fun a s' h => ?_) fun _ _ h => h
  exact Ends.mono (hf a s' h.1 h.2) (fun _ s'' => IsTrans.trans s s' s'' h.1)
    fun _ s'' => IsTrans.trans s s' s'' h.1

theorem Within.bind_of [IsTrans σ R] {P : σ → Prop}
    (hm : Ends m s (fun _ s' => R s s' ∧ P s') fun _ s' => R s s')
    (hf : ∀ a s', R s s' → P s' → Within R (f a) s') : Within R (m >>= f) s :=
  Within.bind_with hm hf

theorem Within.get_bind {f : σ → EStateM ε σ β} (hf : Within R (f s) s) :
    Within R (MonadState.get >>= f) s := ends_bind.2 hf

theorem Within.modify_bind [IsTrans σ R] {g : σ → σ} {f : PUnit → EStateM ε σ β} (h : R s (g s))
    (hf : Within R (f ⟨⟩) (g s)) : Within R (modify g >>= f) s := by
  rw [Within, ends_bind, ends_modify]
  exact Ends.mono hf (fun _ s'' => IsTrans.trans s (g s) s'' h)
    fun _ s'' => IsTrans.trans s (g s) s'' h

/-- A later part starts in a state that is known to be related. -/
theorem Within.trans [IsTrans σ R] {s' : σ} (hm : R s s') (hf : Within R m s') :
    Ends m s' (fun _ s'' => R s s'') fun _ s'' => R s s'' :=
  Ends.mono hf (fun _ s'' => IsTrans.trans s s' s'' hm) fun _ s'' => IsTrans.trans s s' s'' hm

theorem Within.pure [Std.Refl R] (a : α) : Within R (pure a : EStateM ε σ α) s := Std.Refl.refl s

theorem Within.throw [Std.Refl R] (e : ε) : Within R (throw e : EStateM ε σ α) s := Std.Refl.refl s

theorem Within.modify {g : σ → σ} (h : R s (g s)) :
    Within R (modify g : EStateM ε σ PUnit) s := h

theorem Within.ofExcept [Std.Refl R] {ε' : Type} (wrap : ε' → ε) (r : Except ε' α) :
    Within R (ofExcept wrap r : EStateM ε σ α) s :=
  ends_ofExcept.2 ⟨fun _ _ => Std.Refl.refl s, fun _ _ => Std.Refl.refl s⟩

theorem Within.ofExcept_bind [Std.Refl R] {ε' : Type} {wrap : ε' → ε} {r : Except ε' α}
    (hf : ∀ a, r = .ok a → Within R (f a) s) : Within R (Lib.ofExcept wrap r >>= f) s :=
  ends_bind.2 (ends_ofExcept.2 ⟨hf, fun _ _ => Std.Refl.refl s⟩)

theorem Within.ite {c : Prop} [Decidable c] (h : c → Within R m s) (h' : ¬ c → Within R m' s) :
    Within R (if c then m else m') s := ends_ite.2 ⟨h, h'⟩

theorem Within.zoom {τ : Type} {S : τ → τ → Prop} {part : σ → τ} {put : τ → σ → σ}
    {m : EStateM ε τ α} (h : Within S m (part s)) (hput : ∀ t, S (part s) t → R s (put t s)) :
    Within R (zoom part put m) s :=
  ends_zoom.2 (Ends.mono h (fun _ t => hput t) fun _ t => hput t)

end Within

/-! ## Programs that end well within a relation

The same for a program of which only the good ending matters. -/

/-- If `m` ends well, `R` holds between the state it started in and the one it
leaves. -/
def Leads (R : σ → σ → Prop) (m : EStateM ε σ α) (s : σ) : Prop :=
  Ends m s (fun _ s' => R s s') fun _ _ => True

section Leads

variable {R : σ → σ → Prop} {m m' : EStateM ε σ α} {f : α → EStateM ε σ β} {s : σ}

theorem Leads.mono {R' : σ → σ → Prop} (h : Leads R m s) (hR : ∀ s', R s s' → R' s s') :
    Leads R' m s :=
  Ends.mono h (fun _ s' => hR s') fun _ _ _ => trivial

theorem Leads.bind [IsTrans σ R] (hm : Leads R m s) (hf : ∀ a s', Leads R (f a) s') :
    Leads R (m >>= f) s := by
  rw [Leads, ends_bind]
  refine Ends.mono hm (fun a s' h => ?_) fun _ _ h => h
  exact Ends.mono (hf a s') (fun _ s'' => IsTrans.trans s s' s'' h) fun _ _ h => h

theorem Leads.get_bind {f : σ → EStateM ε σ β} (hf : Leads R (f s) s) :
    Leads R (MonadState.get >>= f) s := ends_bind.2 hf

theorem Leads.modify {g : σ → σ} (h : R s (g s)) : Leads R (modify g : EStateM ε σ PUnit) s := h

theorem Leads.pure [Std.Refl R] (a : α) : Leads R (pure a : EStateM ε σ α) s := Std.Refl.refl s

theorem Leads.throw (e : ε) : Leads R (throw e : EStateM ε σ α) s := trivial

theorem Leads.ite {c : Prop} [Decidable c] (h : c → Leads R m s) (h' : ¬ c → Leads R m' s) :
    Leads R (if c then m else m') s := ends_ite.2 ⟨h, h'⟩

/-- A handler that passes the error on has no say. -/
theorem Leads.tryCatch {g : ε → EStateM ε σ α} (h : Leads R m s)
    (hg : ∀ e s', Ends (g e) s' (fun _ _ => False) fun _ _ => True) :
    Leads R (tryCatch m g) s := by
  rw [Leads, ends_tryCatch]
  refine Ends.mono h (fun _ _ h => h) fun e s' _ => ?_
  exact Ends.mono (hg e s') (fun _ _ h => h.elim) fun _ _ h => h

end Leads

/-! ## Along a loop

A loop over a list handles one item after another and ends where one fails. -/

/-- Wherever the loop handles an item, `P` holds of the state it does so in, of
the item and of the items that are left. -/
def Along {ι : Type} (f : ι → EStateM ε σ α) (P : σ → ι → List ι → Prop) : List ι → σ → Prop
  | [], _ => True
  | x :: rest, s => P s x rest ∧ Ends (f x) s (fun _ s' => Along f P rest s') fun _ _ => True

section Along

variable {ι : Type} {f : ι → EStateM ε σ α} {P P' : σ → ι → List ι → Prop} {x : ι}
  {xs rest : List ι}
  {s s' : σ}

def Along.decidable [∀ s x rest, Decidable (P s x rest)] : (xs : List ι) → (s : σ) →
    Decidable (Along f P xs s)
  | [], _ => .isTrue trivial
  | x :: rest, s =>
      have : ∀ s', Decidable (Along f P rest s') := Along.decidable rest
      inferInstanceAs (Decidable (P s x rest ∧ Ends _ _ _ _))

instance [∀ s x rest, Decidable (P s x rest)] (xs : List ι) (s : σ) : Decidable (Along f P xs s) :=
  Along.decidable xs s

theorem Along.next {a : α} (h : Along f P (x :: rest) s) (hrun : f x s = .ok a s') :
    Along f P rest s' := h.2.ok hrun

theorem Along.mono (h : Along f P xs s) (hP : ∀ s x rest, P s x rest → P' s x rest) :
    Along f P' xs s := by
  induction xs generalizing s with
  | nil => trivial
  | cons x rest ih =>
      exact ⟨hP s x rest h.1, h.2.mono (fun _ _ hrest => ih hrest) fun _ _ _ => trivial⟩

theorem Along.of_forall (h : ∀ s x rest, P s x rest) (xs : List ι) (s : σ) : Along f P xs s := by
  induction xs generalizing s with
  | nil => trivial
  | cons x rest ih => exact ⟨h s x rest, .of_forall (fun _ s' => ih s') fun _ _ => trivial⟩

end Along

end DartUdp.Lib
