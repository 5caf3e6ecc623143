import DartUdp.Lib.Bytes

/-!
# Readers of byte strings

A reader takes a value off the front of the bytes that are left, or fails. Four
things are said of one. It `Reads` some bytes as a value when it does so whatever
follows them: that is what a writer's output must satisfy. It `Takes` bytes that
stand in a relation to its answer: that is what says which bytes it accepts. It is
`Local` when what follows those bytes makes no difference. And it `FailsOnly` with
errors of one kind. All four compose along `bind`.
-/

namespace DartUdp.Lib

variable {ε α β : Type}

/-- What reads from the front of the bytes that are left. -/
abbrev Decoder (ε : Type) := StateT Bytes (Except ε)

/-! ## Results -/

theorem ok_of_bind {x : Except ε α} {f : α → Except ε β} {b : β} (h : (x >>= f) = .ok b) :
    ∃ a, x = .ok a ∧ f a = .ok b := by
  cases x with
  | error e => cases h
  | ok a => exact ⟨a, rfl, h⟩

/-- The source's `if c { return Err(e) }`. -/
theorem ok_of_guard {c : Prop} [Decidable c] {e : ε} {x : Except ε β} {b : β}
    (h : (if c then .error e else x) = .ok b) : ¬ c ∧ x = .ok b := by
  by_cases hc : c
  · rw [if_pos hc] at h
    cases h
  · rw [if_neg hc] at h
    exact ⟨hc, h⟩

theorem bind_of_ok {x : Except ε α} {f : α → Except ε β} {a : α} (h : x = .ok a) :
    (x >>= f) = f a := by
  rw [h]
  rfl

/-! ## Taking an answer apart -/

section

variable {r : Decoder ε α} {f : α → Decoder ε β} {s s' s'' : Bytes} {a : α} {b : β}

theorem decoder_bind (h : r s = .ok (a, s')) : (r >>= f) s = f a s' := by
  show StateT.bind r f s = _
  rw [StateT.bind, h]
  rfl

theorem decoder_bind_error {e : ε} (h : r s = .error e) : (r >>= f) s = .error e := by
  show StateT.bind r f s = _
  rw [StateT.bind, h]
  rfl

theorem decoder_bind_inv (h : (r >>= f) s = .ok (b, s'')) :
    ∃ a s', r s = .ok (a, s') ∧ f a s' = .ok (b, s'') := by
  cases hr : r s with
  | error e =>
      rw [decoder_bind_error hr] at h
      cases h
  | ok p =>
      rw [decoder_bind hr] at h
      exact ⟨p.1, p.2, rfl, h⟩

theorem decoder_map_inv {g : α → β} (h : (g <$> r) s = .ok (b, s')) :
    ∃ a, r s = .ok (a, s') ∧ b = g a := by
  change StateT.map g r s = _ at h
  cases hr : r s with
  | error e =>
      rw [StateT.map, hr] at h
      cases h
  | ok p =>
      rw [StateT.map, hr] at h
      cases h
      exact ⟨p.1, rfl, rfl⟩

theorem decoder_guard_inv {c : Prop} [Decidable c] {e : ε}
    (h : (if c then StateT.lift (.error e) else r) s = .ok (a, s')) :
    ¬ c ∧ r s = .ok (a, s') := by
  by_cases hc : c
  · rw [if_pos hc] at h
    cases h
  · rw [if_neg hc] at h
    exact ⟨hc, h⟩

theorem decoder_lift_inv {x : Except ε α} (h : (liftM x : Decoder ε α) s = .ok (a, s')) :
    x = .ok a ∧ s' = s := by
  cases x with
  | error e => cases h
  | ok b =>
      cases h
      exact ⟨rfl, rfl⟩

end

/-! ## Reading what was written -/

/-- The reader takes the bytes for the value, whatever follows them. -/
def Reads (r : Decoder ε α) (bytes : Bytes) (a : α) : Prop :=
  ∀ rest, r (bytes ++ rest) = .ok (a, rest)

namespace Reads

variable {r : Decoder ε α} {f : α → Decoder ε β} {x y : Bytes} {a : α} {b : β}

theorem pure (a : α) : Reads (Pure.pure a : Decoder ε α) [] a := fun _ => rfl

theorem bind (h : Reads r x a) (hf : Reads (f a) y b) : Reads (r >>= f) (x ++ y) b := by
  intro rest
  rw [List.append_assoc, decoder_bind (h _)]
  exact hf rest

/-- The last step of a reader. -/
theorem last (h : Reads r x a) (hf : Reads (f a) [] b) : Reads (r >>= f) x b := by
  have hbind := h.bind hf
  rwa [List.append_nil] at hbind

theorem map {g : α → β} (h : Reads r x a) : Reads (g <$> r) x (g a) := by
  intro rest
  show StateT.map g r _ = _
  rw [StateT.map, h rest]
  rfl

theorem guard {c : Prop} [Decidable c] {e : ε} (hc : ¬ c) (h : Reads r x a) :
    Reads (if c then StateT.lift (.error e) else r) x a := by
  rwa [if_neg hc]

theorem lift {e : Except ε α} (h : e = .ok a) : Reads (liftM e : Decoder ε α) [] a := by
  intro rest
  subst h
  rfl

theorem cast (h : Reads r x a) (hxy : y = x) : Reads r y a := hxy ▸ h

/-- A reader that is followed by the end of the bytes. -/
theorem whole (h : Reads r x a) : r x = .ok (a, []) := by
  have hrun := h []
  rwa [List.append_nil] at hrun

end Reads

/-! ## What an answer was read from -/

/-- Whatever the reader answers, it has taken some bytes off the front for it
that stand in the relation to the answer. -/
def Takes (r : Decoder ε α) (P : Bytes → α → Prop) : Prop :=
  ∀ s a s', r s = .ok (a, s') → ∃ used, s = used ++ s' ∧ P used a

namespace Takes

variable {r : Decoder ε α} {f : α → Decoder ε β} {P : Bytes → α → Prop} {Q : Bytes → β → Prop}

theorem pure {a : α} (h : P [] a) : Takes (Pure.pure a : Decoder ε α) P := by
  intro s b s' hs
  cases hs
  exact ⟨[], rfl, h⟩

theorem mono {P' : Bytes → α → Prop} (h : Takes r P') (hP : ∀ used a, P' used a → P used a) :
    Takes r P := by
  intro s a s' hs
  obtain ⟨used, hused, ha⟩ := h s a s' hs
  exact ⟨used, hused, hP used a ha⟩

/-- One step of a reader; what follows knows what the step has taken. -/
theorem bind (h : Takes r P)
    (hf : ∀ a used, P used a → Takes (f a) fun more b => Q (used ++ more) b) :
    Takes (r >>= f) Q := by
  intro s b s'' hs
  obtain ⟨a, s', hr, hrest⟩ := decoder_bind_inv hs
  obtain ⟨used, rfl, ha⟩ := h s a s' hr
  obtain ⟨more, rfl, hb⟩ := hf a used ha s' b s'' hrest
  exact ⟨used ++ more, (List.append_assoc ..).symm, hb⟩

/-- A field that is written in only one way. -/
theorem field {w : α → Bytes} (h : Takes r fun used a => used = w a)
    (hf : ∀ a, Takes (f a) fun more b => Q (w a ++ more) b) : Takes (r >>= f) Q :=
  h.bind fun a _ hused => hused ▸ hf a

theorem throw {e : ε} : Takes (StateT.lift (.error e) : Decoder ε α) P := by
  intro s a s' hs
  cases hs

theorem map {g : α → β} (h : Takes r fun used a => Q used (g a)) : Takes (g <$> r) Q := by
  intro s b s' hs
  obtain ⟨a, hr, rfl⟩ := decoder_map_inv hs
  exact h s a s' hr

theorem guard {c : Prop} [Decidable c] {e : ε} (h : ¬ c → Takes r P) :
    Takes (if c then StateT.lift (.error e) else r) P := by
  intro s a s' hs
  obtain ⟨hc, hs⟩ := decoder_guard_inv hs
  exact h hc s a s' hs

theorem lift (x : Except ε α) :
    Takes (liftM x : Decoder ε α) fun used a => used = [] ∧ x = .ok a := by
  intro s a s' hs
  obtain ⟨hx, rfl⟩ := decoder_lift_inv hs
  exact ⟨[], rfl, rfl, hx⟩

end Takes

/-! ## Bytes as they are -/

/-- The next `n` bytes. -/
def exactly (n : Nat) (e : ε) : Decoder ε Bytes := fun input =>
  if n ≤ input.length then .ok (input.take n, input.drop n) else .error e

theorem exactly_reads {n : Nat} {e : ε} {x : Bytes} (h : x.length = n) :
    Reads (exactly n e) x x := by
  intro rest
  subst h
  simp [exactly]

theorem exactly_takes (n : Nat) (e : ε) :
    Takes (exactly n e) fun used x => used = x ∧ x.length = n := by
  intro s x s' h
  unfold exactly at h
  split at h
  · next hn =>
      cases h
      exact ⟨_, (List.take_append_drop n s).symm, rfl, by simp [hn]⟩
  · cases h

/-! ## The end of the bytes -/

/-- Refuses bytes that are left over. -/
def atEnd (e : ε) : Decoder ε Unit := fun rest => if rest = [] then .ok ((), []) else .error e

theorem Reads.finish {r : Decoder ε α} {x : Bytes} {a : α} (h : Reads r x a) (e : ε) :
    (r >>= fun a => atEnd e >>= fun _ => Pure.pure a) x = .ok (a, []) := by
  rw [decoder_bind h.whole]
  rfl

theorem Takes.finish {r : Decoder ε α} {P : Bytes → α → Prop} {e : ε} {s s' : Bytes} {a : α}
    (h : Takes r P) (hs : (r >>= fun a => atEnd e >>= fun _ => Pure.pure a) s = .ok (a, s')) :
    P s a := by
  obtain ⟨b, rest, hr, hrest⟩ := decoder_bind_inv hs
  obtain ⟨used, rfl, hb⟩ := h _ _ _ hr
  obtain ⟨_, more, hend, hpure⟩ := decoder_bind_inv hrest
  cases hpure
  unfold atEnd at hend
  split at hend
  · next hempty =>
      subst hempty
      rwa [List.append_nil]
  · cases hend

/-! ## Looking no further -/

/-- An answer was read off the bytes that were taken for it, whatever follows
them. -/
def Local (r : Decoder ε α) : Prop := Takes r (Reads r)

namespace Local

variable {r r' : Decoder ε α} {f : α → Decoder ε β}

theorem pure (a : α) : Local (Pure.pure a : Decoder ε α) := Takes.pure (Reads.pure a)

theorem throw {e : ε} : Local (StateT.lift (.error e) : Decoder ε α) := Takes.throw

theorem bind (h : Local r) (hf : ∀ a, Local (f a)) : Local (r >>= f) :=
  Takes.bind h fun a _ hr => (hf a).mono fun _ _ hmore => hr.bind hmore

theorem ite {c : Prop} [Decidable c] (h : Local r) (h' : Local r') :
    Local (if c then r else r') := by
  split
  · exact h
  · exact h'

/-- Bytes that were read to their end are read whatever follows. -/
theorem reads {s : Bytes} {a : α} (h : Local r) (hs : r s = .ok (a, [])) : Reads r s a := by
  obtain ⟨used, hused, hr⟩ := h s a [] hs
  rw [List.append_nil] at hused
  exact hused ▸ hr

/-- Of two inputs that are read to their ends none continues the other. -/
theorem no_more {x y : Bytes} {a b : α} (h : Local r) (hx : r x = .ok (a, []))
    (hxy : r (x ++ y) = .ok (b, [])) : y = [] := by
  rw [h.reads hx y] at hxy
  exact (Prod.mk.inj (Except.ok.inj hxy)).2

end Local

theorem exactly_local (n : Nat) (e : ε) : Local (exactly n e) := by
  refine (exactly_takes n e).mono fun used x h => ?_
  rw [h.1]
  exact exactly_reads h.2

/-! ## The errors of a reader -/

/-- Whatever the bytes, an error is one of these. -/
def FailsOnly (P : ε → Prop) (r : Decoder ε α) : Prop :=
  ∀ s e, r s = .error e → P e

namespace FailsOnly

variable {P : ε → Prop} {r : Decoder ε α} {f : α → Decoder ε β}

theorem pure (a : α) : FailsOnly P (Pure.pure a : Decoder ε α) := by
  intro s e h
  cases h

theorem error {e : ε} (h : P e) : FailsOnly P (StateT.lift (.error e) : Decoder ε α) := by
  intro s e' he
  cases he
  exact h

theorem bind (h : FailsOnly P r) (hf : ∀ a, FailsOnly P (f a)) : FailsOnly P (r >>= f) := by
  intro s e he
  cases hr : r s with
  | error e' =>
      rw [decoder_bind_error hr] at he
      cases he
      exact h s e hr
  | ok p =>
      rw [decoder_bind hr] at he
      exact hf p.1 p.2 e he

theorem map {g : α → β} (h : FailsOnly P r) : FailsOnly P (g <$> r) := by
  intro s e he
  change StateT.map g r s = _ at he
  cases hr : r s with
  | error e' =>
      rw [StateT.map, hr] at he
      cases he
      exact h s e hr
  | ok p =>
      rw [StateT.map, hr] at he
      cases he

theorem guard {c : Prop} [Decidable c] {e : ε} (he : P e) (h : FailsOnly P r) :
    FailsOnly P (if c then StateT.lift (.error e) else r) := by
  split
  · exact error he
  · exact h

theorem lift {x : Except ε α} (h : ∀ e, x = .error e → P e) :
    FailsOnly P (liftM x : Decoder ε α) := by
  intro s e he
  cases x with
  | error e' =>
      cases he
      exact h e rfl
  | ok a => cases he

end FailsOnly

end DartUdp.Lib
