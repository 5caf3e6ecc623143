import DartUdp.Proofs.WheelRefines

/-!
# When a timer is reported

Every trace of the wheel is a trace of the timer map. What that means for one
timer can be read off the trace alone: from the event that sets it on, and as
long as no event cancels, clears or sets it again, it is reported by the first
successful advance that brings the clock to its tick, and by no other.

The module is for `wheel_refines_timerMap`. `allowed_elapsed` and `allowed_pending`
follow the clock and one timer through a stretch of a trace, by induction over its
events, and `allowed_reports` is the second half of the theorem.
-/

namespace DartUdp.TimeWheel

open DartUdp.Lib

variable {T : Type}

/-- The time a successful advance adds. -/
def gain : Op T × Reply T → Nat
  | (.advanceBy elapsed, .advanced (.ok _)) => elapsed
  | _ => 0

/-- The time the successful advances of a trace add up to. -/
def elapsedIn (evs : List (Op T × Reply T)) : Nat := (evs.map gain).sum

/-- The event sets the timer `id`, by inserting or rescheduling it. -/
def Sets (id delay : Nat) (ev : Op T × Reply T) : Prop :=
  (∃ item, ev = (.insert item delay, .inserted (.ok id))) ∨
    ev = (.reschedule id delay, .rescheduled (.ok ()))

/-- The event does not cancel, clear or set the timer `id`. -/
def Spares (id : Nat) : Op T × Reply T → Prop
  | (.reschedule k _, .rescheduled (.ok _)) => k ≠ id
  | (.cancel k, _) => k ≠ id
  | (.clear, _) => False
  | _ => True

/-- A timer set at `start` is due when the clock stands at `now`:
`⌊now / base⌋ ≥ ⌈(start + delay) / base⌉`, or it has no delay. -/
def DueBy (base start delay now : Nat) : Prop :=
  delay = 0 ∨ (start + delay + base - 1) / base ≤ now / base

theorem dueBy_iff {base start delay now : Nat} (h : start ≤ now) :
    DueBy base start delay now ↔ dueTick base start delay ≤ now / base := by
  unfold DueBy dueTick
  split
  · next h0 => simp [h0, Nat.div_le_div_right h]
  · next h0 => simp [h0]

/-- Some successful advance of `evs`, which starts at the time `start`, makes
`p` true of the clock. -/
def SomeAdvance (p : Nat → Prop) (start : Nat) (evs : List (Op T × Reply T)) : Prop :=
  ∃ evs₁ elapsed r evs₂, evs = evs₁ ++ (.advanceBy elapsed, .advanced (.ok r)) :: evs₂ ∧
    p (start + elapsedIn evs₁ + elapsed)

theorem elapsedIn_append (evs evs' : List (Op T × Reply T)) :
    elapsedIn (evs ++ evs') = elapsedIn evs + elapsedIn evs' := by simp [elapsedIn]

theorem elapsedIn_cons (ev : Op T × Reply T) (evs : List (Op T × Reply T)) :
    elapsedIn (ev :: evs) = gain ev + elapsedIn evs := by simp [elapsedIn]

/-! ## One event at the map -/

section Step

variable {base : Nat} {m m' : TimerMap T} {op : Op T} {reply : Reply T}

/-- A step that is not a successful advance, or a successful advance. -/
theorem allows_cases (h : m.Allows base op reply m') :
    (gain (op, reply) = 0 ∧ m'.elapsed = m.elapsed ∧
        ∀ k, k < m.next → Spares k (op, reply) → m'.timers k = m.timers k) ∧
      (∀ e r, (op, reply) ≠ (.advanceBy e, .advanced (.ok r))) ∨
    ∃ e report xs, (op, reply) = (.advanceBy e, .advanced (.ok (report, xs))) ∧
      (∀ x, x ∈ xs ↔ m.Expires base (m.elapsed + e) x) ∧
      m' = m.advanceTo base (m.elapsed + e) := by
  unfold TimerMap.Allows at h
  split at h
  · obtain ⟨_, rfl, rfl⟩ := h
    refine .inl ⟨⟨rfl, rfl, fun k hk _ => ?_⟩, by simp⟩
    simp only [TimerMap.put]
    rw [if_neg (by omega)]
  · obtain ⟨_, _, rfl⟩ := h
    exact .inl ⟨⟨rfl, rfl, fun _ _ _ => rfl⟩, by simp⟩
  · obtain ⟨t, _, _, rfl⟩ := h
    refine .inl ⟨⟨rfl, rfl, fun k _ hs => ?_⟩, by simp⟩
    simp only [TimerMap.put]
    rw [if_neg (Ne.symm hs)]
  · obtain ⟨rfl, _⟩ := h
    exact .inl ⟨⟨rfl, rfl, fun _ _ _ => rfl⟩, by simp⟩
  · obtain ⟨_, rfl⟩ := h
    refine .inl ⟨⟨rfl, rfl, fun k _ hs => ?_⟩, by simp⟩
    simp only [TimerMap.put]
    rw [if_neg (Ne.symm hs)]
  · obtain ⟨_, rfl⟩ := h
    exact .inl ⟨⟨rfl, rfl, fun k _ hs => hs.elim⟩, by simp⟩
  · obtain ⟨_, _, _, _, hmem, rfl⟩ := h
    exact .inr ⟨_, _, _, rfl, hmem, rfl⟩
  · obtain ⟨rfl, _⟩ := h
    exact .inl ⟨⟨rfl, rfl, fun _ _ _ => rfl⟩, by simp⟩
  · exact h.elim

theorem allows_elapsed (h : m.Allows base op reply m') :
    m'.elapsed = m.elapsed + gain (op, reply) := by
  rcases allows_cases h with ⟨⟨hg, he, _⟩, _⟩ | ⟨e, report, xs, heq, _, rfl⟩
  · omega
  · rw [heq]
    rfl

theorem allows_next (h : m.Allows base op reply m') :
    m.next ≤ m'.next ∧ ((∀ k, m.next ≤ k → m.timers k = none) →
      ∀ k, m'.next ≤ k → m'.timers k = none) := by
  unfold TimerMap.Allows at h
  split at h
  · obtain ⟨_, rfl, rfl⟩ := h
    refine ⟨Nat.le_succ _, fun hf k hk => ?_⟩
    have hk' : m.next + 1 ≤ k := hk
    simp only [TimerMap.put]
    rw [if_neg (by omega)]
    exact hf k (by omega)
  · obtain ⟨_, _, rfl⟩ := h
    exact ⟨Nat.le_refl _, id⟩
  · obtain ⟨t, ht, _, rfl⟩ := h
    refine ⟨Nat.le_refl _, fun hf k hk => ?_⟩
    simp only [TimerMap.put]
    split
    · next hki =>
        rw [← hki, hf k hk] at ht
        cases ht
    · exact hf k hk
  · obtain ⟨rfl, _⟩ := h
    exact ⟨Nat.le_refl _, id⟩
  · obtain ⟨_, rfl⟩ := h
    refine ⟨Nat.le_refl _, fun hf k hk => ?_⟩
    simp only [TimerMap.put]
    split
    · rfl
    · exact hf k hk
  · obtain ⟨_, rfl⟩ := h
    exact ⟨Nat.le_refl _, fun _ _ _ => rfl⟩
  · obtain ⟨_, _, _, _, _, rfl⟩ := h
    refine ⟨Nat.le_refl _, fun hf k hk => ?_⟩
    simp only [TimerMap.advanceTo, hf k hk]
    rfl
  · obtain ⟨rfl, _⟩ := h
    exact ⟨Nat.le_refl _, id⟩
  · exact h.elim

end Step

/-! ## A stretch of a trace -/

section Stretch

variable {base : Nat} {m m' : TimerMap T} {evs : List (Op T × Reply T)}

theorem allowed_elapsed (h : Allowed (TimerMap.Allows base) m evs m') :
    m'.elapsed = m.elapsed + elapsedIn evs := by
  induction h with
  | nil m => simp [elapsedIn]
  | cons hstep _ ih =>
      rw [ih, allows_elapsed hstep, elapsedIn_cons]
      omega

theorem allowed_fresh (h : Allowed (TimerMap.Allows base) m evs m') :
    (∀ k, m.next ≤ k → m.timers k = none) → ∀ k, m'.next ≤ k → m'.timers k = none := by
  induction h with
  | nil m => exact id
  | cons hstep _ ih => exact fun hf => ih ((allows_next hstep).2 hf)

/-- A timer that is gone stays gone: its id is not handed out again. -/
theorem allowed_gone {id : Nat} (h : Allowed (TimerMap.Allows base) m evs m')
    (hs : ∀ ev ∈ evs, Spares id ev) (hid : id < m.next) (hnone : m.timers id = none) :
    m'.timers id = none := by
  induction h with
  | nil m => exact hnone
  | cons hstep _ ih =>
      refine ih (fun ev hev => hs ev (by simp [hev]))
        (Nat.lt_of_lt_of_le hid (allows_next hstep).1) ?_
      rcases allows_cases hstep with ⟨⟨_, _, hk⟩, _⟩ | ⟨e, report, xs, _, _, rfl⟩
      · rw [hk id hid (hs _ (by simp))]
        exact hnone
      · simp only [TimerMap.advanceTo, hnone]
        rfl

/-- A pending timer is there until the first advance that makes it due. -/
theorem allowed_pending {id : Nat} {t : Timer T}
    (h : Allowed (TimerMap.Allows base) m evs m') (hs : ∀ ev ∈ evs, Spares id ev)
    (hid : id < m.next) (ht : m.timers id = some t) :
    (m'.timers id = some t ∧ ¬ SomeAdvance (t.due base ≤ · / base) m.elapsed evs) ∨
      (m'.timers id = none ∧ SomeAdvance (t.due base ≤ · / base) m.elapsed evs) := by
  induction h with
  | nil m =>
      refine .inl ⟨ht, ?_⟩
      rintro ⟨evs₁, e, r, evs₂, heq, _⟩
      simp at heq
  | @cons m m₁ m' op reply evs hstep hrest ih =>
      have hs' : ∀ ev ∈ evs, Spares id ev := fun ev hev => hs ev (by simp [hev])
      have hid' := Nat.lt_of_lt_of_le hid (allows_next hstep).1
      have helapsed := allows_elapsed hstep
      -- An advance after the first event is one of the rest.
      have hlater : SomeAdvance (t.due base ≤ · / base) m₁.elapsed evs →
          SomeAdvance (t.due base ≤ · / base) m.elapsed ((op, reply) :: evs) := by
        rintro ⟨evs₁, e, r, evs₂, rfl, hdue⟩
        refine ⟨(op, reply) :: evs₁, e, r, evs₂, rfl, ?_⟩
        rw [elapsedIn_cons, ← Nat.add_assoc, ← helapsed]
        exact hdue
      have hearlier : SomeAdvance (t.due base ≤ · / base) m.elapsed ((op, reply) :: evs) →
          (∃ e r, (op, reply) = (.advanceBy e, .advanced (.ok r)) ∧
            t.due base ≤ (m.elapsed + e) / base) ∨
          SomeAdvance (t.due base ≤ · / base) m₁.elapsed evs := by
        rintro ⟨evs₁, e, r, evs₂, heq, hdue⟩
        cases evs₁ with
        | nil =>
            obtain ⟨heq, _⟩ := List.cons.inj heq
            exact .inl ⟨e, r, heq, by simpa [elapsedIn] using hdue⟩
        | cons ev evs₁ =>
            obtain ⟨rfl, rfl⟩ := List.cons.inj heq
            refine .inr ⟨evs₁, e, r, evs₂, rfl, ?_⟩
            rw [elapsedIn_cons, ← Nat.add_assoc, ← helapsed] at hdue
            exact hdue
      rcases allows_cases hstep with ⟨⟨_, _, hk⟩, hnot⟩ | ⟨e, report, xs, heq, _, rfl⟩
      · have ht₁ : m₁.timers id = some t := by rw [hk id hid (hs _ (by simp))]; exact ht
        rcases ih hs' hid' ht₁ with ⟨h1, h2⟩ | ⟨h1, h2⟩
        · refine .inl ⟨h1, fun hx => ?_⟩
          rcases hearlier hx with ⟨e, r, heq, _⟩ | hx
          · exact hnot e r heq
          · exact h2 hx
        · exact .inr ⟨h1, hlater h2⟩
      · by_cases hdue : t.due base ≤ (m.elapsed + e) / base
        · refine .inr ⟨allowed_gone hrest hs' hid' ?_, [], e, (report, xs), evs, by rw [heq]; rfl,
            by simpa [elapsedIn] using hdue⟩
          simp [TimerMap.advanceTo, ht, Option.filter, Nat.not_lt.2 hdue]
        · have ht₁ : (m.advanceTo base (m.elapsed + e)).timers id = some t := by
            simp [TimerMap.advanceTo, ht, Option.filter, Nat.lt_of_not_le hdue]
          rcases ih hs' hid' ht₁ with ⟨h1, h2⟩ | ⟨h1, h2⟩
          · refine .inl ⟨h1, fun hx => ?_⟩
            rcases hearlier hx with ⟨e', r, heq', hdue'⟩ | hx
            · rw [heq] at heq'
              obtain ⟨rfl, _⟩ : e = e' ∧ _ := by simpa using heq'
              exact hdue hdue'
            · exact h2 hx
          · exact .inr ⟨h1, hlater h2⟩

end Stretch

/-! ## The wheel -/

/-- What an event that sets a timer leaves in the map. -/
theorem allows_sets {base id delay : Nat} {m m' : TimerMap T} {op : Op T} {reply : Reply T}
    (h : m.Allows base op reply m') (hset : Sets id delay (op, reply))
    (hfresh : ∀ k, m.next ≤ k → m.timers k = none) :
    id < m'.next ∧ m'.elapsed = m.elapsed ∧
      ∃ item, m'.timers id = some ⟨item, m.elapsed, delay⟩ := by
  rcases hset with ⟨item, heq⟩ | heq
  · obtain ⟨rfl, rfl⟩ := Prod.mk.inj heq
    obtain ⟨_, rfl, rfl⟩ := h
    exact ⟨Nat.lt_succ_self _, rfl, item, by simp [TimerMap.put]⟩
  · obtain ⟨rfl, rfl⟩ := Prod.mk.inj heq
    obtain ⟨t, ht, _, rfl⟩ := h
    refine ⟨?_, rfl, t.item, by simp [TimerMap.put]⟩
    by_contra hge
    rw [hfresh id (Nat.not_lt.1 hge)] at ht
    cases ht

/-- A timer map reports a timer in the first advance that makes it due. -/
theorem allowed_reports {base : Nat} {m : TimerMap T} {pre mid post : List (Op T × Reply T)}
    {ev : Op T × Reply T} {elapsed id delay : Nat} {report : AdvanceReport}
    {xs : List (Expired T)}
    (h : Allowed (TimerMap.Allows base) .empty
      (pre ++ ev :: (mid ++ (.advanceBy elapsed, .advanced (.ok (report, xs))) :: post)) m)
    (hset : Sets id delay ev) (hs : ∀ e ∈ mid, Spares id e) :
    (∃ x ∈ xs, x.id = id) ↔
      DueBy base (elapsedIn pre) delay (elapsedIn (pre ++ mid) + elapsed) ∧
        ¬ SomeAdvance (DueBy base (elapsedIn pre) delay) (elapsedIn pre) mid := by
  obtain ⟨m₀, hpre, hrest⟩ := h.append
  have he₀ : m₀.elapsed = elapsedIn pre := by
    rw [allowed_elapsed hpre]
    simp [TimerMap.empty]
  have hfresh := allowed_fresh hpre fun _ _ => rfl
  cases hrest with
  | cons hstep hrest =>
      obtain ⟨hid, he₁, item, ht⟩ := allows_sets hstep hset hfresh
      obtain ⟨m₂, hmid, hlast⟩ := hrest.append
      cases hlast with
      | cons hadv _ =>
          obtain ⟨_, _, _, _, hmem, _⟩ := hadv
          have he₂ : m₂.elapsed = elapsedIn pre + elapsedIn mid := by
            rw [allowed_elapsed hmid, he₁, he₀]
          rw [elapsedIn_append, dueBy_iff (by omega)]
          have hsome : SomeAdvance (DueBy base (elapsedIn pre) delay) (elapsedIn pre) mid ↔
              SomeAdvance (dueTick base (elapsedIn pre) delay ≤ · / base) (elapsedIn pre) mid := by
            unfold SomeAdvance
            constructor <;> rintro ⟨evs₁, e, r, evs₂, heq, hdue⟩
            · exact ⟨evs₁, e, r, evs₂, heq, (dueBy_iff (by omega)).1 hdue⟩
            · exact ⟨evs₁, e, r, evs₂, heq, (dueBy_iff (by omega)).2 hdue⟩
          rw [hsome]
          have hpend := allowed_pending hmid hs hid ht
          rw [he₁, he₀] at hpend
          simp only [Timer.due] at hpend
          constructor
          · rintro ⟨x, hx, rfl⟩
            obtain ⟨t, ht₂, hdue, _⟩ := (hmem x).1 hx
            rcases hpend with ⟨h1, h2⟩ | ⟨h1, _⟩
            · rw [h1] at ht₂
              obtain rfl := Option.some.inj ht₂
              rw [he₂] at hdue
              exact ⟨hdue, h2⟩
            · rw [h1] at ht₂
              cases ht₂
          · rintro ⟨hdue, hnot⟩
            rcases hpend with ⟨h1, _⟩ | ⟨_, h2⟩
            · exact ⟨⟨id, item, _⟩, (hmem _).2 ⟨_, h1, by rw [he₂]; exact hdue, rfl, rfl⟩, rfl⟩
            · exact absurd h2 hnot

/-- For every configuration `build` answers, every order the slot map may have and
every list of operations, the trace of the wheel is one of the timer map; and a timer
is reported by an advance exactly if that is the first successful one, from the event
that set the timer on, that makes it due. -/
theorem wheel_refines_timerMap {b : WheelConfigBuilder} {cfg : WheelConfig}
    (h : b.build = .ok cfg) (order : KeyOrder) (ops : List (Op T)) :
    (∃ m, Allowed (TimerMap.Allows cfg.baseTickNanos) .empty
      (trace Wheel.step (Wheel.new cfg order) ops) m) ∧
    ∀ pre ev mid elapsed report xs post id delay,
      trace Wheel.step (Wheel.new cfg order) ops =
        pre ++ ev :: (mid ++ (.advanceBy elapsed, .advanced (.ok (report, xs))) :: post) →
      Sets id delay ev → (∀ e ∈ mid, Spares id e) →
      ((∃ x ∈ xs, x.id = id) ↔
        DueBy cfg.baseTickNanos (elapsedIn pre) delay (elapsedIn (pre ++ mid) + elapsed) ∧
          ¬ SomeAdvance (DueBy cfg.baseTickNanos (elapsedIn pre) delay) (elapsedIn pre) mid) := by
  obtain ⟨m, hm⟩ := allowed_trace (fun _ _ op hshow => step_shows hshow op) ops (shows_new order h)
  refine ⟨⟨m, hm⟩, ?_⟩
  intro pre ev mid elapsed report xs post id delay htrace hset hs
  rw [htrace] at hm
  exact allowed_reports hm hset hs

/-- Two levels of two slots and a tick of 10 ns: a timer of 25 ns is not
reported after 29 ns, and is after 30. -/
theorem wheel_refines_timerMap_small :
    (WheelConfigBuilder.build ⟨10, [2, 2]⟩ = .ok ⟨10, 10, [⟨1, 2, 2, 1⟩, ⟨2, 4, 2, 1⟩], 4⟩) ∧
      ∃ m, Allowed (TimerMap.Allows 10) .empty
        [(.insert 'a' 25, .inserted (.ok 0)), (.advanceBy 29, .advanced (.ok (⟨2, 0, false⟩, []))),
          (.advanceBy 1, .advanced (.ok (⟨1, 1, false⟩, [⟨0, 'a', 3⟩])))] m :=
  ⟨rfl, (wheel_refines_timerMap (b := ⟨10, [2, 2]⟩) rfl
    .byAge [.insert 'a' 25, .advanceBy 29, .advanceBy 1]).1⟩

end DartUdp.TimeWheel
