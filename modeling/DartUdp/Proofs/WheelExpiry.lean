import DartUdp.Proofs.WheelIntact

/-!
# The order of expiry

Going tick by tick, an advance expires timers in the order of their deadlines:
what a tick expires is due at that tick. A fast forward settles the timers as
the slot map enumerates them, which is in the order of the deadlines only if the
due ones happen to be enumerated so.

This is `expiry_order`. It is read off `advanceAlong_ok`, which has the order from
the two ways to advance.
-/

namespace DartUdp.TimeWheel

open DartUdp.Lib

variable {T : Type}

/-- For every configuration `build` answers, every wheel operations reach and
every order in which the slot map enumerates its keys: a successful advance
expires timers in the order of their deadlines exactly if it is short enough to
go tick by tick, or the slot map enumerates those that are due in that order. -/
theorem expiry_order {b : WheelConfigBuilder} {cfg : WheelConfig} {w w' : Wheel T}
    {keys : List Nat} {elapsed : Nat} {expired grown : List (Expired T)} {report : AdvanceReport}
    (h : b.build = .ok cfg) (hw : Reached cfg w) (henum : Enumerates w keys)
    (hrun : advanceAlong keys elapsed expired w = .ok (report, grown) w') :
    ∃ xs, grown = expired ++ xs ∧
      (InOrder xs ↔
        (w.remainderNanos + elapsed) / w.baseTickNanos ≤ smallAdvanceLimit ∨
        InOrder (keys.filterMap
          (w.dueAt (w.currentTick + (w.remainderNanos + elapsed) / w.baseTickNanos)))) := by
  obtain ⟨⟨m, hm⟩, _⟩ := hw.shows h
  by_cases hrem : w.remainderNanos + elapsed ≤ u64Max
  · by_cases htick : w.currentTick + (w.remainderNanos + elapsed) / w.baseTickNanos ≤ u64Max
    · obtain ⟨w₁, xs, report₁, hok, _, _, horder⟩ :=
        advanceAlong_ok expired hm.sound henum hrem htick
      cases hrun.symm.trans hok
      refine ⟨xs, rfl, ?_⟩
      split at horder
      · next hfast =>
          rw [horder]
          exact ⟨.inr, fun h => h.resolve_left (Nat.not_le.2 hfast)⟩
      · next hslow => exact ⟨fun _ => .inl (Nat.not_lt.1 hslow), fun _ => horder⟩
    · cases hrun.symm.trans (advanceAlong_late keys expired hrem htick)
  · cases hrun.symm.trans (advanceAlong_long keys expired hrem)

/-- Two levels of four slots and a tick of 10 ms. -/
def lateConfig : WheelConfig := ⟨10000000, 10000000, [⟨1, 4, 4, 3⟩, ⟨4, 16, 4, 3⟩], 8⟩

/-- Timers of 50 s and 10 s, set in this order. -/
def lateWheel : Wheel Char :=
  (((Wheel.new lateConfig .byAge).step (.insert 'a' 50000000000)).2.step
    (.insert 'b' 10000000000)).2

theorem lateWheel_reached : Reached lateConfig lateWheel :=
  .step (.insert 'b' 10000000000) (.step (.insert 'a' 50000000000) (.new _))

/-- Ten seconds go tick by tick. -/
theorem expiry_order_tick_by_tick :
    WheelConfigBuilder.build ⟨10000000, [4, 4]⟩ = .ok lateConfig ∧
      (answer (advanceAlong [0, 1] 10000000000 []) lateWheel).isSome ∧
      ∀ report grown w', advanceAlong [0, 1] 10000000000 [] lateWheel = .ok (report, grown) w' →
        ∃ xs, grown = [] ++ xs ∧ InOrder xs := by
  have henum : Enumerates lateWheel [0, 1] := by
    have hkeys : lateWheel.tasks.keys = [0, 1] := by decide +kernel
    exact hkeys ▸ enumerates_keys lateWheel
  refine ⟨rfl, by decide +kernel, fun report grown w' hrun => ?_⟩
  obtain ⟨xs, hgrown, horder⟩ :=
    expiry_order (b := ⟨10000000, [4, 4]⟩) rfl lateWheel_reached henum hrun
  exact ⟨xs, hgrown, horder.2 (.inl (by decide +kernel))⟩

/-- One advance of 100 s reports the timer of 50 s before that of 10 s. -/
theorem fastForward_out_of_order :
    Reached lateConfig lateWheel ∧
      answer (advanceBy 100000000000 []) lateWheel =
        some (⟨10000, 2, true⟩, [⟨0, 'a', 5000⟩, ⟨1, 'b', 1000⟩]) ∧
      ¬ InOrder [(⟨0, 'a', 5000⟩ : Expired Char), ⟨1, 'b', 1000⟩] :=
  ⟨lateWheel_reached, by decide +kernel, by unfold InOrder; decide⟩

end DartUdp.TimeWheel
