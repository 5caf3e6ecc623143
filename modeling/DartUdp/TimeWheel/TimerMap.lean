import DartUdp.Lib.Refine
import DartUdp.TimeWheel.Wheel

/-!
# What a timer wheel is for

A timer map knows the total time that has passed and, for each pending timer,
when it was set and with which delay. It has no ticks of its own: a timer is
due once the clock, rounded down to a whole tick, has reached its time of
expiry, rounded up to a whole tick. A successful advance hands out the due
timers, in any order, and forgets them.

The wheel answers the same operations, and `Wheel.step` is its side of the
comparison.
-/

namespace DartUdp.TimeWheel

open DartUdp.Lib

inductive Op (T : Type) where
  | insert (item : T) (delay : Nat)
  | reschedule (id delay : Nat)
  | cancel (id : Nat)
  | clear
  | advanceBy (elapsed : Nat)

inductive Reply (T : Type) where
  | inserted (id : Except TimerError Nat)
  | rescheduled (done : Except TimerError Unit)
  | cancelled (item : Option T)
  | cleared (items : List T)
  | advanced (expired : Except TimerError (AdvanceReport × List (Expired T)))

variable {T : Type}

/-- The outcome of a method, without the state it leaves. -/
def outcome {ε σ α : Type} : EStateM.Result ε σ α → Except ε α × σ
  | .ok a s => (.ok a, s)
  | .error e s => (.error e, s)

/-- The wheel as a machine. `advance_by` appends to an empty list here. -/
def Wheel.step (w : Wheel T) : Op T → Reply T × Wheel T
  | .insert item delay =>
      let r := outcome (TimeWheel.insert item delay w)
      (.inserted r.1, r.2)
  | .reschedule id delay =>
      let r := outcome (TimeWheel.reschedule id delay w)
      (.rescheduled r.1, r.2)
  | .cancel id =>
      let r := outcome (TimeWheel.cancel id w)
      (.cancelled (r.1.toOption.join), r.2)
  | .clear =>
      let r := w.clear
      (.cleared r.1, r.2)
  | .advanceBy elapsed =>
      let r := outcome (TimeWheel.advanceBy elapsed [] w)
      (.advanced r.1, r.2)

/-! ## The timer map -/

/-- A pending timer: set at the time `start` to go off after `delay`. -/
structure Timer (T : Type) where
  item : T
  start : Nat
  delay : Nat

/-- `⌈(start + delay) / base⌉`; without a delay, the tick it was set in. -/
def dueTick (base start delay : Nat) : Nat :=
  if delay = 0 then start / base else (start + delay + base - 1) / base

def Timer.due (base : Nat) (t : Timer T) : Nat := dueTick base t.start t.delay

structure TimerMap (T : Type) where
  elapsed : Nat
  timers : Nat → Option (Timer T)
  next : Nat

namespace TimerMap

def empty : TimerMap T := ⟨0, fun _ => none, 0⟩

/-- Set `id` to `timer`, or drop it. -/
def put (m : TimerMap T) (id : Nat) (timer : Option (Timer T)) : TimerMap T :=
  { m with timers := fun k => if k = id then timer else m.timers k }

/-- `xs` are the items of all pending timers. -/
def Items (m : TimerMap T) (xs : List T) : Prop :=
  ∃ ids : List Nat, ids.Nodup ∧ (∀ k, k ∈ ids ↔ (m.timers k).isSome) ∧
    xs = ids.filterMap fun k => (m.timers k).map (·.item)

/-- Which of the due timers are pending when the clock stands at `now`. -/
def Expires (base now : Nat) (m : TimerMap T) (x : Expired T) : Prop :=
  ∃ t, m.timers x.id = some t ∧ t.due base ≤ now / base ∧
    x.item = t.item ∧ x.deadlineTick = t.due base

/-- The clock at `now`, without the timers due by then. -/
def advanceTo (base now : Nat) (m : TimerMap T) : TimerMap T :=
  { m with
    elapsed := now
    timers := fun k => (m.timers k).filter fun t => now / base < t.due base }

/-- The replies a timer map allows, with the map they leave. Its ticks and the
remainders of its advances are 64-bit numbers. -/
def Allows (base : Nat) (m : TimerMap T) : Op T → Reply T → TimerMap T → Prop
  | .insert item delay, .inserted (.ok id), m' =>
      dueTick base m.elapsed delay ≤ u64Max ∧ id = m.next ∧
        m' = { m.put id (some ⟨item, m.elapsed, delay⟩) with next := m.next + 1 }
  | .insert _ delay, .inserted (.error error), m' =>
      u64Max < dueTick base m.elapsed delay ∧ error = .delayOverflow ∧ m' = m
  | .reschedule id delay, .rescheduled (.ok _), m' =>
      ∃ t, m.timers id = some t ∧ dueTick base m.elapsed delay ≤ u64Max ∧
        m' = m.put id (some ⟨t.item, m.elapsed, delay⟩)
  | .reschedule id delay, .rescheduled (.error error), m' =>
      m' = m ∧ ((m.timers id = none ∧ error = .staleTimerId) ∨
        ((m.timers id).isSome ∧ u64Max < dueTick base m.elapsed delay ∧
          error = .delayOverflow))
  | .cancel id, .cancelled item, m' =>
      item = (m.timers id).map (·.item) ∧ m' = m.put id none
  | .clear, .cleared items, m' =>
      m.Items items ∧ m' = { m with timers := fun _ => none }
  | .advanceBy elapsed, .advanced (.ok (report, expired)), m' =>
      m.elapsed % base + elapsed ≤ u64Max ∧ (m.elapsed + elapsed) / base ≤ u64Max ∧
        report.expiredCount = expired.length ∧ (expired.map (·.id)).Nodup ∧
        (∀ x, x ∈ expired ↔ m.Expires base (m.elapsed + elapsed) x) ∧
        m' = m.advanceTo base (m.elapsed + elapsed)
  | .advanceBy elapsed, .advanced (.error error), m' =>
      m' = m ∧ ((u64Max < m.elapsed % base + elapsed ∧ error = .elapsedOverflow) ∨
        (m.elapsed % base + elapsed ≤ u64Max ∧ u64Max < (m.elapsed + elapsed) / base ∧
          error = .clockOverflow))
  | _, _, _ => False

end TimerMap

end DartUdp.TimeWheel
