import DartUdp.Lib.Machine

/-!
# The timing wheel's configuration

A wheel is described by its base tick and by the slot counts of its levels,
from the finest to the coarsest. Building a configuration derives the rest:
a slot of the lowest level is one tick wide, and a slot of every further level
is as wide as the whole level below it.

A `Duration` is a natural number of nanoseconds throughout.
-/

namespace DartUdp.TimeWheel

open DartUdp.Lib

inductive ConfigError where
  | zeroTick
  | tickRangeOverflow
  | invalidLevelCount (count max : Nat)
  | invalidSlotCount (level slotCount : Nat)
  | slotBudgetExceeded (totalSlots max : Nat)
  | derivedRangeOverflow (level : Nat)
deriving DecidableEq, Repr

def defaultBaseTick : Nat := 10000000

def maxLevels : Nat := 8

def maxLevelSlots : Nat := 2 ^ 16

def maxTotalSlots : Nat := 300000

/-- One level's derived parameters. -/
structure LevelConfig where
  unitTicks : Nat
  spanTicks : Nat
  slotCount : Nat
  mask : Nat
deriving DecidableEq, Repr

structure WheelConfig where
  baseTick : Nat
  baseTickNanos : Nat
  levels : List LevelConfig
  totalSlots : Nat
deriving DecidableEq, Repr

structure WheelConfigBuilder where
  baseTick : Nat := defaultBaseTick
  levels : List Nat := []
deriving DecidableEq, Repr

/-- `usize::is_power_of_two`. -/
def isPowerOfTwo (n : Nat) : Bool := n == 2 ^ n.log2

/-- The loop over the levels in `WheelConfigBuilder::build`: `level` is the
index of the first of the remaining slot counts, `totalSlots` and `unitTicks`
are the loop's accumulators. -/
def deriveLevels (level totalSlots unitTicks : Nat) :
    List Nat → Except ConfigError (List LevelConfig × Nat)
  | [] => .ok ([], totalSlots)
  | slotCount :: rest =>
      if slotCount < 2 || !isPowerOfTwo slotCount || slotCount > maxLevelSlots then
        .error (.invalidSlotCount level slotCount)
      else
        match checkedAdd totalSlots slotCount with
        | none => .error (.slotBudgetExceeded u64Max maxTotalSlots)
        | some totalSlots =>
            if totalSlots > maxTotalSlots then
              .error (.slotBudgetExceeded totalSlots maxTotalSlots)
            else
              match checkedMul unitTicks slotCount with
              | none => .error (.derivedRangeOverflow level)
              | some spanTicks =>
                  match deriveLevels (level + 1) totalSlots spanTicks rest with
                  | .error e => .error e
                  | .ok (derived, total) =>
                      .ok (⟨unitTicks, spanTicks, slotCount, slotCount - 1⟩ :: derived, total)

namespace WheelConfigBuilder

/-- `WheelConfigBuilder::level_slots`. -/
def levelSlots (b : WheelConfigBuilder) (slots : Nat) : WheelConfigBuilder :=
  { b with levels := b.levels ++ [slots] }

/-- `WheelConfigBuilder::build`. -/
def build (b : WheelConfigBuilder) : Except ConfigError WheelConfig :=
  if b.baseTick > u64Max then .error .tickRangeOverflow
  else if b.baseTick = 0 then .error .zeroTick
  else if b.levels.isEmpty || b.levels.length > maxLevels then
    .error (.invalidLevelCount b.levels.length maxLevels)
  else
    match deriveLevels 0 0 1 b.levels with
    | .error e => .error e
    | .ok (derived, totalSlots) => .ok ⟨b.baseTick, b.baseTick, derived, totalSlots⟩

end WheelConfigBuilder

end DartUdp.TimeWheel
