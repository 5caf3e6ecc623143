import Mathlib.Algebra.Group.Nat.Defs
import Mathlib.Tactic.Common

/-!
# Machine integers as bounded naturals

The counters, offsets and clocks of the program are unsigned machine integers.
They are modelled as naturals, and the operations whose behaviour depends on
the width say so: a checked operation answers `none` where the machine one
would leave the range, and a saturating one stops at the largest value.
-/

namespace DartUdp.Lib

/-- The largest value of a `u64`, and of a `usize` on the 64-bit targets. -/
def u64Max : Nat := 2 ^ 64 - 1

/-- The largest value of a `u32`. -/
def u32Max : Nat := 2 ^ 32 - 1

/-- `u64::checked_add`. -/
def checkedAdd (a b : Nat) : Option Nat :=
  if a + b ≤ u64Max then some (a + b) else none

/-- `u64::checked_mul`. -/
def checkedMul (a b : Nat) : Option Nat :=
  if a * b ≤ u64Max then some (a * b) else none

/-- `u64::saturating_add`. -/
def saturatingAdd (a b : Nat) : Nat := min (a + b) u64Max

/-- `u64::saturating_mul`. -/
def saturatingMul (a b : Nat) : Nat := min (a * b) u64Max

/-- `Duration::MAX` in nanoseconds. -/
def durationMax : Nat := u64Max * 1000000000 + 999999999

theorem checkedAdd_eq_some {a b c : Nat} :
    checkedAdd a b = some c ↔ a + b ≤ u64Max ∧ c = a + b := by
  unfold checkedAdd
  split
  · next h => simp [h, eq_comm]
  · next h => simp [h]

theorem checkedMul_eq_some {a b c : Nat} :
    checkedMul a b = some c ↔ a * b ≤ u64Max ∧ c = a * b := by
  unfold checkedMul
  split
  · next h => simp [h, eq_comm]
  · next h => simp [h]

theorem saturatingAdd_le (a b : Nat) : saturatingAdd a b ≤ a + b :=
  Nat.min_le_left _ _

theorem saturatingAdd_of_le {a b : Nat} (h : a + b ≤ u64Max) :
    saturatingAdd a b = a + b := Nat.min_eq_left h

end DartUdp.Lib
