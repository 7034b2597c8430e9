import Mathlib.Algebra.Group.Nat.Defs

/-!
# Arithmetic that leaves no range

A `u64` is the number it stands for.  A sum or difference that is no `u64` is none: a build with checks
panics there, and a release build wraps around.
-/

namespace Awman.CheckedSums

/-- The sum, if it is in the range of a `u64`. -/
def checkedAdd (first second : Nat) : Option Nat :=
  if first + second < 2 ^ 64 then some (first + second) else none

/-- The difference, if there is one. -/
def checkedSub (first second : Nat) : Option Nat :=
  if second ≤ first then some (first - second) else none

/-- The sum, or the largest `u64`. -/
def saturatingAdd (first second : Nat) : Nat := min (first + second) (2 ^ 64 - 1)

variable {first second result : Nat}

theorem checkedAdd_eq_some :
    checkedAdd first second = some result ↔ first + second < 2 ^ 64 ∧ first + second = result := by
  unfold checkedAdd
  split
  case isTrue hrange => rw [Option.some.injEq, and_iff_right hrange]
  case isFalse hrange => exact iff_of_false (by simp) fun hboth => hrange hboth.1

theorem checkedSub_eq_some :
    checkedSub first second = some result ↔ second ≤ first ∧ first - second = result := by
  unfold checkedSub
  split
  case isTrue hrange => rw [Option.some.injEq, and_iff_right hrange]
  case isFalse hrange => exact iff_of_false (by simp) fun hboth => hrange hboth.1

end Awman.CheckedSums
