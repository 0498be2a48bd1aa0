import Mathlib.Algebra.Group.Int.Defs
import Mathlib.Algebra.Group.Nat.Defs
import Mathlib.Tactic.SplitIfs

/-!
# Points in time

The times of the standard library are seconds and nanoseconds, with the seconds a signed number of
64 bits. Here a time is the number of its nanoseconds, an integer, and adding a duration fails when
the sum is past the last time that can be represented.

* `checkedAdd t d` is `checked_add`; `checkedAdd_of_le`: with a duration that can be added every
  shorter one can be added as well.
* `sleepUntil now deadline` is the timer for a deadline, if it has not passed.
-/

namespace Muak.Clock

/-- A number of seconds, in nanoseconds. -/
def secs (n : ℕ) : ℕ := n * 10 ^ 9

/-- The first time that cannot be represented. -/
def limit : ℤ := 2 ^ 63 * 10 ^ 9

def checkedAdd (t : ℤ) (d : ℕ) : Option ℤ := if t + d < limit then some (t + d) else none

/-- The timer for a deadline: none when it has passed. -/
def sleepUntil (now deadline : ℤ) : Option ℤ := if now ≤ deadline then some deadline else none

variable {t now deadline : ℤ} {d : ℕ}

theorem checkedAdd_of_lt (h : t + d < limit) : checkedAdd t d = some (t + d) := if_pos h

theorem checkedAdd_of_le {e : ℕ} (h : t + d < limit) (hle : e ≤ d) :
    checkedAdd t e = some (t + e) :=
  checkedAdd_of_lt (by omega)

theorem sleepUntil_eq_some_iff {u : ℤ} :
    sleepUntil now deadline = some u ↔ now ≤ deadline ∧ deadline = u := by
  rw [sleepUntil, Option.ite_none_right_eq_some, Option.some.injEq]

end Muak.Clock
