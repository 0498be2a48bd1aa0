import Mathlib.Algebra.Group.Nat.Defs
import Mathlib.Tactic.SplitIfs

/-!
# Words of 64 bits as natural numbers

The arithmetic of `u64` on numbers below `2^64`, for programs in which most of it is exact. Each
operation that is not has a lemma for the arguments on which it is.
-/

namespace Muak.U64

open Nat

def maxValue : ℕ := 2 ^ 64 - 1

def wrappingAdd (a b : ℕ) : ℕ := (a + b) % 2 ^ 64

def wrappingSub (a b : ℕ) : ℕ := (a + 2 ^ 64 - b) % 2 ^ 64

def wrappingMul (a b : ℕ) : ℕ := a * b % 2 ^ 64

def saturatingAdd (a b : ℕ) : ℕ := min (a + b) maxValue

def saturatingMul (a b : ℕ) : ℕ := min (a * b) maxValue

def checkedAdd (a b : ℕ) : Option ℕ := if a + b < 2 ^ 64 then some (a + b) else none

def checkedMul (a b : ℕ) : Option ℕ := if a * b < 2 ^ 64 then some (a * b) else none

/-- The quotient, rounded up. -/
def divCeil (a b : ℕ) : ℕ := (a + b - 1) / b

/-- `next_multiple_of`. Where the multiple does not fit, the sum wraps around. -/
def nextMultipleOf (a b : ℕ) : ℕ := if a % b = 0 then a else (a + (b - a % b)) % 2 ^ 64

variable {a b : ℕ}

theorem wrappingAdd_of_lt (h : a + b < 2 ^ 64) : wrappingAdd a b = a + b := mod_eq_of_lt h

theorem wrappingMul_of_lt (h : a * b < 2 ^ 64) : wrappingMul a b = a * b := mod_eq_of_lt h

theorem wrappingSub_of_le (hle : b ≤ a) (ha : a < 2 ^ 64) : wrappingSub a b = a - b := by
  unfold wrappingSub
  omega

theorem saturatingAdd_of_lt (h : a + b < 2 ^ 64) : saturatingAdd a b = a + b := by
  unfold saturatingAdd maxValue
  omega

theorem saturatingMul_of_lt (h : a * b < 2 ^ 64) : saturatingMul a b = a * b :=
  Nat.min_eq_left (by unfold maxValue; omega)

theorem checkedMul_of_lt (h : a * b < 2 ^ 64) : checkedMul a b = some (a * b) := if_pos h

theorem divCeil_mul (hb : 0 < b) : divCeil a b * b = if a % b = 0 then a else a + (b - a % b) := by
  have hd := div_add_mod' a b
  have hm := mod_lt a hb
  unfold divCeil
  split_ifs with hz
  · have hq : (a + b - 1) / b = a / b := by
      rw [Nat.div_eq_iff hb]
      omega
    rw [hq]
    omega
  · have hq : (a + b - 1) / b = a / b + 1 := by
      rw [Nat.div_eq_iff hb, Nat.add_mul]
      omega
    rw [hq, Nat.add_mul]
    omega

theorem le_divCeil_mul (hb : 0 < b) : a ≤ divCeil a b * b := by
  rw [divCeil_mul hb]
  split_ifs <;> omega

theorem divCeil_eq_zero_iff (hb : 0 < b) : divCeil a b = 0 ↔ a = 0 := by
  rw [divCeil, Nat.div_eq_zero_iff]
  omega

theorem nextMultipleOf_of_lt (hb : 0 < b) (h : a + b ≤ 2 ^ 64) :
    nextMultipleOf a b = divCeil a b * b := by
  rw [nextMultipleOf, divCeil_mul hb]
  split_ifs with hz
  · rfl
  · exact mod_eq_of_lt (by omega)

end Muak.U64
