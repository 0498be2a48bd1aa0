import Mathlib.Data.UInt
import Muak.Foundations.U64

/-!
# Saturating and checked arithmetic of 64-bit words

The arithmetic of `u64` that the modelled programs use, on `UInt64`. Every operation comes with an
equation for the number it denotes, so that goals about words become goals about natural numbers.
-/

namespace Muak.Word

open Nat

/-- `saturating_add`. -/
def satAdd (a b : UInt64) : UInt64 := UInt64.ofNat (min (a.toNat + b.toNat) (2 ^ 64 - 1))

/-- `saturating_sub`. -/
def satSub (a b : UInt64) : UInt64 := UInt64.ofNat (a.toNat - b.toNat)

/-- `saturating_mul`. -/
def satMul (a b : UInt64) : UInt64 := UInt64.ofNat (min (a.toNat * b.toNat) (2 ^ 64 - 1))

/-- `checked_add`. -/
def checkedAdd (a b : UInt64) : Option UInt64 :=
  if a.toNat + b.toNat < 2 ^ 64 then some (UInt64.ofNat (a.toNat + b.toNat)) else none

/-- `checked_sub`. -/
def checkedSub (a b : UInt64) : Option UInt64 :=
  if b ≤ a then some (UInt64.ofNat (a.toNat - b.toNat)) else none

/-- `checked_mul`. -/
def checkedMul (a b : UInt64) : Option UInt64 :=
  if a.toNat * b.toNat < 2 ^ 64 then some (UInt64.ofNat (a.toNat * b.toNat)) else none

/-- `div_ceil`: the quotient, rounded up. -/
def divCeil (a b : UInt64) : UInt64 :=
  if 0 < a % b then a / b + 1 else a / b

/-- `next_multiple_of`. Where the multiple does not fit, the sum wraps around. -/
def nextMultipleOf (a b : UInt64) : UInt64 :=
  if a % b = 0 then a else a + (b - a % b)

variable {a b c : UInt64}

@[simp] theorem toNat_satSub (a b : UInt64) : (satSub a b).toNat = a.toNat - b.toNat :=
  UInt64.toNat_ofNat_of_lt' (by have := a.toNat_lt; simp only [UInt64.size]; omega)

@[simp] theorem toNat_satMul (a b : UInt64) :
    (satMul a b).toNat = min (a.toNat * b.toNat) (2 ^ 64 - 1) :=
  UInt64.toNat_ofNat_of_lt' (by simp only [UInt64.size]; omega)

theorem checkedAdd_eq_some_iff : checkedAdd a b = some c ↔ c.toNat = a.toNat + b.toNat := by
  have hc := c.toNat_lt
  unfold checkedAdd
  split_ifs with h
  · rw [Option.some.injEq, ← UInt64.toNat_inj, UInt64.toNat_ofNat_of_lt' h, eq_comm]
  · simp only [false_iff]
    omega

theorem checkedAdd_eq_none_iff : checkedAdd a b = none ↔ 2 ^ 64 ≤ a.toNat + b.toNat := by
  unfold checkedAdd
  split_ifs with h
  · simp only [false_iff]
    omega
  · simp only [true_iff]
    omega

theorem checkedSub_eq_some_iff : checkedSub a b = some c ↔ a.toNat = c.toNat + b.toNat := by
  have ha := a.toNat_lt
  unfold checkedSub
  split_ifs with h <;> rw [UInt64.le_iff_toNat_le] at h
  · rw [Option.some.injEq, ← UInt64.toNat_inj,
      UInt64.toNat_ofNat_of_lt' (by simp only [UInt64.size]; omega)]
    omega
  · simp only [false_iff]
    omega

theorem checkedMul_eq_some_iff : checkedMul a b = some c ↔ c.toNat = a.toNat * b.toNat := by
  have hc := c.toNat_lt
  unfold checkedMul
  split_ifs with h
  · rw [Option.some.injEq, ← UInt64.toNat_inj, UInt64.toNat_ofNat_of_lt' h, eq_comm]
  · simp only [false_iff]
    omega

theorem toNat_divCeil (hb : b ≠ 0) : (divCeil a b).toNat = U64.divCeil a.toNat b.toNat := by
  have hp : 0 < b.toNat := Nat.pos_of_ne_zero fun h => hb (UInt64.toNat_inj.1 h)
  have ha := a.toNat_lt
  have hd := div_add_mod' a.toNat b.toNat
  have hm := mod_lt a.toNat hp
  unfold divCeil U64.divCeil
  symm
  split_ifs with h <;> rw [UInt64.lt_iff_toNat_lt, UInt64.toNat_mod, UInt64.toNat_zero] at h
  · -- a division that rounds is by two or more, so the quotient has room for one more
    have hlt : a.toNat / b.toNat + 1 < 2 ^ 64 := by
      have : a.toNat / b.toNat < a.toNat := div_lt_self (by omega) (by
        rcases lt_or_ge 1 b.toNat with h1 | h1
        · exact h1
        · rw [show b.toNat = 1 by omega, mod_one] at h
          exact absurd h (lt_irrefl 0))
      omega
    rw [UInt64.toNat_add, UInt64.toNat_div, UInt64.toNat_one, Nat.mod_eq_of_lt hlt,
      Nat.div_eq_iff hp, Nat.add_mul]
    omega
  · rw [UInt64.toNat_div, Nat.div_eq_iff hp]
    omega

theorem toNat_nextMultipleOf (hb : b ≠ 0) :
    (nextMultipleOf a b).toNat = U64.divCeil a.toNat b.toNat * b.toNat % 2 ^ 64 := by
  have hp : 0 < b.toNat := Nat.pos_of_ne_zero fun h => hb (UInt64.toNat_inj.1 h)
  have hle : a % b ≤ b := by
    exact (mod_lt _ hp).le
  rw [U64.divCeil_mul hp, nextMultipleOf, ← UInt64.toNat_mod]
  simp only [← UInt64.toNat_inj, UInt64.toNat_zero]
  split_ifs
  · exact (mod_eq_of_lt a.toNat_lt).symm
  · rw [UInt64.toNat_add, UInt64.toNat_sub_of_le _ _ hle]

/-- The multiple divides exactly, where it fits in a word or the words wrap around at a multiple. -/
theorem dvd_toNat_nextMultipleOf_iff (hb : b ≠ 0) : b.toNat ∣ (nextMultipleOf a b).toNat ↔
      U64.divCeil a.toNat b.toNat * b.toNat < 2 ^ 64 ∨ b.toNat ∣ 2 ^ 64 := by
  rw [toNat_nextMultipleOf hb]
  constructor
  · intro h
    rcases lt_or_ge (U64.divCeil a.toNat b.toNat * b.toNat) (2 ^ 64) with hlt | hge
    · exact .inl hlt
    · refine .inr ?_
      have hp : 0 < b.toNat := Nat.pos_of_ne_zero fun h => hb (UInt64.toNat_inj.1 h)
      have ha := a.toNat_lt
      have hb' := b.toNat_lt
      have hlt : U64.divCeil a.toNat b.toNat * b.toNat < 2 ^ 64 + 2 ^ 64 := by
        rw [U64.divCeil_mul hp]
        split_ifs <;> omega
      rw [mod_eq_sub_mod hge, mod_eq_of_lt (by omega)] at h
      exact (dvd_sub_iff_right hge (dvd_mul_left _ _)).1 h
  · rintro (hlt | hd)
    · rw [mod_eq_of_lt hlt]
      exact dvd_mul_left _ _
    · exact (dvd_mod_iff hd).2 (dvd_mul_left _ _)

end Muak.Word
