import Mathlib.Algebra.Order.Ring.Nat
import Mathlib.Data.Nat.Bitwise
import Mathlib.Tactic.Ring

/-!
# Alignment

Rounding with a mask of low bits, for words of any width.

* `land_mask`: clearing the low bits of a word rounds it down.
* `saturatingAlign`: rounding up where the sum stays within the word, with `saturatingAlign_eq`.
-/

namespace Muak.Align

open Nat

variable {w k x a : ℕ}

/-- Clearing the lowest `k` bits of a word rounds down to a multiple of `2 ^ k`. -/
theorem land_mask (hk : k ≤ w) (hx : x < 2 ^ w) :
    x &&& (2 ^ w - 1 - (2 ^ k - 1)) = x / 2 ^ k * 2 ^ k := by
  have hp : 2 ^ w = 2 ^ (w - k) * 2 ^ k := by rw [← pow_add, Nat.sub_add_cancel hk]
  have hm : 2 ^ w - 1 - (2 ^ k - 1) = (2 ^ (w - k) - 1) <<< k := by
    have ho := Nat.one_le_two_pow (n := k)
    rw [Nat.shiftLeft_eq, Nat.sub_mul]
    omega
  rw [hm, ← shiftRight_eq_div_pow, ← shiftLeft_eq]
  refine eq_of_testBit_eq fun i => ?_
  by_cases hi : k ≤ i
  · by_cases hiw : i < w
    · have : i - k < w - k := by omega
      simp [hi, this]
    · have hb : x.testBit i = false := Nat.testBit_lt_two_pow
        (lt_of_lt_of_le hx (Nat.pow_le_pow_right (by omega) (by omega)))
      simp [hi, hb]
  · simp [hi]

/-- The mask of an alignment, added within the word and then cleared. -/
def saturatingAlign (w value alignment : ℕ) : ℕ :=
  min (value + (alignment - 1)) (2 ^ w - 1) &&& (2 ^ w - 1 - (alignment - 1))

theorem saturatingAlign_eq (hk : k ≤ w) :
    saturatingAlign w x (2 ^ k) = min (x + (2 ^ k - 1)) (2 ^ w - 1) / 2 ^ k * 2 ^ k := by
  have hp := Nat.one_le_two_pow (n := w)
  exact land_mask hk (by omega)

section

variable (hk : k ≤ w)

include hk

theorem dvd_saturatingAlign : 2 ^ k ∣ saturatingAlign w x (2 ^ k) := by
  rw [saturatingAlign_eq hk]
  exact dvd_mul_left _ _

/-- The result is a word, and so at most the largest multiple. -/
theorem saturatingAlign_add_le : saturatingAlign w x (2 ^ k) + 2 ^ k ≤ 2 ^ w := by
  obtain ⟨c, hc⟩ := pow_dvd_pow 2 hk
  have hdv := div_mul_le_self (min (x + (2 ^ k - 1)) (2 ^ w - 1)) (2 ^ k)
  have hlt : saturatingAlign w x (2 ^ k) < 2 ^ w := by
    have := Nat.one_le_two_pow (n := w)
    rw [saturatingAlign_eq hk]
    omega
  obtain ⟨d, hd⟩ := dvd_saturatingAlign hk
  rw [hc, hd] at hlt ⊢
  have hdc : d + 1 ≤ c := Nat.lt_of_mul_lt_mul_left hlt
  calc 2 ^ k * d + 2 ^ k = 2 ^ k * (d + 1) := by ring
    _ ≤ 2 ^ k * c := mul_le_mul_left _ hdc

/-- Rounding up is exact up to the largest multiple, and stops there. -/
theorem le_saturatingAlign_iff : x ≤ saturatingAlign w x (2 ^ k) ↔ x + 2 ^ k ≤ 2 ^ w := by
  refine ⟨fun h => (Nat.add_le_add_right h _).trans (saturatingAlign_add_le hk), fun h => ?_⟩
  have hp := Nat.one_le_two_pow (n := k)
  rw [saturatingAlign_eq hk, min_eq_left (by omega)]
  have hm := div_add_mod (x + (2 ^ k - 1)) (2 ^ k)
  rw [mul_comm]
  omega

theorem saturatingAlign_of_lt (h : 2 ^ w < x + 2 ^ k) :
    saturatingAlign w x (2 ^ k) + 2 ^ k = 2 ^ w := by
  obtain ⟨c, hc⟩ := Nat.pow_dvd_pow 2 hk
  have hp := Nat.one_le_two_pow (n := k)
  have hc1 : 1 ≤ c := by
    by_contra h0
    have : c = 0 := by omega
    rw [this] at hc
    exact absurd hc (Nat.two_pow_pos w).ne'
  have hd : (2 ^ k * c - 1) / 2 ^ k = c - 1 := by
    rw [show 2 ^ k * c - 1 = 2 ^ k * (c - 1) + (2 ^ k - 1) by
      rw [Nat.mul_sub]
      have := Nat.mul_le_mul_left (2 ^ k) hc1
      omega, Nat.mul_add_div (Nat.two_pow_pos k), Nat.div_eq_of_lt (by omega), Nat.add_zero]
  rw [saturatingAlign_eq hk, Nat.min_eq_right (by omega), hc, hd, Nat.sub_mul, Nat.mul_comm c]
  have := Nat.mul_le_mul_left (2 ^ k) hc1
  omega

theorem saturatingAlign_of_dvd (hd : 2 ^ k ∣ x) (hx : x < 2 ^ w) :
    saturatingAlign w x (2 ^ k) = x := by
  obtain ⟨c, hc⟩ := Nat.pow_dvd_pow 2 hk
  obtain ⟨d, rfl⟩ := hd
  have hp := Nat.one_le_two_pow (n := k)
  rw [hc] at hx
  have hdc : d + 1 ≤ c := Nat.lt_of_mul_lt_mul_left hx
  have hle : 2 ^ k * d + 2 ^ k ≤ 2 ^ w := by
    rw [hc]
    calc 2 ^ k * d + 2 ^ k = 2 ^ k * (d + 1) := by ring
      _ ≤ 2 ^ k * c := Nat.mul_le_mul_left _ hdc
  rw [saturatingAlign_eq hk, Nat.min_eq_left (by omega), Nat.mul_add_div (Nat.two_pow_pos k),
    Nat.div_eq_of_lt (by omega), Nat.add_zero, Nat.mul_comm]

end

end Muak.Align
