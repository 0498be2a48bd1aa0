import Mathlib.Algebra.Group.Nat.Defs
import Mathlib.Algebra.Order.Group.Nat
import Mathlib.Data.Nat.Bitwise
import Mathlib.Data.UInt
import Muak.Foundations.Bytes

/-!
# Bit fields of a byte buffer

The bits of a buffer are numbered from the least significant bit of its first byte.

* `bit buf pos` is a bit, `setBit buf pos` sets one, `readBits buf pos n` is the number in a field
  of `n` bits.
* `bit_setBit`: only the bit that is set changes.
* `readBits_eq_mod`: a field whose bits are those of a number holds that number.
-/

namespace Muak.BitField

open List Nat

variable {buf : Bytes} {pos pos' n value : ℕ}

def bit (buf : Bytes) (pos : ℕ) : Bool := (buf.getD (pos / 8) 0).toNat.testBit (pos % 8)

def setBit (buf : Bytes) (pos : ℕ) : Bytes :=
  buf.modify (pos / 8) (· ||| UInt8.ofNat (2 ^ (pos % 8)))

/-- The number in the `n` bits from `pos` on, the least significant one first. -/
def readBits (buf : Bytes) (pos : ℕ) : ℕ → ℕ
  | 0 => 0
  | n + 1 => (bit buf pos).toNat + 2 * readBits buf (pos + 1) n

@[simp] theorem length_setBit (buf : Bytes) (pos : ℕ) : (setBit buf pos).length = buf.length :=
  length_modify ..

theorem testBit_toNat_or (b : UInt8) {k : ℕ} (hk : k < 8) (j : ℕ) :
    (b ||| UInt8.ofNat (2 ^ k)).toNat.testBit j = (b.toNat.testBit j || decide (k = j)) := by
  have hlt : 2 ^ k < 2 ^ 8 := Nat.pow_lt_pow_right (by decide) hk
  rw [UInt8.toNat_or, UInt8.toNat_ofNat_of_lt' hlt, Nat.testBit_or, Nat.testBit_two_pow]

theorem bit_setBit (hp : pos < 8 * buf.length) :
    bit (setBit buf pos) pos' = (bit buf pos' || decide (pos = pos')) := by
  have hm : pos % 8 < 8 := mod_lt _ (by decide)
  by_cases hb : pos / 8 = pos' / 8
  · have hlt : pos' / 8 < buf.length := by omega
    simp only [bit, setBit, getD_eq_getElem?_getD, getElem?_modify, hb, if_true,
      getElem?_eq_getElem hlt, Option.map_eq_map, Option.map_some,
      Option.getD_some, testBit_toNat_or _ hm]
    rw [decide_eq_decide.2 (by omega : pos % 8 = pos' % 8 ↔ pos = pos')]
  · have hne : pos ≠ pos' := fun h => hb (by rw [h])
    simp [bit, setBit, hb, hne]

theorem bit_replicate (m pos : ℕ) : bit (List.replicate m 0) pos = false := by
  rw [bit, getD_eq_getElem?_getD, getElem?_replicate]
  split_ifs <;> simp

theorem bit_put_of_lt {data : Bytes} {start : ℕ} (hp : pos < 8 * start) :
    bit (Bytes.put buf start data) pos = bit buf pos := by
  rw [Bytes.put]
  split_ifs with hf
  · have hb : pos / 8 < (buf.take start).length := by
      rw [length_take]
      omega
    rw [bit, bit, getD_eq_getElem?_getD, getD_eq_getElem?_getD, append_assoc,
      getElem?_append_left hb, getElem?_take_of_lt (by omega)]
  · rfl

/-- A field whose bits are those of a number holds that number. -/
theorem readBits_eq_mod (h : ∀ k < n, bit buf (pos + k) = value.testBit k) :
    readBits buf pos n = value % 2 ^ n := by
  induction n generalizing pos value with
  | zero => rw [readBits, pow_zero, mod_one]
  | succ n ih =>
    have hrest : readBits buf (pos + 1) n = value / 2 % 2 ^ n := by
      refine ih fun k hk => ?_
      rw [add_assoc, add_comm 1, h (k + 1) (by omega), testBit_succ]
    have hf : (bit buf pos).toNat = value % 2 := by
      rw [show bit buf pos = value.testBit 0 from h 0 n.succ_pos, testBit_zero]
      rcases mod_two_eq_zero_or_one value with hv | hv <;> rw [hv] <;> rfl
    rw [readBits, hrest, hf, pow_succ', mod_mul]

end Muak.BitField
