import Mathlib.Algebra.GroupWithZero.Nat
import Mathlib.Algebra.Ring.Nat
import Muak.Foundations.Bytes

/-!
# Consecutive blocks

Blocks of given lengths that follow each other without gaps.

* `starts next counts`: where each of them starts when the first one starts at `next`.
* `starts_within`, `starts_disjoint`: each block lies within the whole, and they are disjoint.
* `slice_flatten`: a block of a concatenation is found at its start, in units of `w` bytes.
-/

namespace Muak.Blocks

open Bytes List

/-- The starts of consecutive blocks. -/
def starts : ℕ → List ℕ → List ℕ
  | _, [] => []
  | next, count :: rest => next :: starts (next + count) rest

variable {next : ℕ} {counts : List ℕ}

@[simp] theorem length_starts (next : ℕ) (counts : List ℕ) :
    (starts next counts).length = counts.length := by
  induction counts generalizing next with
  | nil => rfl
  | cons count rest ih => rw [starts, length_cons, ih, length_cons]

theorem starts_append (next : ℕ) (counts others : List ℕ) :
    starts next (counts ++ others) = starts next counts ++ starts (next + counts.sum) others := by
  induction counts generalizing next with
  | nil => simp [starts]
  | cons count rest ih =>
    rw [cons_append, starts, starts, ih, sum_cons, Nat.add_assoc, cons_append]

section

variable {k start count : ℕ} (hstart : (starts next counts)[k]? = some start)
  (hcount : counts[k]? = some count)

include hstart hcount

theorem starts_succ (hk : k + 1 < counts.length) :
    (starts next counts)[k + 1]? = some (start + count) := by
  induction counts generalizing next k with
  | nil => cases hcount
  | cons first rest ih =>
    cases k with
    | zero =>
      cases hstart
      cases hcount
      cases rest with
      | nil => exact absurd hk (Nat.lt_irrefl 1)
      | cons second rest => rfl
    | succ k => exact ih hstart hcount (Nat.lt_of_succ_lt_succ hk)

theorem starts_last (hk : k + 1 = counts.length) : start + count = next + counts.sum := by
  induction counts generalizing next k with
  | nil => cases hcount
  | cons first rest ih =>
    rw [sum_cons]
    cases k with
    | zero =>
      obtain rfl := length_eq_zero_iff.1 (Nat.succ.inj hk).symm
      cases hstart
      cases hcount
      rfl
    | succ k =>
      have hrest := ih hstart hcount (Nat.succ.inj hk)
      omega

/-- A block lies between the first start and the end of the last block. -/
theorem starts_within : next ≤ start ∧ start + count ≤ next + counts.sum := by
  induction counts generalizing next k with
  | nil => cases hcount
  | cons first rest ih =>
    rw [sum_cons]
    cases k with
    | zero =>
      cases hstart
      cases hcount
      omega
    | succ k =>
      have hrest := @ih (next + first) k hstart hcount
      omega

end

/-- A later block starts behind the end of an earlier one. -/
theorem starts_disjoint {j k startJ startK countJ : ℕ} (hlt : j < k)
    (hj : (starts next counts)[j]? = some startJ) (hcount : counts[j]? = some countJ)
    (hk : (starts next counts)[k]? = some startK) : startJ + countJ ≤ startK := by
  induction counts generalizing next j k with
  | nil => cases hcount
  | cons first rest ih =>
    cases k with
    | zero => exact absurd hlt (Nat.not_lt_zero j)
    | succ k =>
      cases j with
      | zero =>
        cases hj
        cases hcount
        change (starts (startJ + countJ) rest)[k]? = some startK at hk
        have hlen := (List.getElem?_eq_some_iff.1 hk).1
        rw [length_starts] at hlen
        exact (starts_within hk (getElem?_eq_getElem hlen)).1
      | succ j => exact ih (Nat.lt_of_succ_lt_succ hlt) hj hcount hk

/-- A block of a concatenation is at its start. -/
theorem slice_flatten {w : ℕ} {blocks : List Bytes}
    (hlen : blocks.map List.length = counts.map (· * w)) {k start count : ℕ}
    {block : Bytes} (hstart : (starts next counts)[k]? = some start)
    (hcount : counts[k]? = some count) (hbl : blocks[k]? = some block) (after : Bytes) :
    slice (blocks.flatten ++ after) ((start - next) * w) (count * w) = some block := by
  induction counts generalizing next blocks k with
  | nil => cases hcount
  | cons first rest ih =>
    cases blocks with
    | nil => cases hbl
    | cons b others =>
      obtain ⟨hb, ho⟩ := cons.inj hlen
      rw [flatten_cons, append_assoc]
      cases k with
      | zero =>
        cases hstart
        cases hcount
        cases hbl
        rw [Nat.sub_self, Nat.zero_mul]
        exact slice_append_left hb
      | succ k =>
        change (starts (next + first) rest)[k]? = some start at hstart
        have hle := (starts_within hstart hcount).1
        have hrest := ih ho hstart hcount hbl
        rw [show start - next = first + (start - (next + first)) by omega, Nat.add_mul,
          slice_append_right hb]
        exact hrest

end Muak.Blocks
