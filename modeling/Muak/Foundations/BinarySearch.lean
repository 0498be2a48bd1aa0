import Mathlib.Data.Nat.Notation
import Mathlib.Order.Basic

/-!
# Binary search

The search of the standard library in a sorted sequence: `cmp i` compares the element at `i` with
what is searched for. The range is halved until one candidate is left.

* `binarySearchBy_eq_some_iff`: in a strictly increasing sequence the search finds the element if
  it is there.
-/

namespace Muak

/-- The last candidate of the `size` elements from `base` on. -/
def candidate (cmp : ℕ → Ordering) : (fuel base size : ℕ) → ℕ
  | 0, base, _ => base
  | fuel + 1, base, size =>
    if size ≤ 1 then base
    else candidate cmp fuel (if cmp (base + size / 2) = .gt then base else base + size / 2)
      (size - size / 2)

/-- `slice::binary_search_by` on `len` elements, without the place of insertion. -/
def binarySearchBy (cmp : ℕ → Ordering) (len : ℕ) : Option ℕ :=
  if len = 0 then none
  else
    let base := candidate cmp len 0 len
    if cmp base = .eq then some base else none

/-- `slice::partition_point` on `len` elements. -/
def partitionPoint (less : ℕ → Bool) (len : ℕ) : ℕ :=
  if len = 0 then 0
  else
    let base := candidate (fun i => if less i then .lt else .gt) len 0 len
    if less base then base + 1 else base

variable {cmp : ℕ → Ordering} {len : ℕ}

theorem candidate_lt {fuel base size : ℕ} (hs : 0 < size) :
    candidate cmp fuel base size < base + size := by
  induction fuel generalizing base size with
  | zero =>
    rw [candidate]
    omega
  | succ fuel ih =>
    rw [candidate]
    split_ifs with ho hgt
    · omega
    · have := @ih base (size - size / 2) (by omega)
      omega
    · have := @ih (base + size / 2) (size - size / 2) (by omega)
      omega

theorem partitionPoint_le {less : ℕ → Bool} : partitionPoint less len ≤ len := by
  unfold partitionPoint
  split_ifs with hlen
  · exact Nat.zero_le len
  · have := @candidate_lt (fun i => if less i then .lt else .gt) len 0 len (by omega)
    dsimp only
    split_ifs <;> omega

/-- Halving keeps the element that is searched for. -/
theorem candidate_eq (hs : ∀ i j, i < j → j < len → cmp j ≠ .gt → cmp i = .lt)
    {fuel base size j : ℕ} (hf : size ≤ fuel + 1) (hlen : base + size ≤ len) (hb : base ≤ j)
    (hj : j < base + size) (heq : cmp j = .eq) : candidate cmp fuel base size = j := by
  induction fuel generalizing base size with
  | zero =>
    rw [candidate]
    omega
  | succ fuel ih =>
    rw [candidate]
    split_ifs with ho hgt
    · omega
    · refine ih (by omega) (by omega) hb ?_
      -- what is searched for lies before an element that is too large
      by_contra hge
      rcases Nat.lt_or_eq_of_le (show base + size / 2 ≤ j by omega) with hlt | hm
      · have := hs _ j hlt (by omega) (by rw [heq]; decide)
        rw [hgt] at this
        exact absurd this (by decide)
      · rw [hm, heq] at hgt
        exact absurd hgt (by decide)
    · refine ih (by omega) (by omega) ?_ (by omega)
      by_contra hlt
      have := hs j _ (show j < base + size / 2 by omega) (by omega) hgt
      rw [heq] at this
      exact absurd this (by decide)

/-- **Binary search is correct** in a strictly increasing sequence. -/
theorem binarySearchBy_eq_some_iff
    (hs : ∀ i j, i < j → j < len → cmp j ≠ .gt → cmp i = .lt) {j : ℕ} :
    binarySearchBy cmp len = some j ↔ j < len ∧ cmp j = .eq := by
  unfold binarySearchBy
  simp only
  constructor
  · intro h
    split_ifs at h with hz heq
    have hj := Option.some.inj h
    have hlt := @candidate_lt cmp len 0 len (by omega)
    rw [hj] at heq hlt
    exact ⟨by omega, heq⟩
  · rintro ⟨hj, heq⟩
    have hc := candidate_eq hs (show len ≤ len + 1 by omega) (by omega)
      (Nat.zero_le j) (by omega) heq
    rw [if_neg (by omega), hc, if_pos heq]

end Muak
