import Mathlib.Data.List.Forall2
import Muak.Foundations.Text

/-!
# Selecting a disk

`services/provisiond/src/disk/pattern.rs`: the disk of a configuration entry is found by patterns
for what the disks report of themselves. A wrong match selects a disk that is then wiped.

* `Splits`: what a pattern stands for, a sequence of pieces for its characters.
* `patternMatches_toList_iff`: the backtracking search finds such a split if there is one.
-/

namespace Muak.Provisiond.Select

open Muak.Text List Option

/-! ## Patterns -/

/-- `pattern::matches`. -/
def patternMatches (pattern value : List Char) : Bool :=
  match pattern with
  | [] => value.isEmpty
  | token :: tail =>
    let rest := (getFrom (token :: tail) token.utf8Size).getD []
    if token = '*' then
      patternMatches rest value ||
        match value with
        | [] => false
        | first :: others =>
          patternMatches (token :: tail) ((getFrom (first :: others) first.utf8Size).getD [])
    else if token = '?' then
      match value with
      | [] => false
      | first :: others =>
        patternMatches rest ((getFrom (first :: others) first.utf8Size).getD [])
    else
      match value with
      | [] => false
      | first :: others => if first = token then patternMatches rest others else false
termination_by pattern.length + value.length
decreasing_by all_goals simp [getFrom_utf8Size]; try omega

/-- The sequences of characters that a character of a pattern stands for. -/
def Covers (token : Char) (piece : List Char) : Prop :=
  if token = '*' then True else if token = '?' then piece.length = 1 else piece = [token]

/-- The value is the sequence of pieces that the characters of the pattern stand for. -/
def Splits (pattern value : List Char) : Prop :=
  ∃ pieces, List.Forall₂ Covers pattern pieces ∧ pieces.flatten = value

/-! ### The equations of the search -/

variable {token : Char} {pattern value piece : List Char} (first : Char)

@[simp] theorem patternMatches_nil : patternMatches [] value = value.isEmpty := by
  rw [patternMatches]

@[simp] theorem patternMatches_star_nil :
    patternMatches ('*' :: pattern) [] = patternMatches pattern [] := by
  rw [patternMatches, if_pos rfl, getFrom_utf8Size, getD_some, Bool.or_false]

@[simp] theorem patternMatches_star_cons : patternMatches ('*' :: pattern) (first :: value) =
      (patternMatches pattern (first :: value) || patternMatches ('*' :: pattern) value) := by
  rw [patternMatches, if_pos rfl, getFrom_utf8Size, getFrom_utf8Size, getD_some, getD_some]

theorem patternMatches_cons_nil (h : token ≠ '*') :
    patternMatches (token :: pattern) [] = false := by
  rw [patternMatches, if_neg h, ite_self]

@[simp] theorem patternMatches_question_cons :
    patternMatches ('?' :: pattern) (first :: value) = patternMatches pattern value := by
  rw [patternMatches, if_neg (by decide), if_pos rfl, getFrom_utf8Size, getFrom_utf8Size,
    getD_some, getD_some]

theorem patternMatches_literal_cons (hs : token ≠ '*') (hq : token ≠ '?') (first : Char) :
    patternMatches (token :: pattern) (first :: value) =
      if first = token then patternMatches pattern value else false := by
  rw [patternMatches, if_neg hs, if_neg hq, getFrom_utf8Size, getD_some]

/-! ### Splitting -/

@[simp] theorem covers_star : Covers '*' piece := trivial

@[simp] theorem covers_question : Covers '?' piece ↔ ∃ c, piece = [c] := List.length_eq_one_iff

theorem covers_literal (hs : token ≠ '*') (hq : token ≠ '?') :
    Covers token piece ↔ piece = [token] := by
  rw [Covers, if_neg hs, if_neg hq]

theorem ne_nil_of_covers (h : token ≠ '*') (hc : Covers token piece) : piece ≠ [] := by
  rw [Covers, if_neg h] at hc
  split_ifs at hc
  · exact ne_nil_of_length_eq_add_one hc
  · exact hc ▸ cons_ne_nil _ _

@[simp] theorem splits_nil : Splits [] value ↔ value = [] := by
  constructor
  · rintro ⟨pieces, hp, rfl⟩
    rw [forall₂_nil_left_iff.1 hp, flatten_nil]
  · rintro rfl
    exact ⟨[], .nil, rfl⟩

theorem splits_cons : Splits (token :: pattern) value ↔
    ∃ piece others, Covers token piece ∧ Splits pattern others ∧ value = piece ++ others := by
  constructor
  · rintro ⟨pieces, hp, rfl⟩
    obtain ⟨piece, others, hpc, ho, rfl⟩ := forall₂_cons_left_iff.1 hp
    exact ⟨piece, others.flatten, hpc, ⟨others, ho, rfl⟩, flatten_cons⟩
  · rintro ⟨piece, others, hpc, ⟨pieces, hp, rfl⟩, rfl⟩
    exact ⟨piece :: pieces, .cons hpc hp, flatten_cons⟩

theorem splits_star_nil : Splits ('*' :: pattern) [] ↔ Splits pattern [] := by
  rw [splits_cons]
  constructor
  · rintro ⟨piece, others, -, ho, hv⟩
    rwa [(append_eq_nil_iff.1 hv.symm).2] at ho
  · exact fun h => ⟨[], [], covers_star, h, rfl⟩

/-- A star stands for nothing, or for one character more. -/
theorem splits_star_cons : Splits ('*' :: pattern) (first :: value) ↔
    Splits pattern (first :: value) ∨ Splits ('*' :: pattern) value := by
  rw [splits_cons, splits_cons]
  constructor
  · rintro ⟨piece, others, -, ho, hv⟩
    cases piece with
    | nil => exact .inl (hv ▸ ho)
    | cons c piece =>
      obtain ⟨-, rfl⟩ := cons.inj hv
      exact .inr ⟨piece, others, covers_star, ho, rfl⟩
  · rintro (h | ⟨piece, others, -, ho, rfl⟩)
    · exact ⟨[], _, covers_star, h, rfl⟩
    · exact ⟨first :: piece, others, covers_star, ho, rfl⟩

theorem not_splits_cons_nil (h : token ≠ '*') : ¬Splits (token :: pattern) [] := by
  rw [splits_cons]
  rintro ⟨piece, others, hp, -, hv⟩
  exact ne_nil_of_covers h hp (append_eq_nil_iff.1 hv.symm).1

theorem splits_question_cons : Splits ('?' :: pattern) (first :: value) ↔ Splits pattern value := by
  simp [splits_cons]

theorem splits_literal_cons (hs : token ≠ '*') (hq : token ≠ '?') (first : Char) :
    Splits (token :: pattern) (first :: value) ↔ first = token ∧ Splits pattern value := by
  simp [splits_cons, covers_literal hs hq, and_comm]

/-- The search succeeds exactly if there is a split. -/
theorem patternMatches_iff_splits (pattern value : List Char) :
    patternMatches pattern value = true ↔ Splits pattern value := by
  induction pattern generalizing value with
  | nil => simp
  | cons token pattern ih =>
    by_cases hs : token = '*'
    · -- a star is tried at every position, so the induction is on the value as well
      subst hs
      induction value with
      | nil => rw [patternMatches_star_nil, splits_star_nil, ih]
      | cons first value ihvalue =>
        rw [patternMatches_star_cons, splits_star_cons, Bool.or_eq_true, ih, ihvalue]
    · cases value with
      | nil => simp [patternMatches_cons_nil hs, not_splits_cons_nil hs]
      | cons first value =>
        by_cases hq : token = '?'
        · rw [hq, patternMatches_question_cons, splits_question_cons, ih]
        · simp [patternMatches_literal_cons hs hq, splits_literal_cons hs hq, ih]

/-- **Patterns.** A pattern matches a value exactly if the value can be split as the pattern
says. -/
theorem patternMatches_toList_iff (pattern value : String) :
    patternMatches pattern.toList value.toList = true ↔
      ∃ pieces : List (List Char), List.Forall₂ Covers pattern.toList pieces ∧
        value = String.ofList pieces.flatten := by
  rw [patternMatches_iff_splits]
  refine exists_congr fun pieces => and_congr_right fun _ => ?_
  rw [← String.toList_inj, String.toList_ofList, eq_comm]

end Muak.Provisiond.Select
