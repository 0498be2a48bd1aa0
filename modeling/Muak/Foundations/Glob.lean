import Mathlib.Data.List.Basic

/-!
# Patterns with a star

A star of a pattern stands for any sequence, and every other token for one symbol.

* `Stands`: the texts that a pattern stands for.
* `search`: the greedy search, which takes a star for nothing at first and for one symbol more each
  time it gets stuck. It remembers the last star alone.
* `search_iff`: no star before the last one ever has to be taken for more.
-/

namespace Muak.Glob

open List Nat

variable {α β : Type*} (star : α) (fits : α → β → Prop)

/-- The texts that a pattern stands for. -/
inductive Stands : List α → List β → Prop
  | nil : Stands [] []
  | any {pattern : List α} {text : List β} (skipped : List β) :
    Stands pattern text → Stands (star :: pattern) (skipped ++ text)
  | one {token : α} {symbol : β} {pattern : List α} {text : List β} : token ≠ star →
    fits token symbol → Stands pattern text → Stands (token :: pattern) (symbol :: text)

section Search
variable [DecidableEq α] [DecidableRel fits]

/-- The search, with what is after the last star and the text from where it was taken. -/
def search (pattern : List α) (text : List β) (last : Option (List α × List β)) : Bool :=
  match text with
  | [] => (pattern.dropWhile (· = star)).isEmpty
  | symbol :: rest =>
    match pattern with
    | token :: tail =>
      if token = star then search tail (symbol :: rest) (some (tail, symbol :: rest))
      else if fits token symbol then search tail rest last
      else
        match last with
        | some (saved, _ :: later) => search saved later (some (saved, later))
        | _ => false
    | [] =>
      match last with
      | some (saved, _ :: later) => search saved later (some (saved, later))
      | _ => false
termination_by (max pattern.length ((last.map (·.1.length)).getD 0),
  (last.map (·.2.length)).getD 0, text.length)
decreasing_by all_goals (simp_wf; simp [Prod.lex_def] <;> omega)

end Search

variable {star fits} {token : α} {symbol : β} {pattern saved front : List α} {text later : List β}

theorem stands_star_iff : Stands star fits (star :: pattern) text ↔
    ∃ later, later <:+ text ∧ Stands star fits pattern later := by
  constructor
  · intro h
    cases h with
    | any skipped h => exact ⟨_, suffix_append _ _, h⟩
    | one hne => exact absurd rfl hne
  · rintro ⟨later, ⟨skipped, rfl⟩, h⟩
    exact .any skipped h

theorem stands_cons_iff (hne : token ≠ star) :
    Stands star fits (token :: pattern) (symbol :: text) ↔
      fits token symbol ∧ Stands star fits pattern text := by
  constructor
  · generalize ht : symbol :: text = text'
    intro h
    cases h with
    | any => exact absurd rfl hne
    | one _ hf h =>
      obtain ⟨rfl, rfl⟩ := cons.inj ht
      exact ⟨hf, h⟩
  · exact fun h => .one hne h.1 h.2

/-- Nothing but stars stands for the empty text. -/
theorem stands_nil_iff [DecidableEq α] :
    Stands star fits pattern [] ↔ (pattern.dropWhile (· = star)).isEmpty = true := by
  induction pattern with
  | nil => exact ⟨fun _ => rfl, fun _ => .nil⟩
  | cons token pattern ih =>
    by_cases hs : token = star
    · subst hs
      rw [stands_star_iff, dropWhile_cons_of_pos (by simp), ← ih]
      simp
    · rw [dropWhile_cons_of_neg (by simpa using hs)]
      constructor
      · generalize ht : ([] : List β) = text
        intro h
        cases h with
        | any => exact absurd rfl hs
        | one => cases ht
      · exact fun h => by cases h

/-- Tokens other than the star stand for one symbol each. -/
theorem Stands.append_left (hf : star ∉ front) (h : Stands star fits (front ++ pattern) text) :
    front.length ≤ text.length ∧ Stands star fits pattern (text.drop front.length) := by
  induction front generalizing text with
  | nil => exact ⟨zero_le _, h⟩
  | cons token front ih =>
    obtain ⟨hne, hf⟩ := not_or.1 (mt mem_cons.2 hf)
    cases h with
    | any => exact absurd rfl hne
    | one _ _ h => exact ⟨succ_le_succ (ih hf h).1, (ih hf h).2⟩

/-- The last star can be taken for more. -/
def Later (star : α) (fits : α → β → Prop) : Option (List α × List β) → Prop
  | none => False
  | some (saved, whole) => ∃ later, later <:+ whole ∧ later.length < whole.length ∧
    Stands star fits saved later

/-- Tokens other than the star were passed since the last star, one for each symbol. -/
def Reached (star : α) (pattern : List α) (text : List β) : Option (List α × List β) → Prop
  | none => True
  | some (saved, whole) => ∃ front passed, saved = front ++ pattern ∧ whole = passed ++ text ∧
    star ∉ front ∧ front.length = passed.length

variable {last : Option (List α × List β)}

/-- Wherever an earlier star is taken for more, the rest of the pattern stands for less of the
text. -/
theorem Reached.exists_suffix (hr : Reached star pattern text last) (h : Later star fits last) :
    ∃ later, later <:+ text ∧ later.length < text.length ∧ Stands star fits pattern later := by
  rcases last with - | ⟨saved, whole⟩
  · exact h.elim
  obtain ⟨front, passed, rfl, rfl, hf, hlen⟩ := hr
  obtain ⟨later, hsf, hlt, hs⟩ := h
  obtain ⟨hle, hs⟩ := hs.append_left hf
  rw [length_append] at hlt
  refine ⟨_, suffix_of_suffix_length_le ((drop_suffix _ _).trans hsf)
    (suffix_append _ _) ?_, ?_, hs⟩ <;> rw [length_drop] <;> omega

/-- What is left to try with the last star, after one symbol more. -/
theorem later_cons_iff : Later star fits (some (saved, symbol :: later)) ↔
    Stands star fits saved later ∨ Later star fits (some (saved, later)) := by
  constructor
  · rintro ⟨text, hs, hlt, h⟩
    rcases suffix_cons_iff.1 hs with rfl | hs
    · exact absurd hlt (Nat.lt_irrefl _)
    · rcases Nat.lt_or_eq_of_le hs.length_le with hlt | heq
      · exact .inr ⟨text, hs, hlt, h⟩
      · exact .inl (hs.eq_of_length heq ▸ h)
  · rintro (h | ⟨text, hs, hlt, h⟩)
    · exact ⟨later, suffix_cons _ _, lt_succ_self _, h⟩
    · exact ⟨text, hs.trans (suffix_cons _ _), lt_succ_of_lt hlt, h⟩

theorem reached_star : Reached star pattern text (some (pattern, text)) :=
  ⟨[], [], rfl, rfl, not_mem_nil, rfl⟩

theorem Reached.cons (h : Reached star (token :: pattern) (symbol :: text) last)
    (hne : token ≠ star) : Reached star pattern text last := by
  rcases last with - | ⟨saved, whole⟩
  · trivial
  obtain ⟨front, passed, rfl, rfl, hf, hlen⟩ := h
  refine ⟨front ++ [token], passed ++ [symbol], by simp, by simp, ?_, by simp [hlen]⟩
  rw [mem_append, mem_singleton]
  exact not_or.2 ⟨hf, Ne.symm hne⟩

theorem Reached.not_later (h : Reached star pattern (symbol :: text) last)
    (hl : ∀ saved first later, last = some (saved, first :: later) → False) :
    ¬Later star fits last := by
  rcases last with - | ⟨saved, - | ⟨first, later⟩⟩
  · exact id
  · obtain ⟨front, passed, -, hw, -⟩ := h
    exact absurd (append_eq_nil_iff.1 hw.symm).2 (cons_ne_nil _ _)
  · exact (hl saved first later rfl).elim

/-- **The greedy search is complete**: the last star is all that has to be remembered. -/
theorem search_iff [DecidableEq α] [DecidableRel fits] (hr : Reached star pattern text last) :
    search star fits pattern text last = true ↔
      Stands star fits pattern text ∨ Later star fits last := by
  fun_induction search star fits pattern text last with
  | case1 pattern last =>
    rw [stands_nil_iff]
    refine (or_iff_left fun hl => ?_).symm
    obtain ⟨later, -, hlt, -⟩ := hr.exists_suffix hl
    exact not_lt_zero _ hlt
  | case2 last symbol rest tail ih =>
    rw [ih reached_star]
    constructor
    · rintro (h | ⟨later, hs, -, h⟩)
      · exact .inl (stands_star_iff.2 ⟨_, suffix_refl _, h⟩)
      · exact .inl (stands_star_iff.2 ⟨later, hs, h⟩)
    · -- where an earlier star is taken for more, this one can be
      intro h
      obtain ⟨later, hs, hst⟩ : ∃ later, later <:+ symbol :: rest ∧
          Stands star fits tail later := by
        rcases h with h | h
        · exact stands_star_iff.1 h
        · obtain ⟨whole, hw, -, h⟩ := hr.exists_suffix h
          obtain ⟨later, hl, h⟩ := stands_star_iff.1 h
          exact ⟨later, hl.trans hw, h⟩
      rcases Nat.lt_or_eq_of_le hs.length_le with hlt | heq
      · exact .inr ⟨later, hs, hlt, hst⟩
      · exact .inl (hs.eq_of_length heq ▸ hst)
  | case3 last symbol rest token tail hne hf ih =>
    rw [ih (hr.cons hne), stands_cons_iff hne, and_iff_right hf]
  | case4 symbol rest token tail hne hf saved first later ih =>
    rw [ih reached_star, later_cons_iff, stands_cons_iff hne]
    exact (or_iff_right fun h => hf h.1).symm
  | case5 last symbol rest token tail hne hf hls =>
    rw [stands_cons_iff hne]
    exact iff_of_false Bool.false_ne_true (not_or.2 ⟨fun h => hf h.1, hr.not_later hls⟩)
  | case6 symbol rest saved first later ih =>
    rw [ih reached_star, later_cons_iff]
    exact (or_iff_right nofun).symm
  | case7 last symbol rest hls =>
    exact iff_of_false Bool.false_ne_true (not_or.2 ⟨nofun, hr.not_later hls⟩)

end Muak.Glob
