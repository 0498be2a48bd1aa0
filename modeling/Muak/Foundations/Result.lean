import Mathlib.Data.List.Forall2
import Mathlib.Data.List.Induction

/-!
# Fallible computations

`Except` with the operation that turns an absent value into an error, and the inversion of a
sequence of fallible steps.
-/

namespace Muak

open List Except

universe u v

variable {ε : Type u} {α β : Type v} {a : α}

/-- `ok_or`: an absent value is an error. -/
def okOr (value : Option α) (error : ε) : Except ε α :=
  match value with
  | some a => .ok a
  | none => .error error

theorem okOr_eq_ok_iff {value : Option α} {error : ε} :
    okOr value error = .ok a ↔ value = some a := by
  cases value <;> simp [okOr]

@[simp] theorem okOr_some (a : α) (error : ε) : okOr (some a) error = .ok a := rfl

@[simp] theorem ok_bind (a : α) (f : α → Except ε β) : (Except.ok a >>= f) = f a := rfl

variable {x : Except ε α} {f : α → Except ε β}

theorem bind_eq_ok_iff {b : β} : (x >>= f) = .ok b ↔ ∃ a, x = .ok a ∧ f a = .ok b := by
  cases x with
  | error e => simp [bind, Except.bind]
  | ok a => simp

theorem of_bind {b : β} (h : (x >>= f) = .ok b) : ∃ a, x = .ok a ∧ f a = .ok b :=
  bind_eq_ok_iff.1 h

theorem map_eq_ok_iff {f : α → β} {b : β} : x.map f = .ok b ↔ ∃ a, x = .ok a ∧ f a = b := by
  cases x with
  | error e => exact ⟨nofun, nofun⟩
  | ok a => simp [Except.map]

/-- What is known of some result holds of the result. -/
theorem of_exists_eq_ok {P : α → Prop} (h : ∃ b, x = .ok b ∧ P b) (hx : x = .ok a) : P a := by
  obtain ⟨b, hb, hP⟩ := h
  obtain rfl : a = b := ok.inj (hx.symm.trans hb)
  exact hP

theorem bind_ok_eq_map (x : Except ε α) (f : α → β) : (x >>= fun a => .ok (f a)) = x.map f := by
  cases x <;> rfl

instance decidableEqExcept [DecidableEq ε] [DecidableEq α] : DecidableEq (Except ε α)
  | .ok a, .ok b => decidable_of_iff (a = b) (by simp)
  | .error e, .error f => decidable_of_iff (e = f) (by simp)
  | .ok _, .error _ => isFalse (by simp)
  | .error _, .ok _ => isFalse (by simp)

theorem mapError_eq_ok_iff {ε' : Type u} {f : ε → ε'} : x.mapError f = .ok a ↔ x = .ok a := by
  cases x with
  | ok b => exact ⟨fun h => congrArg _ (ok.inj h), fun h => congrArg _ (ok.inj h)⟩
  | error e => exact ⟨fun h => absurd h nofun, fun h => absurd h nofun⟩

variable {xs : List α}

/-- A list of steps succeeds when each does. -/
theorem forall₂_of_mapM_eq_ok {ys : List β} (h : xs.mapM f = .ok ys) :
    List.Forall₂ (fun x y => f x = .ok y) xs ys := by
  induction xs generalizing ys with
  | nil =>
    cases h
    exact .nil
  | cons x xs ih =>
    rw [mapM_cons] at h
    obtain ⟨y, hy, h⟩ := of_bind h
    obtain ⟨rest, hrest, h⟩ := of_bind h
    cases h
    exact .cons hy (ih hrest)

/-- An element on the right of a relation between lists has one on the left. -/
theorem exists_mem_of_forall₂_right {R : α → β → Prop} {ys : List β} {y : β}
    (h : List.Forall₂ R xs ys) (hy : y ∈ ys) : ∃ x ∈ xs, R x y := by
  induction h with
  | nil => cases hy
  | cons hR _ ih =>
    obtain rfl | hm := mem_cons.1 hy
    · exact ⟨_, mem_cons_self, hR⟩
    · obtain ⟨x, hx, hxy⟩ := ih hm
      exact ⟨x, mem_cons_of_mem _ hx, hxy⟩

/-- Steps that all succeed, with something known of each result. -/
theorem exists_mapM_eq_ok {P : β → Prop} (h : ∀ x ∈ xs, ∃ y, f x = .ok y ∧ P y) :
    ∃ ys, xs.mapM f = .ok ys ∧ ∀ y ∈ ys, P y := by
  induction xs with
  | nil => exact ⟨[], rfl, nofun⟩
  | cons x xs ih =>
    obtain ⟨y, hy, hP⟩ := h x mem_cons_self
    obtain ⟨ys, hys, ha⟩ := ih fun x hx => h x (mem_cons_of_mem _ hx)
    refine ⟨y :: ys, ?_, forall_mem_cons.2 ⟨hP, ha⟩⟩
    rw [mapM_cons, hy, hys]
    rfl

/-- Steps for the positions of a list that give its elements. -/
theorem mapM_range_eq_some {α : Type} {f : ℕ → Option α} {xs : List α}
    (h : ∀ j x, xs[j]? = some x → f j = some x) : (List.range xs.length).mapM f = some xs := by
  induction xs using reverseRecOn with
  | nil => rfl
  | append_singleton xs x ih =>
    have hlt : ∀ j y, xs[j]? = some y → f j = some y := by
      intro j y hj
      refine h j y ?_
      rw [getElem?_append_left (List.getElem?_eq_some_iff.1 hj).1]
      exact hj
    have hl : f xs.length = some x := h _ _ (by simp)
    rw [length_append, length_singleton, range_succ, mapM_append, ih hlt]
    simp [hl]

end Muak
