import Mathlib.Data.Nat.Notation

/-!
# Loops that return from their body

A `loop` whose body either returns or goes on with a new state. `loop body n` makes at most `n`
iterations and is `none` when the loop is then still running.

* `loop_invariant`: what an invariant of the body says about the value returned.
* `exists_loop_eq_some`: a loop that lowers a measure in every iteration returns.
-/

namespace Muak

variable {σ ρ : Type*} {body : σ → ρ ⊕ σ} {s : σ} {r : ρ}

/-- At most `n` iterations of a loop. -/
def loop (body : σ → ρ ⊕ σ) : ℕ → σ → Option ρ
  | 0, _ => none
  | n + 1, s =>
    match body s with
    | .inl r => some r
    | .inr s' => loop body n s'

theorem loop_succ_of_inl (h : body s = .inl r) (n : ℕ) : loop body (n + 1) s = some r := by
  simp [loop, h]

theorem loop_succ_of_inr {s s' : σ} (h : body s = .inr s') (n : ℕ) :
    loop body (n + 1) s = loop body n s' := by
  simp [loop, h]

theorem loop_of_le {m n : ℕ} (h : loop body n s = some r) (hle : n ≤ m) :
    loop body m s = some r := by
  induction n generalizing m s with
  | zero => cases h
  | succ n ih =>
    obtain ⟨m, rfl⟩ := Nat.exists_eq_succ_of_ne_zero (show m ≠ 0 by omega)
    cases hb : body s with
    | inl r' =>
      rw [loop_succ_of_inl hb] at h ⊢
      exact h
    | inr s' =>
      rw [loop_succ_of_inr hb] at h ⊢
      exact ih h (Nat.le_of_succ_le_succ hle)

/-- **The invariant rule**: where every iteration that goes on keeps `I` and every one that returns
establishes `Q`, the value returned satisfies `Q`. -/
theorem loop_invariant {I : σ → Prop} {Q : ρ → Prop}
    (hr : ∀ s r, I s → body s = .inl r → Q r) (hn : ∀ s s', I s → body s = .inr s' → I s')
    {n : ℕ} (hs : I s) (h : loop body n s = some r) : Q r := by
  induction n generalizing s with
  | zero => cases h
  | succ n ih =>
    cases hb : body s with
    | inl r' =>
      rw [loop_succ_of_inl hb] at h
      obtain rfl := Option.some.inj h
      exact hr s r' hs hb
    | inr s' =>
      rw [loop_succ_of_inr hb] at h
      exact ih (hn s s' hs hb) h

/-- **Termination**: a loop that lowers a measure in every iteration that goes on returns. -/
theorem exists_loop_eq_some (μ : σ → ℕ) (hn : ∀ s s', body s = .inr s' → μ s' < μ s) (s : σ) :
    ∃ n r, loop body n s = some r := by
  induction h : μ s using Nat.strongRecOn generalizing s with
  | ind m ih =>
    subst h
    cases hb : body s with
    | inl r => exact ⟨1, r, loop_succ_of_inl hb 0⟩
    | inr s' =>
      obtain ⟨n, r, hr⟩ := ih (μ s') (hn s s' hb) s' rfl
      exact ⟨n + 1, r, by rw [loop_succ_of_inr hb, hr]⟩

end Muak
