import Mathlib.Data.List.Basic

/-!
# Runs of a deterministic system

A system is given by its step function, which takes a state and a label (a command, an event,
an input) to the next state. What is nondeterministic about the system, such as the time or the
answer of a service it calls, is in the labels or in an oracle carried by the state.

* `runFrom step s as` is the state after the labels `as`.
* `Along step P s as` says that `P` holds of every state of that run together with the label
  taken there: a condition on the steps of a run.
* `runFrom_invariant` is the induction principle: what every step meeting `P` preserves holds
  at the end of every run whose steps all meet `P`. As a prefix of such a run is such a run, it
  holds in every state reached.
* `forall_runFrom_iff_along` is the same for a condition that is necessary as well.
-/

namespace Muak

open List

variable {σ α : Type*}

/-- The state after taking the labels one after another. -/
def runFrom (step : σ → α → σ) (s : σ) (as : List α) : σ := as.foldl step s

/-- `P` holds at every step of the run of `as` from `s`. -/
def Along (step : σ → α → σ) (P : σ → α → Prop) : σ → List α → Prop
  | _, [] => True
  | s, a :: as => P s a ∧ Along step P (step s a) as

variable (step : σ → α → σ)

variable (s : σ)

@[simp] theorem runFrom_nil : runFrom step s [] = s := rfl

@[simp] theorem runFrom_cons (a : α) (as : List α) :
    runFrom step s (a :: as) = runFrom step (step s a) as := rfl

theorem runFrom_append (as bs : List α) :
    runFrom step s (as ++ bs) = runFrom step (runFrom step s as) bs := foldl_append

variable {step}

variable {P : σ → α → Prop} {s}

/-- What holds along a run holds along its beginning. -/
theorem Along.of_append {as bs : List α} (h : Along step P s (as ++ bs)) : Along step P s as := by
  induction as generalizing s with
  | nil => trivial
  | cons a as ih => exact ⟨h.1, ih h.2⟩

variable (Inv : σ → Prop) {as : List α}

/-- **Invariants hold along runs**: a property that every step meeting `P` preserves. -/
theorem runFrom_invariant (hstep : ∀ s a, Inv s → P s a → Inv (step s a)) (hs : Inv s)
    (has : Along step P s as) : Inv (runFrom step s as) := by
  induction as generalizing s with
  | nil => exact hs
  | cons a as ih => exact ih (hstep s a hs has.1) has.2

/-- The case of an unconditional invariant. -/
theorem runFrom_invariant_always (hstep : ∀ s a, Inv s → Inv (step s a)) (hs : Inv s)
    (as : List α) : Inv (runFrom step s as) := by
  induction as generalizing s with
  | nil => exact hs
  | cons a as ih => exact ih (hstep s a hs)

/-- **Invariants and conditions on the steps**: where a step keeps the invariant exactly if it meets
`P`, the states reached all have the invariant exactly if the steps all meet `P`. -/
theorem forall_runFrom_iff_along (hstep : ∀ s a, Inv s → (Inv (step s a) ↔ P s a)) (hs : Inv s) :
    (∀ done, done <+: as → Inv (runFrom step s done)) ↔ Along step P s as := by
  induction as generalizing s with
  | nil =>
    refine ⟨fun _ => trivial, fun _ done hd => ?_⟩
    rw [prefix_nil.1 hd]
    exact hs
  | cons a as ih =>
    constructor
    · intro h
      have ha : Inv (step s a) := h [a] ⟨as, rfl⟩
      refine ⟨(hstep s a hs).1 ha, (ih ha).1 fun done hd => ?_⟩
      exact h (a :: done) (cons_prefix_cons.2 ⟨rfl, hd⟩)
    · rintro ⟨ha, has⟩ done hd
      have ha := (hstep s a hs).2 ha
      rcases prefix_cons_iff.1 hd with rfl | ⟨rest, rfl, hrest⟩
      · exact hs
      · exact (ih ha).2 has rest hrest

/-- The same, where every step keeps another invariant. -/
theorem forall_runFrom_iff_along_of_always (Base : σ → Prop) (hb : ∀ s a, Base s → Base (step s a))
    (hstep : ∀ s a, Base s → Inv s → (Inv (step s a) ↔ P s a)) (hs : Base s) (as : List α)
    (hi : Inv s) : (∀ done, done <+: as → Inv (runFrom step s done)) ↔ Along step P s as := by
  rw [← forall_runFrom_iff_along (fun s => Base s ∧ Inv s) (fun s a h => ?_) ⟨hs, hi⟩]
  · refine forall₂_congr fun done _ => (and_iff_right ?_).symm
    exact runFrom_invariant_always Base hb hs done
  · rw [hstep s a h.1 h.2]
    exact and_iff_right (hb s a h.1)

/-- What an invariant implies holds along every run. -/
theorem along_of_invariant (hstep : ∀ s a, Inv s → Inv (step s a))
    (h : ∀ s a, Inv s → P s a) (hs : Inv s) (as : List α) : Along step P s as := by
  induction as generalizing s with
  | nil => trivial
  | cons a as ih => exact ⟨h s a hs, ih (hstep s a hs)⟩

/-- Two conditions that agree under an invariant hold along the same runs. -/
theorem along_congr {P Q : σ → α → Prop} (hstep : ∀ s a, Inv s → Inv (step s a))
    (h : ∀ s a, Inv s → (P s a ↔ Q s a)) (hs : Inv s) (as : List α) :
    Along step P s as ↔ Along step Q s as := by
  induction as generalizing s with
  | nil => exact Iff.rfl
  | cons a as ih => exact and_congr (h s a hs) (ih (hstep s a hs))

/-- A loop over a list keeps what each of its own elements keeps. -/
theorem runFrom_invariant_mem (hstep : ∀ a ∈ as, ∀ s, Inv s → Inv (step s a)) (hs : Inv s) :
    Inv (runFrom step s as) := by
  induction as generalizing s with
  | nil => exact hs
  | cons a as ih =>
    exact ih (fun b hb => hstep b (mem_cons_of_mem a hb)) (hstep a mem_cons_self s hs)

/-- A loop over distinct elements, each of which must be `Ok` when its turn comes: a step keeps the
elements still to come `Ok`. -/
theorem runFrom_invariant_nodup (Ok : σ → α → Prop) (hstep : ∀ s a, Inv s → Ok s a → Inv (step s a))
    (hok : ∀ s a b, Inv s → Ok s a → Ok s b → b ≠ a → Ok (step s a) b) (has : as.Nodup) (hs : Inv s)
    (hal : ∀ a ∈ as, Ok s a) : Inv (runFrom step s as) := by
  induction as generalizing s with
  | nil => exact hs
  | cons a as ih =>
    rw [nodup_cons] at has
    have ha := hal a mem_cons_self
    refine ih has.2 (hstep s a hs ha) fun b hb => ?_
    have hne : b ≠ a := fun heq => has.1 (heq ▸ hb)
    exact hok s a b hs ha (hal b (mem_cons_of_mem a hb)) hne

end Muak
