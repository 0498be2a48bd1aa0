import Mathlib.Data.Nat.Notation
import Mathlib.Tactic.SplitIfs

/-!
# Watch channels

A channel that holds one value, with a version that each send advances. A receiver has the version
that it has seen last; it waits for a change until the channel has another one, and then has seen
that. A clone of a receiver starts with what the original has seen.
-/

namespace Muak.Watch

variable {α : Type}

/-- The shared part of a channel. -/
structure Shared (α : Type) where
  value : α
  version : ℕ

/-- A receiver, by the version that it has seen last. -/
structure Receiver where
  seen : ℕ

/-- A new channel and its first receiver, which has seen the first value. -/
def channel (value : α) : Shared α × Receiver := (⟨value, 0⟩, ⟨0⟩)

def Shared.send (c : Shared α) (value : α) : Shared α := ⟨value, c.version + 1⟩

/-- The receiver after a change, or `none` while there is none. -/
def Receiver.changed (rx : Receiver) (c : Shared α) : Option Receiver :=
  if c.version = rx.seen then none else some ⟨c.version⟩

@[simp] theorem Receiver.changed_eq_none_iff {rx : Receiver} {c : Shared α} :
    rx.changed c = none ↔ c.version = rx.seen := by
  unfold changed
  split_ifs with h <;> simp [h]

end Muak.Watch
