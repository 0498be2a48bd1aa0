import Muak.Foundations.Loop
import Muak.Parttable.Layout

/-!
# The smallest disk for a partition

`libs/parttable/src/gpt/plan.rs`: `smallest_disk` grows a disk in steps until a request can be
placed on a new table.

* `smallestDisk_spec`: the search ends; the size it returns is the first of the sizes tried on which
  the request can be placed, and where it reports that the request cannot be placed, no size that a
  `u64` can hold would do.
-/

namespace Muak.Parttable

open Word Nat

def growthOverflowError : ParttableError :=
  .invalidPlacement "disk sector count overflowed while growing"

section
variable (sectorSize stepSectors : UInt64) (diskGuid : Guid) (request : PlacementRequest)

/-- One iteration of the search: it returns, or goes on with a larger disk. -/
def growDisk (sectorCount : UInt64) : Result UInt64 ⊕ UInt64 :=
  match Table.create sectorCount sectorSize diskGuid with
  | .error err => .inl (.error err)
  | .ok table =>
    match (request.place table sectorSize).2 with
    | .ok _ => .inl (.ok sectorCount)
    | .error (.invalidPlacement _) =>
      match checkedAdd sectorCount stepSectors with
      | some next => .inr next
      | none => .inl (.error growthOverflowError)
    | .error err => .inl (.error err)

/-- The smallest sector count, growing in steps from a base, where the request can be placed; `none`
when more iterations are needed. -/
def smallestDisk (iterations : ℕ) (baseSectors : UInt64) : Option (Result UInt64) :=
  loop (growDisk sectorSize stepSectors diskGuid request) iterations baseSectors

/-- The request can be placed on a new table for a disk of so many sectors. -/
def Placeable (sectors : ℕ) : Prop :=
  ∃ table placement, Table.create (UInt64.ofNat sectors) sectorSize diskGuid = .ok table ∧
    (request.place table sectorSize).2 = .ok placement

end

variable {sectorSize stepSectors : UInt64} {diskGuid : Guid} {request : PlacementRequest}
  {sectorCount : UInt64}

theorem create_ne_invalidPlacement (message : String) :
    Table.create sectorCount sectorSize diskGuid ≠ .error (.invalidPlacement message) := by
  unfold Table.create
  split <;> simp

theorem growDisk_cases {outcome : Result UInt64 ⊕ UInt64}
    (h : growDisk sectorSize stepSectors diskGuid request sectorCount = outcome) :
    (outcome = .inl (.ok sectorCount) ∧ Placeable sectorSize diskGuid request sectorCount.toNat) ∨
      (¬ Placeable sectorSize diskGuid request sectorCount.toNat ∧
        ((∃ next, checkedAdd sectorCount stepSectors = some next ∧ outcome = .inr next) ∨
          (checkedAdd sectorCount stepSectors = none ∧
            outcome = .inl (.error growthOverflowError)))) ∨
      ∃ err, outcome = .inl (.error err) ∧ ∀ message, err ≠ .invalidPlacement message := by
  unfold growDisk at h
  have hp : Placeable sectorSize diskGuid request sectorCount.toNat ↔
      ∃ table placement, Table.create sectorCount sectorSize diskGuid = .ok table ∧
        (request.place table sectorSize).2 = .ok placement := by
    rw [Placeable, UInt64.ofNat_toNat]
  cases hc : Table.create sectorCount sectorSize diskGuid with
  | error err =>
    rw [hc] at h
    refine .inr (.inr ⟨err, h.symm, fun message he => ?_⟩)
    exact create_ne_invalidPlacement message (he ▸ hc)
  | ok table =>
    simp only [hc, Except.ok.injEq, exists_and_left, exists_eq_left'] at h hp
    cases hpl : (request.place table sectorSize).2 with
    | ok placement =>
      rw [hpl] at h
      exact .inl ⟨h.symm, hp.2 ⟨placement, hpl⟩⟩
    | error err =>
      have hn : ¬ Placeable sectorSize diskGuid request sectorCount.toNat := by
        simp [hp, hpl]
      rw [hpl] at h
      cases err with
      | invalidPlacement message =>
        refine .inr (.inl ⟨hn, ?_⟩)
        cases ha : checkedAdd sectorCount stepSectors with
        | none => exact .inr ⟨rfl, by simpa [ha] using h.symm⟩
        | some next => exact .inl ⟨next, rfl, by simpa [ha] using h.symm⟩
      | io message => exact .inr (.inr ⟨_, h.symm, by simp⟩)
      | gpt message => exact .inr (.inr ⟨_, h.symm, by simp⟩)

/-- The search goes on after a size that does not do, with the next one. -/
theorem growDisk_eq_inr {next : UInt64}
    (h : growDisk sectorSize stepSectors diskGuid request sectorCount = .inr next) :
    ¬ Placeable sectorSize diskGuid request sectorCount.toNat ∧
      checkedAdd sectorCount stepSectors = some next := by
  rcases growDisk_cases h with ⟨hok, -⟩ | ⟨hn, ⟨next', ha, heq⟩ | ⟨-, hf⟩⟩ | ⟨err, he, -⟩
  · cases hok
  · exact ⟨hn, Sum.inr.inj heq ▸ ha⟩
  · cases hf
  · cases he

/-- The sizes up to the one that is tried next, in steps from the base, do not do. -/
def Searched (sectorSize stepSectors : UInt64) (diskGuid : Guid) (request : PlacementRequest)
    (baseSectors sectorCount : UInt64) : Prop :=
  ∃ k, sectorCount.toNat = baseSectors.toNat + k * stepSectors.toNat ∧
    ∀ j < k, ¬ Placeable sectorSize diskGuid request (baseSectors.toNat + j * stepSectors.toNat)

/-- A size that does not do is added to those searched. -/
theorem Searched.next {baseSectors next : UInt64}
    (h : Searched sectorSize stepSectors diskGuid request baseSectors sectorCount)
    (hn : ¬ Placeable sectorSize diskGuid request sectorCount.toNat)
    (ha : checkedAdd sectorCount stepSectors = some next) :
    Searched sectorSize stepSectors diskGuid request baseSectors next := by
  obtain ⟨k, hk, hb⟩ := h
  refine ⟨k + 1, ?_, fun j hj => ?_⟩
  · rw [checkedAdd_eq_some_iff.1 ha, hk, Nat.succ_mul, Nat.add_assoc]
  · rcases Nat.lt_succ_iff_lt_or_eq.1 hj with hj | rfl
    · exact hb j hj
    · rwa [← hk]

/-- What the search says with the result it returns. -/
structure Answers (sectorSize stepSectors : UInt64) (diskGuid : Guid) (request : PlacementRequest)
    (baseSectors : UInt64) (result : Result UInt64) : Prop where
  least : ∀ sectors, result = .ok sectors →
    ∃ k, sectors.toNat = baseSectors.toNat + k * stepSectors.toNat ∧
      Placeable sectorSize diskGuid request sectors.toNat ∧
      ∀ j < k, ¬ Placeable sectorSize diskGuid request (baseSectors.toNat + j * stepSectors.toNat)
  hopeless : ∀ message, result = .error (.invalidPlacement message) →
    ∀ k, baseSectors.toNat + k * stepSectors.toNat ≤ 2 ^ 64 - 1 →
      ¬ Placeable sectorSize diskGuid request (baseSectors.toNat + k * stepSectors.toNat)

/-- An iteration that returns answers for all the sizes. -/
theorem answers_growDisk {baseSectors : UInt64} {result : Result UInt64}
    (hs : Searched sectorSize stepSectors diskGuid request baseSectors sectorCount)
    (h : growDisk sectorSize stepSectors diskGuid request sectorCount = .inl result) :
    Answers sectorSize stepSectors diskGuid request baseSectors result := by
  obtain ⟨k, hk, hb⟩ := hs
  rcases growDisk_cases h with ⟨hok, hp⟩ | ⟨hnt, ⟨next, -, hn⟩ | ⟨hf, ho⟩⟩ | ⟨err, he, hot⟩
  · obtain rfl := Sum.inl.inj hok
    refine ⟨fun sectors hsc => ?_, fun message hm => by simp at hm⟩
    cases hsc
    exact ⟨k, hk, hp, hb⟩
  · cases hn
  · obtain rfl := Sum.inl.inj ho
    refine ⟨fun sectors hsc => by simp at hsc, fun message _ j hj hp => ?_⟩
    have hf := checkedAdd_eq_none_iff.1 hf
    rcases lt_trichotomy j k with hlt | rfl | hgt
    · exact hb j hlt hp
    · exact hnt (hk ▸ hp)
    · -- the size after the last one tried does not fit in a word
      have hle : (k + 1) * stepSectors.toNat ≤ j * stepSectors.toNat := mul_le_mul_right _ hgt
      rw [succ_mul] at hle
      omega
  · obtain rfl := Sum.inl.inj he
    refine ⟨fun sectors hsc => by simp at hsc, fun message hm => ?_⟩
    exact absurd (Except.error.inj hm) (hot message)

/-- **The smallest disk**: with steps of at least one sector the search ends. A size that it returns
is the first one in steps from the base on which the request can be placed, and where it reports
that the request cannot be placed, it can be placed on none of the sizes that fit in a word. -/
theorem smallestDisk_spec (baseSectors sectorSize stepSectors : UInt64) (diskGuid : Guid)
    (request : PlacementRequest) (hstep : 1 ≤ stepSectors) :
    (∃ n result, smallestDisk sectorSize stepSectors diskGuid request n baseSectors = some result) ∧
      ∀ n result, smallestDisk sectorSize stepSectors diskGuid request n baseSectors =
        some result → Answers sectorSize stepSectors diskGuid request baseSectors result := by
  constructor
  · refine exists_loop_eq_some (fun sectorCount => 2 ^ 64 - sectorCount.toNat) ?_ baseSectors
    intro sectorCount next hn
    have ha := checkedAdd_eq_some_iff.1 (growDisk_eq_inr hn).2
    have hlt := next.toNat_lt
    have hstep : 1 ≤ stepSectors.toNat := UInt64.le_iff_toNat_le.1 hstep
    omega
  · intro n result h
    refine loop_invariant (fun sectorCount result hs hb => answers_growDisk hs hb) ?_ ?_ h
    · intro sectorCount next hs hn
      obtain ⟨hnt, ha⟩ := growDisk_eq_inr hn
      exact hs.next hnt ha
    · exact ⟨0, by simp, fun j hj => absurd hj (not_lt_zero j)⟩

/-- Ten blocks from a multiple of eight on need 84 sectors in steps of eight from 68: the two sizes
before are too small. -/
theorem smallestDisk_tenBlocks :
    smallestDisk 512 8 (List.Vector.replicate 16 0) tenBlocks 3 68 = some (.ok 84) ∧
      Answers 512 8 (List.Vector.replicate 16 0) tenBlocks 68 (.ok 84) := by
  have h : smallestDisk 512 8 (List.Vector.replicate 16 0) tenBlocks 3 68 = some (.ok 84) := by
    decide +kernel
  exact ⟨h, (smallestDisk_spec 68 512 8 (List.Vector.replicate 16 0) tenBlocks (by decide)).2 3 _ h⟩

end Muak.Parttable
