import Muak.Foundations.Result
import Muak.Foundations.Run
import Muak.Parttable.Table

/-!
# Placing partitions

`libs/parttable/src/gpt/layout.rs`: a request selects a slot, a start and a size; the resolved range
is checked against the usable blocks and the other partitions before the table changes.

* `validatePartitionRange_eq_ok_iff`: what the range check accepts.
* `wellPlaced_step`: placing and removing keep the partitions disjoint and within the usable range.
* `wellPlaced_run`: so does every sequence of calls on a new table, and a call that fails changes
  nothing.

The code panics on an alignment or a sector size of zero; `UInt64` divides by zero instead, so the
results below hold for those requests too. A start that does not fit after rounding up wraps around
as in a release build.
-/

namespace Muak.Parttable

open Word

/-- How the slot is chosen. -/
inductive Slot
  | auto
  | exact (number : ℕ)
  deriving DecidableEq

/-- How the first block is chosen. -/
inductive Start
  | firstUsable
  | afterLastUsed
  | atOrAfter (lba : UInt64)
  | afterPartition (number : ℕ)
  deriving DecidableEq

/-- How the size is chosen. -/
inductive Size
  | bytes (bytes : UInt64)
  | lbas (lbas : UInt64)
  | fillToLastUsable
  deriving DecidableEq

/-- The resolved placement. -/
structure Placement where
  number : ℕ
  partition : Partition
  deriving DecidableEq

/-- A placement request. -/
structure PlacementRequest where
  slot : Slot
  start : Start
  size : Size
  alignmentLba : UInt64
  typeGuid : Guid
  uniqueGuid : Guid
  attributes : UInt64
  name : String
  deriving DecidableEq

/-- The block behind another one. -/
def checkedNextLba (endingLba : UInt64) (context : String) : Result UInt64 :=
  okOr (checkedAdd endingLba 1) (.invalidPlacement ("partition start LBA overflowed " ++ context))

def checkedEndLba (start lbas : UInt64) : Result UInt64 :=
  okOr (checkedAdd start (satSub lbas 1)) (.invalidPlacement "partition end LBA overflowed")

/-- A size that is not zero. -/
def nonzeroLbas (lbas : UInt64) : Result UInt64 :=
  if lbas ≠ 0 then .ok lbas
  else .error (.invalidPlacement "partition size must be greater than zero")

section

variable (table : Table)

/-- The block where a search begins. -/
def resolveStartAnchor : Start → Result UInt64
  | .firstUsable => .ok table.firstUsableLba
  | .afterLastUsed =>
    match table.lastUsedEndingLba with
    | none => .ok table.firstUsableLba
    | some lba => checkedNextLba lba "after last used partition"
  | .atOrAfter lba => .ok lba
  | .afterPartition number =>
    match table.partition number with
    | some partition =>
      checkedNextLba partition.endingLba ("after partition " ++ toString number)
    | none =>
      .error (.invalidPlacement ("cannot place after missing partition " ++ toString number))

/-- A certain slot, if it is free. -/
def resolveExactSlot (number : ℕ) : Result ℕ :=
  if !table.isPartitionUsed number then .ok number
  else .error (.invalidPlacement ("partition slot " ++ toString number ++ " is already in use"))

/-- The slot that `place` uses. -/
def resolveSlot : Slot → Result ℕ
  | .auto => okOr table.nextFreeSlot (.invalidPlacement "no free GPT partition slots")
  | .exact number => resolveExactSlot table number

def resolveEndLba (start : UInt64) (size : Size) (sectorSize : UInt64) : Result UInt64 :=
  match size with
  | .bytes bytes => do
    let lbas ← nonzeroLbas (divCeil bytes sectorSize)
    checkedEndLba start lbas
  | .lbas lbas => do
    let lbas ← nonzeroLbas lbas
    checkedEndLba start lbas
  | .fillToLastUsable => .ok table.lastUsableLba

/-- The number of a partition that the range overlaps, other than the partition itself. -/
def overlapping (number : ℕ) (start endLba : UInt64) : Option ℕ :=
  table.partitions.findSome? fun (n, entry) =>
    if n ≠ number ∧ start ≤ entry.endingLba ∧ endLba ≥ entry.startingLba then some n else none

/-- The blocks are usable and free. -/
def validatePartitionRange (number : ℕ) (start endLba : UInt64) : Result Unit :=
  if start > endLba then
    .error (.invalidPlacement ("partition " ++ toString number ++ " start LBA " ++ toString start ++
      " is after end LBA " ++ toString endLba))
  else if start < table.firstUsableLba then
    .error (.invalidPlacement ("partition " ++ toString number ++ " starts before first usable LBA "
      ++ toString table.firstUsableLba))
  else if endLba > table.lastUsableLba then
    .error (.invalidPlacement ("partition " ++ toString number ++ " ends after last usable LBA " ++
      toString table.lastUsableLba))
  else
    match overlapping table number start endLba with
    | some existingNumber =>
      .error (.invalidPlacement ("partition " ++ toString number ++ " overlaps partition " ++
        toString existingNumber))
    | none => .ok ()

end

namespace PlacementRequest

/-- The placement that a request resolves to: everything `place` does before it changes the
table. -/
def resolve (self : PlacementRequest) (table : Table) (sectorSize : UInt64) : Result Placement := do
  let number ← resolveSlot table self.slot
  let anchor ← resolveStartAnchor table self.start
  let start := nextMultipleOf anchor self.alignmentLba
  let endLba ← resolveEndLba table start self.size sectorSize
  validatePartitionRange table number start endLba
  return {
    number
    partition := {
      typeGuid := self.typeGuid
      uniqueGuid := self.uniqueGuid
      startingLba := start
      endingLba := endLba
      attributes := self.attributes
      name := self.name } }

/-- Place one partition into the table. -/
def place (self : PlacementRequest) (table : Table) (sectorSize : UInt64) :
    Table × Result Placement :=
  match self.resolve table sectorSize with
  | .error e => (table, .error e)
  | .ok placement =>
    (table.setPartition placement.number placement.partition, .ok placement)

end PlacementRequest

/-- A call that changes a table. -/
inductive Call
  | place (request : PlacementRequest) (sectorSize : UInt64)
  | remove (number : ℕ)
  deriving DecidableEq

/-- The table after a call, and the error it returned. -/
def Call.run (table : Table) : Call → Table × Result Unit
  | .place request sectorSize =>
    ((request.place table sectorSize).1, (request.place table sectorSize).2.map fun _ => ())
  | .remove number => table.removePartition number

/-- The table after a call. -/
def Call.step (table : Table) (call : Call) : Table := (call.run table).1

/-! ## The checks -/

variable {table : Table} {number : ℕ} {start endLba : UInt64} {sectorCount sectorSize : UInt64}
  {diskGuid : Guid}

theorem overlapping_eq_none_iff : overlapping table number start endLba = none ↔
      ∀ n entry, (n, entry) ∈ table.partitions → n ≠ number →
        entry.endingLba < start ∨ endLba < entry.startingLba := by
  simp only [overlapping, List.findSome?_eq_none_iff, Prod.forall, ite_eq_right_iff, reduceCtorEq,
    imp_false, not_and, UInt64.not_le]
  refine forall₃_congr fun n entry _ => forall_congr' fun _ => ?_
  constructor
  · intro h
    by_cases hle : start ≤ entry.endingLba
    · exact .inr (h hle)
    · exact .inl (UInt64.not_le.1 hle)
  · rintro (h | h) hle
    · exact absurd hle (UInt64.not_le.2 h)
    · exact h

/-- **What the range check accepts.** -/
theorem validatePartitionRange_eq_ok_iff :
    validatePartitionRange table number start endLba = .ok () ↔
      start ≤ endLba ∧ table.firstUsableLba ≤ start ∧ endLba ≤ table.lastUsableLba ∧
      ∀ n entry, (n, entry) ∈ table.partitions → n ≠ number →
        entry.endingLba < start ∨ endLba < entry.startingLba := by
  rw [← overlapping_eq_none_iff]
  unfold validatePartitionRange
  split_ifs with h₁ h₂ h₃
  · simp [UInt64.not_le.2 h₁]
  · simp [UInt64.not_le.2 h₂]
  · simp [UInt64.not_le.2 h₃]
  · simp only [UInt64.not_lt.1 h₁, UInt64.not_lt.1 h₂, UInt64.not_lt.1 h₃]
    cases overlapping table number start endLba <;> simp

theorem resolveSlot_eq_ok {slot : Slot} (h : resolveSlot table slot = .ok number) :
    table.partition number = none := by
  cases slot with
  | auto => simpa [Table.isPartitionUsed] using List.find?_some (okOr_eq_ok_iff.1 h)
  | exact n =>
    simp only [resolveSlot, resolveExactSlot] at h
    split_ifs at h with hu
    cases h
    simpa [Table.isPartitionUsed] using hu

/-- The slot that a placement resolves to is free, and its range has passed the check. -/
theorem resolve_eq_ok {request : PlacementRequest} {placement : Placement}
    (h : request.resolve table sectorSize = .ok placement) :
    table.partition placement.number = none ∧
      validatePartitionRange table placement.number placement.partition.startingLba
        placement.partition.endingLba = .ok () := by
  simp only [PlacementRequest.resolve, bind_eq_ok_iff] at h
  obtain ⟨number, hn, anchor, -, endLba, -, ⟨⟩, hv, hp⟩ := h
  cases hp
  exact ⟨resolveSlot_eq_ok hn, hv⟩

/-! ## Runs -/

/-- The used partitions are disjoint and within the usable range. -/
structure WellPlaced (table : Table) : Prop where
  range : ∀ (i : ℕ) p, table.entries[i]? = some (some p) →
    table.firstUsableLba ≤ p.startingLba ∧ p.startingLba ≤ p.endingLba ∧
      p.endingLba ≤ table.lastUsableLba
  disjoint : ∀ (i j : ℕ) p q, i ≠ j → table.entries[i]? = some (some p) →
    table.entries[j]? = some (some q) → p.endingLba < q.startingLba ∨ q.endingLba < p.startingLba

theorem wellPlaced_create (h : Table.create sectorCount sectorSize diskGuid = .ok table) :
    WellPlaced table := by
  have he : ∀ (i : ℕ) p, table.entries[i]? ≠ some (some p) := by
    intro i p hp
    unfold Table.create at h
    split at h
    · cases h
    · cases h
      simp [List.getElem?_replicate] at hp
  exact ⟨fun i p hp => absurd hp (he i p), fun i j p q _ hp => absurd hp (he i p)⟩

theorem WellPlaced.setEntry_none (h : WellPlaced table) (index : ℕ) :
    WellPlaced (table.setEntry index none) := by
  have ho : ∀ {i : ℕ} {p}, (table.setEntry index none).entries[i]? = some (some p) →
      table.entries[i]? = some (some p) := fun hp =>
    (Table.getElem?_setEntry hp).elim (fun hn => by simp at hn) And.right
  exact ⟨fun i p hp => h.range i p (ho hp),
    fun i j p q hij hp hq => h.disjoint i j p q hij (ho hp) (ho hq)⟩

/-- Filling a free slot with a range that has passed the check. -/
theorem WellPlaced.setPartition (h : WellPlaced table) {new : Partition}
    (hfr : table.partition number = none)
    (hv : validatePartitionRange table number new.startingLba new.endingLba = .ok ()) :
    WellPlaced (table.setPartition number new) := by
  obtain ⟨hle, hf, hl, hc⟩ := validatePartitionRange_eq_ok_iff.1 hv
  -- the check skips the number itself, whose slot is free
  have ho : ∀ (i : ℕ) p, table.entries[i]? = some (some p) →
      p.endingLba < new.startingLba ∨ new.endingLba < p.startingLba := by
    intro i p hp
    refine hc (slotNumber i) p (Table.mem_partitions.2 ⟨i, rfl, hp⟩) fun heq => ?_
    have hi : number - 1 = i := by simp only [slotNumber] at heq; omega
    rw [Table.partition, hi, hp] at hfr
    simp at hfr
  constructor
  · intro i p hp
    rcases Table.getElem?_setEntry hp with ⟨-, hn⟩ | ⟨-, hol⟩
    · cases hn
      exact ⟨hf, hle, hl⟩
    · exact h.range i p hol
  · intro i j p q hij hp hq
    rcases Table.getElem?_setEntry hp with ⟨hi, hp⟩ | ⟨-, hp⟩ <;>
      rcases Table.getElem?_setEntry hq with ⟨hj, hq⟩ | ⟨-, hq⟩
    · exact absurd (hi.trans hj.symm) hij
    · cases hp
      exact (ho j q hq).symm
    · cases hq
      exact ho i p hp
    · exact h.disjoint i j p q hij hp hq

/-- **Every call keeps the partitions well placed.** -/
theorem wellPlaced_step (h : WellPlaced table) (call : Call) : WellPlaced (call.step table) := by
  cases call with
  | place request sectorSize =>
    simp only [Call.step, Call.run, PlacementRequest.place]
    cases hr : request.resolve table sectorSize with
    | error e => exact h
    | ok placement =>
      obtain ⟨hf, hv⟩ := resolve_eq_ok hr
      exact h.setPartition hf hv
  | remove number =>
    simp only [Call.step, Call.run]
    rcases table.removePartition_cases number with ⟨e, heq⟩ | ⟨index, heq⟩ <;> rw [heq]
    · exact h
    · exact h.setEntry_none index

/-- **A call that fails changes nothing.** -/
theorem step_eq_of_error {call : Call} {e : ParttableError} (h : (call.run table).2 = .error e) :
    call.step table = table := by
  cases call with
  | place request sectorSize =>
    simp only [Call.step, Call.run, PlacementRequest.place] at h ⊢
    cases hr : request.resolve table sectorSize with
    | error e' => rfl
    | ok placement => simp [hr, Except.map] at h
  | remove number =>
    simp only [Call.step, Call.run] at h ⊢
    rcases table.removePartition_cases number with ⟨e', heq⟩ | ⟨index, heq⟩ <;> rw [heq] at h ⊢
    simp at h

/-- **Tables stay well placed**: after any calls on a new table the partitions are disjoint and
within the usable range, and a further call that fails leaves the table as it was. -/
theorem wellPlaced_run (h : Table.create sectorCount sectorSize diskGuid = .ok table)
    (calls : List Call) :
    WellPlaced (runFrom Call.step table calls) ∧
      ∀ (call : Call) e, (call.run (runFrom Call.step table calls)).2 = .error e →
        (call.run (runFrom Call.step table calls)).1 = runFrom Call.step table calls :=
  ⟨runFrom_invariant_always WellPlaced (fun _ call h => wellPlaced_step h call)
    (wellPlaced_create h) calls, fun _ _ he => step_eq_of_error he⟩

/-- A request for ten blocks of data in the first free slot, after the last used partition. -/
def tenBlocks : PlacementRequest where
  slot := .auto
  start := .afterLastUsed
  size := .lbas 10
  alignmentLba := 8
  typeGuid := List.Vector.replicate 16 1
  uniqueGuid := List.Vector.replicate 16 2
  attributes := 0
  name := "data"

/-- Two partitions are placed and the first one is removed; a third placement takes its number and
the blocks after the second one. -/
theorem wellPlaced_run_tenBlocks :
    let calls := [Call.place tenBlocks 512, .place tenBlocks 512, .remove 1, .place tenBlocks 512]
    ∃ table, Table.create 4096 512 (List.Vector.replicate 16 0) = .ok table ∧
      (runFrom Call.step table calls).partitions.map
        (fun e => (e.1, e.2.startingLba, e.2.endingLba)) = [(1, 72, 81), (2, 56, 65)] ∧
      WellPlaced (runFrom Call.step table calls) := by
  have h : Table.create 4096 512 (List.Vector.replicate 16 0) = .ok _ := rfl
  exact ⟨_, h, by decide +kernel, (wellPlaced_run h _).1⟩

end Muak.Parttable
