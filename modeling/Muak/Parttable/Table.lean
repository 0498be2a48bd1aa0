import Mathlib.Data.Vector.Basic
import Muak.Foundations.Word

/-!
# The in-memory partition table

`libs/parttable/src/gpt/table.rs`: a GPT table holds 128 partition slots, the identity of the disk
and the range of usable blocks. Partition numbers start at one; the lookups map number zero to the
first slot as well, because they subtract with saturation.

* `Table.create` computes the geometry of a new table.
* `getElem?_setEntry`, `removePartition_cases` say what the mutations do to the slots.
-/

namespace Muak.Parttable

open Word List

/-- Errors returned by the operations on partition tables. -/
inductive ParttableError
  | io (message : String)
  | gpt (message : String)
  | invalidPlacement (message : String)
  deriving DecidableEq

abbrev Result := Except ParttableError

/-- Number of partition entry slots. -/
def entriesCount : ℕ := 128

/-- Size in bytes of one partition entry. -/
def entrySize : ℕ := 128

/-- A globally unique identifier, as its bytes. -/
abbrev Guid := List.Vector UInt8 16

/-- A partition entry. The last block is inclusive. -/
structure Partition where
  typeGuid : Guid
  uniqueGuid : Guid
  startingLba : UInt64
  endingLba : UInt64
  attributes : UInt64
  name : String
  deriving DecidableEq

/-- A partition table with all its slots. -/
structure Table where
  sectorSize : UInt64
  diskGuid : Guid
  firstUsableLba : UInt64
  lastUsableLba : UInt64
  entries : List (Option Partition)
  length_entries : entries.length = entriesCount
  deriving DecidableEq

/-- The number of sectors that the partition entries take. -/
def entriesSectors (sectorSize : UInt64) : UInt64 :=
  divCeil (satMul (UInt64.ofNat entrySize) (UInt64.ofNat entriesCount)) sectorSize

/-- The number of the slot at an index. -/
def slotNumber (index : ℕ) : ℕ := index + 1

namespace Table

/-- A new table from the geometry of the disk. -/
def create (sectorCount sectorSize : UInt64) (diskGuid : Guid) : Result Table :=
  let firstUsable := satAdd 2 (entriesSectors sectorSize)
  match (checkedSub sectorCount (entriesSectors sectorSize)).bind (checkedSub · 2) with
  | none => .error (.gpt "disk too small for GPT")
  | some lastUsable =>
    .ok {
      sectorSize, diskGuid
      firstUsableLba := firstUsable
      lastUsableLba := lastUsable
      entries := replicate entriesCount none
      length_entries := length_replicate }

section

variable (table : Table)

/-- The size in bytes of the primary region: protective MBR, header and entries. -/
def primaryGptSize : UInt64 := satMul table.firstUsableLba table.sectorSize

/-- The byte offset of the backup region: entries, then header. -/
def backupDataOffset (sectorCount : UInt64) : UInt64 :=
  satMul (satSub (satSub sectorCount 1) (entriesSectors table.sectorSize)) table.sectorSize

/-- The used partition at a number. -/
def partition (number : ℕ) : Option Partition :=
  (table.entries[number - 1]?).join

def isPartitionUsed (number : ℕ) : Bool := (table.partition number).isSome

/-- The largest last block of a used partition. -/
def lastUsedEndingLba : Option UInt64 :=
  ((table.entries.filterMap id).map (·.endingLba)).max?

/-- The first free partition number. -/
def nextFreeSlot : Option ℕ :=
  (range' 1 entriesCount).find? fun number => !table.isPartitionUsed number

/-- The used partitions with their numbers. -/
def partitions : List (ℕ × Partition) :=
  table.entries.zipIdx.filterMap fun (entry, index) => entry.map (slotNumber index, ·)

/-- Replace the entry at an index; an index without a slot changes nothing. -/
def setEntry (index : ℕ) (entry : Option Partition) : Table :=
  { table with
    entries := table.entries.set index entry
    length_entries := by rw [length_set, table.length_entries] }

/-- Set the slot of a number. -/
def setPartition (number : ℕ) (partition : Partition) : Table :=
  table.setEntry (number - 1) (some partition)

/-- Free the slot of a number. -/
def removePartition (number : ℕ) : Table × Result Unit :=
  match number with
  | 0 => (table, .error (.gpt "invalid partition number"))
  | index + 1 =>
    match table.entries[index]? with
    | none => (table, .error (.gpt "partition number out of range"))
    | some none => (table, .error (.gpt ("partition " ++ toString number ++ " is already not set")))
    | some (some _) => (table.setEntry index none, .ok ())

end

/-! ## The slots -/

variable {table : Table} {p : Partition} {i number : ℕ}

theorem mem_partitions : (number, p) ∈ table.partitions ↔
    ∃ i, number = slotNumber i ∧ table.entries[i]? = some (some p) := by
  simp only [partitions, mem_filterMap, Prod.exists, mem_zipIdx_iff_getElem?,
    Option.map_eq_some_iff, Prod.mk.injEq]
  constructor
  · rintro ⟨entry, i, hi, q, rfl, rfl, rfl⟩
    exact ⟨i, rfl, hi⟩
  · rintro ⟨i, rfl, hi⟩
    exact ⟨some p, i, hi, p, rfl, rfl, rfl⟩

/-- A used slot after `setEntry` holds the new entry or what it held before. -/
theorem getElem?_setEntry {index : ℕ} {entry : Option Partition}
    (h : (table.setEntry index entry).entries[i]? = some (some p)) :
    (i = index ∧ entry = some p) ∨ (i ≠ index ∧ table.entries[i]? = some (some p)) := by
  simp only [setEntry, getElem?_set] at h
  split_ifs at h with hi hlt
  · exact .inl ⟨hi.symm, Option.some.inj h⟩
  · exact .inr ⟨Ne.symm hi, h⟩

/-- `removePartition` fails and changes nothing, or it empties one slot. -/
theorem removePartition_cases (table : Table) (number : ℕ) :
    (∃ e, table.removePartition number = (table, .error e)) ∨
      ∃ index, table.removePartition number = (table.setEntry index none, .ok ()) := by
  cases number with
  | zero => exact .inl ⟨_, rfl⟩
  | succ index =>
    cases h : table.entries[index]? with
    | none => exact .inl ⟨_, by simp only [removePartition, h]; rfl⟩
    | some entry =>
      cases entry with
      | none => exact .inl ⟨_, by simp only [removePartition, h]; rfl⟩
      | some q => exact .inr ⟨index, by simp [removePartition, h]⟩

end Table

end Muak.Parttable
