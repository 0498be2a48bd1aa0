import Muak.Parttable.Layout

/-!
# What a placement promises

A placement that is returned names a free slot of the table and a range of blocks, and the table
lists that partition beside those it had.

* `partitions_setPartition`: filling a free slot adds one partition.
* `sound_iff`: a returned placement keeps its promise when, and only when, the slot asked for is one
  of the table and the rounded start does not wrap around to a block off the alignment.
* `exact_slot_outside`: a slot behind the table is reported as placed and nothing is stored.

`partition` and `set_partition` turn a number into an index with a saturating subtraction, so the
number zero stands for the first slot, and a number behind the table is free and cannot be set.
-/

namespace Muak.Parttable

open Word Except

/-! ## Filling a slot -/

/-- Filling an empty entry adds its number to those listed. -/
theorem filterMap_set_perm (entries : List (Option Partition)) (i k : ℕ) (p : Partition)
    (h : entries[i]? = some none) :
    (((entries.set i (some p)).zipIdx k).filterMap fun (entry, index) =>
        entry.map (slotNumber index, ·)).Perm
      ((slotNumber (k + i), p) :: (entries.zipIdx k).filterMap fun (entry, index) =>
        entry.map (slotNumber index, ·)) := by
  induction entries generalizing i k with
  | nil => cases h
  | cons entry entries ih =>
    cases i with
    | zero =>
      cases h
      simp
    | succ i =>
      have ih := ih i (k + 1) h
      rw [Nat.add_right_comm] at ih
      cases entry with
      | none => exact ih
      | some q => exact (ih.cons _).trans (List.Perm.swap _ _ _)

/-- **Filling a free slot** of the table adds one partition to those listed. -/
theorem partitions_setPartition {table : Table} {number : ℕ} (p : Partition) (hp : 1 ≤ number)
    (hle : number ≤ entriesCount) (hf : table.partition number = none) :
    (table.setPartition number p).partitions.Perm ((number, p) :: table.partitions) := by
  have hlt : number - 1 < table.entries.length := by
    rw [table.length_entries]
    omega
  have he : table.entries[number - 1]? = some none := by
    rw [Table.partition, List.getElem?_eq_getElem hlt, Option.join_some] at hf
    rw [List.getElem?_eq_getElem hlt, hf]
  have h := filterMap_set_perm table.entries (number - 1) 0 p he
  rwa [slotNumber, Nat.zero_add, Nat.sub_add_cancel hp] at h

/-! ## Returned placements -/

/-- A call of `place` that returned a placement. With an alignment or a sector size of zero it does
not return. -/
structure Placed where
  table : Table
  request : PlacementRequest
  sectorSize : UInt64
  placement : Placement
  alignmentLba_ne_zero : request.alignmentLba ≠ 0
  sectorSize_ne_zero : sectorSize ≠ 0
  place_eq : (request.place table sectorSize).2 = .ok placement

/-- The range holds what was asked for. -/
def Covers (table : Table) (sectorSize : UInt64) (p : Partition) : Size → Prop
  | .bytes bytes =>
    bytes.toNat ≤ (p.endingLba.toNat + 1 - p.startingLba.toNat) * sectorSize.toNat
  | .lbas lbas => lbas.toNat ≤ p.endingLba.toNat + 1 - p.startingLba.toNat
  | .fillToLastUsable => p.endingLba = table.lastUsableLba

/-- The slot is one of the table. -/
def Slot.InTable : Slot → Prop
  | .auto => True
  | .exact number => 1 ≤ number ∧ number ≤ entriesCount

/-- The start, rounded up, fits in a word, or the words wrap around at a multiple of the
alignment. -/
def PlacementRequest.RoundsTo (request : PlacementRequest) (table : Table) : Prop :=
  ∀ anchor, resolveStartAnchor table request.start = .ok anchor →
    U64.divCeil anchor.toNat request.alignmentLba.toNat * request.alignmentLba.toNat < 2 ^ 64 ∨
      request.alignmentLba.toNat ∣ 2 ^ 64

namespace Placed

variable (c : Placed)

/-- The table afterwards. -/
def after : Table := (c.request.place c.table c.sectorSize).1

/-- What a returned placement promises. -/
structure Sound : Prop where
  listed : c.after.partitions.Perm
    ((c.placement.number, c.placement.partition) :: c.table.partitions)
  slot : 1 ≤ c.placement.number ∧ c.placement.number ≤ entriesCount
  unused : ∀ p, (c.placement.number, p) ∉ c.table.partitions
  aligned : c.request.alignmentLba.toNat ∣ c.placement.partition.startingLba.toNat
  covers : Covers c.table c.sectorSize c.placement.partition c.request.size

theorem resolve_eq : c.request.resolve c.table c.sectorSize = .ok c.placement := by
  have h := c.place_eq
  unfold PlacementRequest.place at h
  split at h
  · cases h
  · next placement hp =>
    rw [hp, ok.inj h]

theorem after_eq : c.after = c.table.setPartition c.placement.number c.placement.partition := by
  rw [after, PlacementRequest.place, c.resolve_eq]

theorem exists_resolved : ∃ anchor, resolveSlot c.table c.request.slot = .ok c.placement.number ∧
    resolveStartAnchor c.table c.request.start = .ok anchor ∧
    c.placement.partition.startingLba = nextMultipleOf anchor c.request.alignmentLba ∧
    resolveEndLba c.table c.placement.partition.startingLba c.request.size c.sectorSize =
      .ok c.placement.partition.endingLba := by
  have h := c.resolve_eq
  simp only [PlacementRequest.resolve, bind_eq_ok_iff] at h
  obtain ⟨number, hn, anchor, ha, endLba, he, -, -, hp⟩ := h
  rw [← ok.inj hp]
  exact ⟨anchor, hn, ha, rfl, he⟩

theorem partition_eq_none : c.table.partition c.placement.number = none :=
  (resolve_eq_ok c.resolve_eq).1

end Placed

/-- A range that ends after so many blocks has them. -/
theorem checkedEndLba_eq_ok {start lbas endLba : UInt64}
    (h : (nonzeroLbas lbas >>= fun lbas => checkedEndLba start lbas) = .ok endLba) :
    endLba.toNat + 1 - start.toNat = lbas.toNat := by
  obtain ⟨lbas', hl, he⟩ := of_bind h
  unfold nonzeroLbas at hl
  split_ifs at hl with hz
  cases hl
  have ha := checkedAdd_eq_some_iff.1 (okOr_eq_ok_iff.1 he)
  have hp : lbas.toNat ≠ 0 := fun h => hz (UInt64.toNat_inj.1 h)
  rw [toNat_satSub, UInt64.toNat_one] at ha
  omega

namespace Placed

variable (c : Placed)

/-- The range always holds what was asked for. -/
theorem covers_size : Covers c.table c.sectorSize c.placement.partition c.request.size := by
  obtain ⟨anchor, -, -, -, he⟩ := c.exists_resolved
  cases hs : c.request.size with
  | bytes bytes =>
    rw [hs] at he
    have hlen := checkedEndLba_eq_ok he
    rw [Covers, hlen, toNat_divCeil c.sectorSize_ne_zero]
    exact U64.le_divCeil_mul
      (Nat.pos_of_ne_zero fun h => c.sectorSize_ne_zero (UInt64.toNat_inj.1 h))
  | lbas lbas =>
    rw [hs] at he
    exact (checkedEndLba_eq_ok he).ge
  | fillToLastUsable =>
    rw [hs] at he
    exact (ok.inj he).symm

/-- The start is aligned where the rounded anchor is. -/
theorem aligned_iff : c.request.alignmentLba.toNat ∣ c.placement.partition.startingLba.toNat ↔
    c.request.RoundsTo c.table := by
  obtain ⟨anchor, -, ha, hs, -⟩ := c.exists_resolved
  rw [hs, dvd_toNat_nextMultipleOf_iff c.alignmentLba_ne_zero]
  constructor
  · intro h anchor' ha'
    rw [ha] at ha'
    cases ha'
    exact h
  · intro h
    exact h anchor ha

/-- The number returned is in the table where the slot asked for is. -/
theorem number_inTable_iff : 1 ≤ c.placement.number ∧ c.placement.number ≤ entriesCount ↔
    c.request.slot.InTable := by
  obtain ⟨anchor, hs, -, -, -⟩ := c.exists_resolved
  cases hr : c.request.slot with
  | auto =>
    rw [hr] at hs
    have hm := List.mem_of_find?_eq_some (okOr_eq_ok_iff.1 hs)
    rw [List.mem_range'_1] at hm
    simp only [Slot.InTable, iff_true]
    omega
  | exact number =>
    rw [hr] at hs
    simp only [resolveSlot, resolveExactSlot] at hs
    split_ifs at hs
    rw [← ok.inj hs, Slot.InTable]

/-- **Placements**: a returned placement keeps its promise exactly when the slot asked for is one of
the table and the rounded start does not wrap around to a block off the alignment. -/
theorem sound_iff (c : Placed) : c.Sound ↔ c.request.slot.InTable ∧ c.request.RoundsTo c.table := by
  constructor
  · intro h
    exact ⟨c.number_inTable_iff.1 h.slot, c.aligned_iff.1 h.aligned⟩
  · rintro ⟨hs, hr⟩
    obtain ⟨hps, hle⟩ := c.number_inTable_iff.2 hs
    refine ⟨?_, ⟨hps, hle⟩, fun p hp => ?_, c.aligned_iff.2 hr, c.covers_size⟩
    · rw [c.after_eq]
      exact partitions_setPartition _ hps hle c.partition_eq_none
    · obtain ⟨i, hi, he⟩ := Table.mem_partitions.1 hp
      have hf := c.partition_eq_none
      rw [Table.partition, hi, slotNumber, Nat.add_sub_cancel, he] at hf
      cases hf

end Placed

/-- The request for ten blocks, in slot 129. -/
def behindTable : PlacementRequest := { tenBlocks with slot := .exact 129 }

/-- **A slot behind the table**: on a new table the request for slot 129 returns a placement with
that number, and the table has no partition afterwards. -/
theorem exact_slot_outside : ∃ c : Placed,
    Table.create 4096 512 (List.Vector.replicate 16 0) = .ok c.table ∧ c.sectorSize = 512 ∧
      c.request = behindTable ∧ c.placement.number = 129 ∧ c.after.partitions = [] ∧
      ¬ c.Sound := by
  obtain ⟨table, p, hc, hp, hn⟩ : ∃ table p,
      Table.create 4096 512 (List.Vector.replicate 16 0) = .ok table ∧
        (behindTable.place table 512).2 = .ok ⟨129, p⟩ ∧
        (behindTable.place table 512).1.partitions = [] :=
    ⟨_, _, rfl, rfl, by decide +kernel⟩
  refine ⟨⟨table, behindTable, 512, ⟨129, p⟩, by decide, by decide, hp⟩, hc, rfl, rfl, rfl,
    hn, fun h => ?_⟩
  exact absurd h.slot.2 (by decide : ¬ 129 ≤ entriesCount)

end Muak.Parttable
