import Muak.Parttable.Layout
import Muak.Parttable.RoundTrip

/-!
# Where the copies of a table lie on the disk

The geometry of a table is computed in four places: when it is created, when its header is encoded,
when the backup copy is placed, and when a disk image is planned (`gpt/plan.rs`). The writers emit
the MBR and the header as 512 bytes each, whatever the size of a sector.

* `Agrees`: all of them agree, and the primary copy, the usable blocks and the backup copy do not
  overlap.
* `geometry_agrees_iff`: on a disk of 512-byte sectors this holds from 68 sectors on, as long as the
  size of the disk fits into 64 bits; on a disk of 4096-byte sectors it never does.
-/

namespace Muak.Parttable

open Bytes Word List

/-- The size in bytes of the primary copy that plans of disk images use. -/
def planPrimaryGptSize (sectorSize : UInt64) : UInt64 :=
  satMul (satAdd 2 (entriesSectors sectorSize)) sectorSize

section

variable (crc32 : Bytes → UInt32)

/-- The header sector of a copy of a table. -/
def headerSector (table : Table) (sectorCount : UInt64) (backup : Bool) : Bytes :=
  table.toHeader.encode crc32 backup sectorCount table.sectorSize
    (crc32 (partitionEntriesBytes table))

/-- The places of a table's copies agree. -/
structure Agrees (table : Table) (sectorCount : UInt64) : Prop where
  /-- The primary copy has its header in block 1 and its entries in block 2, and fits. -/
  primary : ∃ bytes, writePrimary crc32 table sectorCount = .ok bytes ∧
    slice bytes table.sectorSize.toNat 512 = some (headerSector crc32 table sectorCount false) ∧
    slice bytes (table.toHeader.entriesLba.toNat * table.sectorSize.toNat) entriesBytes =
      some (partitionEntriesBytes table) ∧
    bytes.length ≤ table.primaryGptSize.toNat
  plan : table.primaryGptSize = planPrimaryGptSize table.sectorSize
  usable : table.firstUsableLba ≤ table.lastUsableLba
  /-- The backup copy starts with the entries, right behind the usable blocks and where its header
  says. -/
  backup_entries : (table.backupDataOffset sectorCount).toNat =
    (table.lastUsableLba.toNat + 1) * table.sectorSize.toNat
  backup_lba : ∃ header,
    GptHeader.parse crc32 (headerSector crc32 table sectorCount true) = .ok header ∧
    header.entriesLba.toNat * table.sectorSize.toNat = (table.backupDataOffset sectorCount).toNat
  /-- The backup header is the last block of the disk. -/
  backup_header : slice (writeBackup crc32 table sectorCount) entriesBytes 512 =
      some (headerSector crc32 table sectorCount true) ∧
    (table.backupDataOffset sectorCount).toNat + entriesBytes =
      (sectorCount.toNat - 1) * table.sectorSize.toNat
  /-- The three regions follow each other. -/
  regions : table.primaryGptSize.toNat ≤ table.firstUsableLba.toNat * table.sectorSize.toNat ∧
    table.firstUsableLba.toNat * table.sectorSize.toNat <
      (table.lastUsableLba.toNat + 1) * table.sectorSize.toNat ∧
    (table.lastUsableLba.toNat + 1) * table.sectorSize.toNat ≤
      (table.backupDataOffset sectorCount).toNat

end

/-! ## Created tables -/

variable {table : Table} {sectorCount sectorSize : UInt64} {diskGuid : Guid}

theorem create_eq_ok (h : Table.create sectorCount sectorSize diskGuid = .ok table) :
    table.sectorSize = sectorSize ∧ table.firstUsableLba = satAdd 2 (entriesSectors sectorSize) ∧
      sectorCount.toNat = table.lastUsableLba.toNat + 2 + (entriesSectors sectorSize).toNat ∧
      table.entries = replicate entriesCount none := by
  unfold Table.create at h
  split at h
  · cases h
  · next lastUsable hl =>
    obtain ⟨count, hc, hl⟩ := Option.bind_eq_some_iff.1 hl
    rw [checkedSub_eq_some_iff] at hc hl
    cases h
    refine ⟨rfl, rfl, ?_, rfl⟩
    rw [hc, hl]
    rfl

/-- The calls on a table keep its geometry. -/
theorem geometry_step (table : Table) (call : Call) :
    (call.step table).sectorSize = table.sectorSize ∧
      (call.step table).firstUsableLba = table.firstUsableLba ∧
      (call.step table).lastUsableLba = table.lastUsableLba := by
  cases call with
  | place request sectorSize =>
    simp only [Call.step, Call.run, PlacementRequest.place]
    cases request.resolve table sectorSize <;> exact ⟨rfl, rfl, rfl⟩
  | remove number =>
    simp only [Call.step, Call.run]
    rcases table.removePartition_cases number with ⟨e, heq⟩ | ⟨index, heq⟩ <;> rw [heq] <;>
      exact ⟨rfl, rfl, rfl⟩

theorem geometry_run (table : Table) (calls : List Call) :
    (runFrom Call.step table calls).sectorSize = table.sectorSize ∧
      (runFrom Call.step table calls).firstUsableLba = table.firstUsableLba ∧
      (runFrom Call.step table calls).lastUsableLba = table.lastUsableLba := by
  refine runFrom_invariant_always (fun t : Table => t.sectorSize = table.sectorSize ∧
    t.firstUsableLba = table.firstUsableLba ∧ t.lastUsableLba = table.lastUsableLba)
    (fun t call ht => ?_) ⟨rfl, rfl, rfl⟩ calls
  obtain ⟨h₁, h₂, h₃⟩ := geometry_step t call
  exact ⟨h₁.trans ht.1, h₂.trans ht.2.1, h₃.trans ht.2.2⟩

theorem partitionEntriesBytes_of_empty (h : table.entries = replicate entriesCount none) :
    partitionEntriesBytes table = zeros entriesBytes := by
  have hn : table.partitions = [] := by
    refine eq_nil_iff_forall_not_mem.2 fun ⟨number, p⟩ hm => ?_
    obtain ⟨i, -, hi⟩ := Table.mem_partitions.1 hm
    simp [h, getElem?_replicate] at hi
  rw [partitionEntriesBytes, hn]
  rfl

/-! ## The primary copy -/

variable {crc32 : Bytes → UInt32} {bytes : Bytes}

/-- The primary copy consists of three pieces: an MBR, the header and the entries. -/
theorem writePrimary_eq_ok (h : writePrimary crc32 table sectorCount = .ok bytes) :
    sectorCount.toNat * table.sectorSize.toNat < 2 ^ 64 ∧ ∃ mbr, mbr.length = 512 ∧
        bytes = mbr ++ (headerSector crc32 table sectorCount false ++
          partitionEntriesBytes table) := by
  rw [writePrimary, bind_eq_ok_iff] at h
  obtain ⟨diskSize, hd, hb⟩ := h
  rw [okOr_eq_ok_iff, checkedMul_eq_some_iff] at hd
  refine ⟨hd ▸ diskSize.toNat_lt, _, length_protectiveBytes diskSize table.sectorSize, ?_⟩
  exact (Except.ok.inj hb).symm

theorem exists_writePrimary (crc32 : Bytes → UInt32) (sectorCount : UInt64) {table : Table}
    (h : sectorCount.toNat * table.sectorSize.toNat < 2 ^ 64) :
    ∃ bytes, writePrimary crc32 table sectorCount = .ok bytes := by
  rw [writePrimary, checkedMul, if_pos h]
  exact ⟨_, rfl⟩

theorem length_headerSector (backup : Bool) :
    (headerSector crc32 table sectorCount backup).length = 512 := length_encode_header ..

/-- On a disk of 4096-byte sectors, block 1 of a new table's primary copy is not the header. -/
theorem slice_block_one_ne (h : table.entries = replicate entriesCount none)
    (hw : writePrimary crc32 table sectorCount = .ok bytes) :
    slice bytes 4096 512 ≠ some (headerSector crc32 table sectorCount false) := by
  obtain ⟨-, mbr, hm, rfl⟩ := writePrimary_eq_ok hw
  have hz : slice (mbr ++ (headerSector crc32 table sectorCount false ++
      partitionEntriesBytes table)) 4096 512 = some (zeros 512) := by
    rw [← append_assoc, partitionEntriesBytes_of_empty h, show 4096 = 1024 + 3072 from rfl,
      slice_append_right (by
        rw [length_append, hm, length_headerSector])]
    exact slice_zeros (by decide)
  rw [hz, Ne, Option.some.injEq]
  intro heq
  have hs : efiPart.isPrefixOf (headerSector crc32 table sectorCount false) = true :=
    isPrefixOf_encode_header ..
  rw [← heq] at hs
  exact absurd hs (by decide)

/-! ## Agreement -/

/-- The block of the entries that the backup header of a table holds. -/
theorem encodedEntriesLba_toHeader (table : Table) (sectorCount : UInt64) :
    table.toHeader.encodedEntriesLba true sectorCount table.sectorSize =
      satSub (satSub sectorCount 1) (entriesSectors table.sectorSize) := rfl

/-- The geometry of a large enough disk of 512-byte sectors. -/
theorem agrees_of_geometry (hs : table.sectorSize = 512) (hf : table.firstUsableLba = 34)
    (hl : sectorCount.toNat = table.lastUsableLba.toNat + 34) (hmn : 68 ≤ sectorCount.toNat)
    (hft : sectorCount.toNat * 512 < 2 ^ 64) : Agrees crc32 table sectorCount := by
  have hs' : table.sectorSize.toNat = 512 := by rw [hs]; rfl
  have hf' : table.firstUsableLba.toNat = 34 := by rw [hf]; rfl
  have hlb : (satSub (satSub sectorCount 1) (entriesSectors table.sectorSize)).toNat =
      table.lastUsableLba.toNat + 1 := by
    rw [hs, toNat_satSub, toNat_satSub, hl]
    change table.lastUsableLba.toNat + 34 - 1 - 32 = _
    omega
  have ho : (table.backupDataOffset sectorCount).toNat = (table.lastUsableLba.toNat + 1) * 512 := by
    rw [Table.backupDataOffset, toNat_satMul, hs']
    omega
  have hp : table.primaryGptSize.toNat = 34 * 512 := by
    rw [Table.primaryGptSize, toNat_satMul, hf', hs']
    rfl
  have hlen := length_partitionEntriesBytes table
  refine
    { primary := ?_, plan := ?_, usable := ?_, backup_entries := by rw [ho, hs'],
      backup_lba := ⟨_, parse_encode .., ?_⟩, backup_header := ⟨?_, ?_⟩, regions := ⟨?_, ?_, ?_⟩ }
  · obtain ⟨bytes, hw⟩ := exists_writePrimary crc32 sectorCount (by rwa [hs'])
    obtain ⟨-, mbr, hm, rfl⟩ := writePrimary_eq_ok hw
    refine ⟨_, hw, ?_, ?_, ?_⟩
    · rw [hs', ← append_assoc]
      exact slice_append hm (length_headerSector false)
    · have hlb : table.toHeader.entriesLba.toNat = 2 := rfl
      rw [hs', hlb, ← append_assoc, ← append_nil (_ ++ partitionEntriesBytes table)]
      exact slice_append (by rw [length_append, hm, length_headerSector]) hlen
    · rw [hp, length_append, length_append, hm, length_headerSector, hlen]
      decide
  · rw [Table.primaryGptSize, hf, hs]
    decide
  · rw [UInt64.le_iff_toNat_le]
    omega
  · rw [encodedEntriesLba_toHeader, hlb, ho, hs']
  · rw [writeBackup, writeRegion, ← append_nil (_ ++ _)]
    exact slice_append hlen (length_headerSector true)
  · rw [hs']
    simp only [entriesBytes]
    omega
  · rw [hp, hf', hs']
  · rw [hs']
    exact Nat.mul_lt_mul_of_pos_right (by omega) (by decide)
  · rw [ho, hs']

/-- **When the places of the copies agree**, for the two sizes of sectors that a reader knows: on a
disk of at least 68 sectors of 512 bytes whose size fits into 64 bits, after any calls on the table;
never on a disk of 4096-byte sectors. -/
theorem geometry_agrees_iff (h : Table.create sectorCount sectorSize diskGuid = .ok table)
    (hsector : sectorSize = 512 ∨ sectorSize = 4096) :
    (∀ calls, Agrees crc32 (runFrom Call.step table calls) sectorCount) ↔
      sectorSize = 512 ∧ 68 ≤ sectorCount.toNat ∧ sectorCount.toNat * 512 < 2 ^ 64 := by
  obtain ⟨hs, hf, hl, he⟩ := create_eq_ok h
  constructor
  · intro ha
    have hn := ha []
    rw [runFrom_nil] at hn
    obtain ⟨bytes, hw, hh, -, -⟩ := hn.primary
    rcases hsector with rfl | rfl
    · have hft := (writePrimary_eq_ok hw).1
      have hu := hn.usable
      rw [UInt64.le_iff_toNat_le, hf] at hu
      change 34 ≤ _ at hu
      change _ = _ + 2 + 32 at hl
      rw [hs] at hft
      exact ⟨rfl, by omega, hft⟩
    · rw [hs] at hh
      exact absurd hh (slice_block_one_ne he hw)
  · rintro ⟨rfl, hm, hft⟩ calls
    obtain ⟨hs', hf', hl'⟩ := geometry_run table calls
    refine agrees_of_geometry (hs'.trans hs) (hf'.trans hf) ?_ hm hft
    rw [hl', hl]
    rfl

/-- The checksum plays no part in the places; this one is zero. -/
def noCrc (_ : Bytes) : UInt32 := 0

/-- A disk of 2 MiB. -/
theorem geometry_agrees_small : ∃ table, Table.create 4096 512 zeroGuid = .ok table ∧
      ∀ calls, Agrees noCrc (runFrom Call.step table calls) 4096 := by
  have h : Table.create 4096 512 zeroGuid = .ok _ := rfl
  exact ⟨_, h, (geometry_agrees_iff h (.inl rfl)).2 ⟨rfl, by decide, by decide⟩⟩

/-- **Large sectors**: the header of a new table on a disk of 4096-byte sectors is written to byte
512 and not to block 1. -/
theorem large_sectors_disagree : ∃ table bytes, Table.create 4096 4096 zeroGuid = .ok table ∧
      writePrimary noCrc table 4096 = .ok bytes ∧
      slice bytes 512 512 = some (headerSector noCrc table 4096 false) ∧
      slice bytes 4096 512 ≠ some (headerSector noCrc table 4096 false) := by
  have h : Table.create 4096 4096 zeroGuid = .ok _ := rfl
  obtain ⟨hs, -, -, he⟩ := create_eq_ok h
  obtain ⟨bytes, hw⟩ := exists_writePrimary noCrc 4096 (by rw [hs]; decide)
  refine ⟨_, bytes, h, hw, ?_, slice_block_one_ne he hw⟩
  obtain ⟨-, mbr, hm, heq⟩ := writePrimary_eq_ok hw
  rw [heq, ← append_assoc]
  exact slice_append hm (length_headerSector false)

end Muak.Parttable
