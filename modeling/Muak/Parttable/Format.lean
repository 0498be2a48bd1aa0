import Muak.Foundations.Bytes
import Muak.Foundations.Result
import Muak.Foundations.Utf16
import Muak.Parttable.Table

/-!
# The disk format

The codecs of `libs/parttable`: partition entries (`gpt/partition.rs`), the header with its two
checksums (`gpt/header.rs`), the protective MBR (`mbr.rs`) and the streams that hold them
(`gpt/io.rs`). The checksum `crc32` is a parameter: any function of the bytes.

Streams are lists of bytes. A writer appends and never fails; a reader that runs out of bytes
fails.
-/

namespace Muak.Parttable

open Bytes Word

/-- A range of byte offsets. -/
structure Range where
  start : ℕ
  stop : ℕ

/-- The bytes of a range. -/
def sliceAt (bytes : Bytes) (range : Range) : Option Bytes :=
  slice bytes range.start (range.stop - range.start)

/-- Overwrite a range. -/
def putAt (bytes : Bytes) (range : Range) (data : Bytes) : Bytes :=
  put bytes range.start data

/-! ## Partition entries -/

def entTypeGuid : Range := ⟨0, 16⟩
def entUniqueGuid : Range := ⟨16, 32⟩
def entStartingLba : Range := ⟨32, 40⟩
def entEndingLba : Range := ⟨40, 48⟩
def entAttributes : Range := ⟨48, 56⟩
def entNameStart : ℕ := 56
def entNameMaxBytes : ℕ := 72

/-- The range of the name. -/
def entName : Range := ⟨entNameStart, entNameStart + entNameMaxBytes⟩

/-- The identifier of an unused slot. -/
def zeroGuid : Guid := List.Vector.replicate 16 0

/-- The identifier in a range of sixteen bytes. -/
def guidAt (bytes : Bytes) (range : Range) : Option Guid := do
  let field ← sliceAt bytes range
  if h : field.length = 16 then some ⟨field, h⟩ else none

/-- The number in a range of eight bytes. -/
def u64At (bytes : Bytes) (range : Range) : Option UInt64 := do
  let field ← sliceAt bytes range
  return UInt64.ofNat (ofLe field)

/-- The name as it is stored: as many UTF-16 units as fit, then zeroes. -/
def nameBytes (name : String) : Bytes :=
  let units := (Utf16.encode name).take (entNameMaxBytes / 2)
  put (zeros entNameMaxBytes) 0 (units.flatMap le16)

/-- The stored name up to the first zero unit. -/
def decodeName (bytes : Bytes) : Option String := do
  let raw ← sliceAt bytes entName
  let units := (chunks 2 (raw.length / 2) raw).map fun chunk => UInt16.ofNat (ofLe chunk)
  return Utf16.decodeLossy (units.take (units.findIdx (· == 0)))

namespace Partition

/-- The 128 bytes of an entry. -/
def encode (self : Partition) : Bytes :=
  let bytes := zeros entrySize
  let bytes := putAt bytes entTypeGuid self.typeGuid.toList
  let bytes := putAt bytes entUniqueGuid self.uniqueGuid.toList
  let bytes := putAt bytes entStartingLba (le64 self.startingLba)
  let bytes := putAt bytes entEndingLba (le64 self.endingLba)
  let bytes := putAt bytes entAttributes (le64 self.attributes)
  putAt bytes entName (nameBytes self.name)

/-- Parse an entry; an unused slot has no type. -/
def decode (bytes : Bytes) : Option Partition := do
  let typeGuid ← guidAt bytes entTypeGuid
  guard (typeGuid ≠ zeroGuid)
  let uniqueGuid ← guidAt bytes entUniqueGuid
  let name ← decodeName bytes
  let startingLba ← u64At bytes entStartingLba
  let endingLba ← u64At bytes entEndingLba
  let attributes ← u64At bytes entAttributes
  return { typeGuid, uniqueGuid, startingLba, endingLba, attributes, name }

end Partition

/-! ## The header -/

def gptHeaderSize : ℕ := 92

def hdrSignature : Range := ⟨0, 8⟩
def hdrRevision : Range := ⟨8, 12⟩
def hdrSize : Range := ⟨12, 16⟩
def hdrCrc : Range := ⟨16, 20⟩
def hdrCurrentLba : Range := ⟨24, 32⟩
def hdrBackupLba : Range := ⟨32, 40⟩
def hdrFirstUsable : Range := ⟨40, 48⟩
def hdrLastUsable : Range := ⟨48, 56⟩
def hdrDiskGuid : Range := ⟨56, 72⟩
def hdrEntriesLba : Range := ⟨72, 80⟩
def hdrEntriesCount : Range := ⟨80, 84⟩
def hdrEntrySize : Range := ⟨84, 88⟩
def hdrEntriesCrc : Range := ⟨88, 92⟩

/-- The signature `EFI PART`. -/
def efiPart : Bytes := [0x45, 0x46, 0x49, 0x20, 0x50, 0x41, 0x52, 0x54]

/-- The decoded fields of a header. -/
structure GptHeader where
  entriesLba : UInt64
  firstUsableLba : UInt64
  lastUsableLba : UInt64
  diskGuid : Guid
  entriesCount : UInt32
  entriesSize : UInt32
  entriesCrc : UInt32

def field (sector : Bytes) (range : Range) : Result Bytes :=
  okOr (sliceAt sector range) (.gpt "GPT header truncated")

-- A field is as wide as its range, so the conversions below cannot fail on their own.
def leU32 (sector : Bytes) (range : Range) : Result UInt32 := do
  let bytes ← field sector range
  return UInt32.ofNat (ofLe bytes)

def leU64 (sector : Bytes) (range : Range) : Result UInt64 := do
  let bytes ← field sector range
  return UInt64.ofNat (ofLe bytes)

/-- Fail unless a condition holds. -/
def ensure (condition : Bool) (message : String) : Result Unit :=
  if condition then .ok () else .error (.gpt message)

namespace GptHeader

variable (crc32 : Bytes → UInt32) (self : GptHeader)

/-- Parse and validate a header sector. -/
def parse (sector : Bytes) : Result GptHeader := do
  let signature ← field sector hdrSignature
  ensure (signature = efiPart) "invalid GPT signature"
  let revision ← leU32 sector hdrRevision
  ensure (0x00010000 ≤ revision) "unsupported GPT revision"
  let headerSize ← leU32 sector hdrSize
  ensure (UInt32.ofNat gptHeaderSize ≤ headerSize) "GPT header too small"
  let headerCrc ← leU32 sector hdrCrc
  let covered ← field sector ⟨0, gptHeaderSize⟩
  ensure (crc32 (putAt covered hdrCrc (zeros 4)) = headerCrc) "GPT header CRC mismatch"
  let diskGuid ← okOr (guidAt sector hdrDiskGuid) (.gpt "GPT header truncated")
  let entriesLba ← leU64 sector hdrEntriesLba
  let firstUsableLba ← leU64 sector hdrFirstUsable
  let lastUsableLba ← leU64 sector hdrLastUsable
  let entriesCount ← leU32 sector hdrEntriesCount
  let entriesSize ← leU32 sector hdrEntrySize
  let entriesCrc ← leU32 sector hdrEntriesCrc
  return {
    entriesLba, firstUsableLba, lastUsableLba, diskGuid, entriesCount, entriesSize, entriesCrc }

/-- The block of the entries in the primary or the backup header. -/
def encodedEntriesLba (backup : Bool) (sectorCount sectorSize : UInt64) : UInt64 :=
  if backup then
    satSub (satSub sectorCount 1)
      (divCeil (satMul self.entriesCount.toUInt64 self.entriesSize.toUInt64) sectorSize)
  else self.entriesLba

/-- The header with a zero checksum. -/
def uncheckedBytes (backup : Bool) (sectorCount sectorSize : UInt64) (entriesCrc : UInt32) :
    Bytes :=
  let last := satSub sectorCount 1
  let (currentLba, backupLba) := if backup then (last, 1) else (1, last)
  let header := zeros gptHeaderSize
  let header := putAt header hdrSignature efiPart
  let header := putAt header hdrRevision (le32 0x00010000)
  let header := putAt header hdrSize (le32 (UInt32.ofNat gptHeaderSize))
  let header := putAt header hdrCurrentLba (le64 currentLba)
  let header := putAt header hdrBackupLba (le64 backupLba)
  let header := putAt header hdrFirstUsable (le64 self.firstUsableLba)
  let header := putAt header hdrLastUsable (le64 self.lastUsableLba)
  let header := putAt header hdrDiskGuid self.diskGuid.toList
  let header := putAt header hdrEntriesLba
    (le64 (self.encodedEntriesLba backup sectorCount sectorSize))
  let header := putAt header hdrEntriesCount (le32 self.entriesCount)
  let header := putAt header hdrEntrySize (le32 self.entriesSize)
  putAt header hdrEntriesCrc (le32 entriesCrc)

/-- The header sector of the primary or the backup copy. -/
def encode (backup : Bool) (sectorCount sectorSize : UInt64) (entriesCrc : UInt32) : Bytes :=
  let header := self.uncheckedBytes backup sectorCount sectorSize entriesCrc
  put (zeros 512) 0 (putAt header hdrCrc (le32 (crc32 header)))

end GptHeader

/-- The header fields of a table. -/
def Table.toHeader (table : Table) : GptHeader where
  entriesLba := 2
  firstUsableLba := table.firstUsableLba
  lastUsableLba := table.lastUsableLba
  diskGuid := table.diskGuid
  entriesCount := UInt32.ofNat entriesCount
  entriesSize := UInt32.ofNat entrySize
  entriesCrc := 0

/-- A table from decoded parts. -/
def Table.fromParts (firstUsableLba lastUsableLba : UInt64) (diskGuid : Guid) (sectorSize : UInt64)
    (entries : List (Option Partition)) : Result Table :=
  if h : entries.length = entriesCount then
    .ok { sectorSize, diskGuid, firstUsableLba, lastUsableLba, entries, length_entries := h }
  else .error (.gpt "invalid partition entries length")

/-! ## The protective MBR -/

namespace Mbr

def partitionEntryOffset : ℕ := 446
def bootSignature : Bytes := [0x55, 0xAA]
def protectiveGptType : UInt8 := 0xEE
def sectorBytes : ℕ := 512
def entrySize : ℕ := 16

/-- A partition entry of an MBR. -/
structure PartitionEntry where
  bootable : Bool
  partitionType : UInt8
  startingLba : UInt32
  sizeLba : UInt32

def PartitionEntry.toBytes (self : PartitionEntry) : Bytes :=
  let entry := zeros entrySize
  let entry := put entry 0 [if self.bootable then 1 else 0]
  let entry := put entry 1 [0x00, 0x02, 0x00]
  let entry := put entry 4 [self.partitionType]
  let entry := put entry 5 [0xFF, 0xFF, 0xFF]
  let entry := put entry 8 (le32 self.startingLba)
  put entry 12 (le32 self.sizeLba)

/-- An MBR sector with one partition entry. -/
def bytes (entry : PartitionEntry) : Bytes :=
  let mbr := zeros sectorBytes
  let mbr := put mbr partitionEntryOffset entry.toBytes
  put mbr (sectorBytes - 2) bootSignature

/-- The size of the protective partition in blocks. -/
def protectiveSizeLba (diskSize sectorSize : UInt64) : UInt32 :=
  if sectorSize = 0 then 0
  else UInt32.ofNat (min ((diskSize / sectorSize).toNat - 1) (2 ^ 32 - 1))

/-- The protective MBR of a disk. -/
def protectiveBytes (diskSize sectorSize : UInt64) : Bytes :=
  bytes {
    bootable := false
    partitionType := protectiveGptType
    startingLba := 1
    sizeLba := protectiveSizeLba diskSize sectorSize }

end Mbr

/-! ## Streams -/

/-- Total size in bytes of the partition entries. -/
def entriesBytes : ℕ := 0x4000

/-- Read exactly `n` bytes: these and the rest of the stream. -/
def readExact (n : ℕ) (stream : Bytes) : Result (Bytes × Bytes) :=
  if n ≤ stream.length then .ok (stream.take n, stream.drop n)
  else .error (.io "failed to fill whole buffer")

/-- Skip bytes of the stream. -/
def skip (remaining : ℕ) (stream : Bytes) : Result Bytes :=
  if stream.length < remaining then .error (.gpt "stream ended before GPT entries")
  else .ok (stream.drop remaining)

/-- The table has the only supported size. -/
def validateGeometry (header : GptHeader) : Result Unit := do
  ensure (header.entriesCount = UInt32.ofNat entriesCount) "unsupported partition entries count"
  ensure (header.entriesSize = UInt32.ofNat entrySize) "unsupported partition entry size"

/-- The table, from its header and its entries. -/
def decodeTable (header : GptHeader) (sectorSize : UInt64) (entries : Bytes) : Result Table :=
  let parsed := (chunks entrySize (entries.length / entrySize) entries).map Partition.decode
  Table.fromParts header.firstUsableLba header.lastUsableLba header.diskGuid sectorSize parsed

/-- All slots of a table as bytes. -/
def partitionEntriesBytes (table : Table) : Bytes :=
  table.partitions.foldl
    (fun buffer (number, partition) => put buffer ((number - 1) * entrySize) partition.encode)
    (zeros entriesBytes)

/-- A header sector, where it was found: the position after it and the sector size. -/
structure Probe where
  sector : Bytes
  rest : Bytes
  position : ℕ
  sectorSize : UInt64

/-- Read the second sector, for a sector size of 512 bytes, or else of 4096 bytes. -/
def probe (stream : Bytes) : Result Probe := do
  let (_, stream) ← readExact 512 stream
  let (buffer, stream) ← readExact 512 stream
  if efiPart.isPrefixOf buffer then
    return { sector := buffer, rest := stream, position := 1024, sectorSize := 512 }
  else do
    let stream ← skip (4096 - 1024) stream
    let (buffer, stream) ← readExact 512 stream
    return { sector := buffer, rest := stream, position := 4608, sectorSize := 4096 }

section

variable (crc32 : Bytes → UInt32) (table : Table)

/-- Read the primary copy of a table. -/
def read (stream : Bytes) : Result Table := do
  let found ← probe stream
  let header ← GptHeader.parse crc32 found.sector
  validateGeometry header
  let entriesOffset ← okOr (checkedMul header.entriesLba found.sectorSize)
    (.gpt "partition entries LBA overflowed")
  let stream ← skip (entriesOffset.toNat - found.position) found.rest
  let (entries, _) ← readExact entriesBytes stream
  ensure (header.entriesCrc = crc32 entries) "partition entries CRC mismatch"
  decodeTable header found.sectorSize entries

/-- The header and the entries, in the order of the primary or the backup copy. -/
def writeRegion (sectorCount : UInt64) (backup : Bool) : Bytes :=
  let entries := partitionEntriesBytes table
  let header :=
    table.toHeader.encode crc32 backup sectorCount table.sectorSize (crc32 entries)
  if backup then entries ++ header else header ++ entries

/-- The bytes of the primary copy: protective MBR, header, entries. -/
def writePrimary (sectorCount : UInt64) : Result Bytes := do
  let diskSize ← okOr (checkedMul sectorCount table.sectorSize) (.gpt "disk size overflowed")
  return Mbr.protectiveBytes diskSize table.sectorSize ++ writeRegion crc32 table sectorCount false

/-- The bytes of the backup copy: entries, header. -/
def writeBackup (sectorCount : UInt64) : Bytes :=
  writeRegion crc32 table sectorCount true

end

end Muak.Parttable
