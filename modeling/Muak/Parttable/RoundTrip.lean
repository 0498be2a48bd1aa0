import Muak.Parttable.Format

/-!
# Reading back what was written

* `decode_encode`: an entry with a type and a name that fits is decoded to itself.
* `parse_encode`: the header is parsed to the fields it was made of.
* `read_writePrimary`: reading the primary copy of a table gives the table back.
-/

namespace Muak.Parttable

open Bytes Word List

/-! ## Fields -/

variable (bytes : Bytes) (units : List UInt16) {header : GptHeader}

@[simp] theorem length_putAt (range : Range) (data : Bytes) :
    (putAt bytes range data).length = bytes.length := length_put ..

variable {range : Range}

theorem sliceAt_putAt {bytes data : Bytes} (hlen : data.length = range.stop - range.start)
    (hle : range.start + data.length ≤ bytes.length) :
    sliceAt (putAt bytes range data) range = some data := slice_put hle hlen

theorem sliceAt_putAt_of_disjoint {bytes data : Bytes} {range other : Range}
    (h : other.start + data.length ≤ range.start ∨
      range.start + (range.stop - range.start) ≤ other.start) :
    sliceAt (putAt bytes other data) range = sliceAt bytes range := slice_put_of_disjoint h

variable {bytes}

theorem guidAt_of_sliceAt {guid : Guid} (h : sliceAt bytes range = some guid.toList) :
    guidAt bytes range = some guid := by
  simp [guidAt, h]

theorem u64At_of_sliceAt {x : UInt64} (h : sliceAt bytes range = some (le64 x)) :
    u64At bytes range = some x := by
  simp [u64At, h]

/-! ## Partition entries -/

/-- An entry that the format can hold: it has a type, and its name fits and has no zero. -/
structure Storable (p : Partition) : Prop where
  typeGuid : p.typeGuid ≠ zeroGuid
  length_name : (Utf16.encode p.name).length ≤ 36
  name : 0 ∉ Utf16.encode p.name

theorem length_flatMap_le16 : (units.flatMap le16).length = 2 * units.length := by
  induction units with
  | nil => rfl
  | cons u units ih => simp [ih]; omega

@[simp] theorem length_nameBytes (name : String) : (nameBytes name).length = 72 := by
  simp [nameBytes, entNameMaxBytes]

theorem zeros_two_mul (k : ℕ) : zeros (2 * k) = (replicate k 0).flatMap le16 := by
  induction k with
  | zero => rfl
  | succ k ih =>
    rw [replicate_succ, flatMap_cons, ← ih, show 2 * (k + 1) = 2 + 2 * k by omega, zeros_add]
    rfl

theorem nameBytes_eq {name : String} (h : (Utf16.encode name).length ≤ 36) :
    nameBytes name = (Utf16.encode name ++
      replicate (36 - (Utf16.encode name).length) 0).flatMap le16 := by
  have hlen := length_flatMap_le16 (Utf16.encode name)
  have hz : zeros 72 = [] ++ zeros ((Utf16.encode name).flatMap le16).length ++
      zeros (2 * (36 - (Utf16.encode name).length)) := by
    rw [nil_append, ← zeros_add]
    congr 1
    omega
  simp only [nameBytes, entNameMaxBytes, take_of_length_le h]
  rw [hz, put_append length_nil (length_zeros _), zeros_two_mul, nil_append, flatMap_append]

theorem take_findIdx_zero {units : List UInt16} (h : 0 ∉ units) (k : ℕ) :
    (units ++ replicate k 0).take ((units ++ replicate k 0).findIdx (· == 0)) = units := by
  induction units with
  | nil => cases k <;> simp [replicate_succ, findIdx_cons]
  | cons u units ih =>
    rw [mem_cons, not_or] at h
    have hu : (u == 0) = false := by simpa using Ne.symm h.1
    simp [findIdx_cons, hu, ih h.2]

theorem map_ofLe_chunks :
    (chunks 2 units.length (units.flatMap le16)).map (fun chunk => UInt16.ofNat (ofLe chunk)) =
      units := by
  have h : chunks 2 (units.map le16).length ((units.map le16).flatten ++ []) = units.map le16 :=
    chunks_flatten (by simp) []
  rw [length_map, append_nil, ← flatMap_def] at h
  rw [h]
  simp [Function.comp_def]

variable (p : Partition)

theorem length_encode : p.encode.length = 128 := by
  simp [Partition.encode, entrySize]

theorem sliceAt_encode : sliceAt p.encode entTypeGuid = some p.typeGuid.toList ∧
      sliceAt p.encode entUniqueGuid = some p.uniqueGuid.toList ∧
      sliceAt p.encode entStartingLba = some (le64 p.startingLba) ∧
      sliceAt p.encode entEndingLba = some (le64 p.endingLba) ∧
      sliceAt p.encode entAttributes = some (le64 p.attributes) ∧
      sliceAt p.encode entName = some (nameBytes p.name) := by
  refine ⟨?_, ?_, ?_, ?_, ?_, ?_⟩ <;>
    simp (disch := simp) [Partition.encode, sliceAt_putAt, sliceAt_putAt_of_disjoint, entTypeGuid,
      entUniqueGuid, entStartingLba, entEndingLba, entAttributes, entName, entNameStart,
      entNameMaxBytes, entrySize]

variable {p}

theorem decodeName_encode (h : Storable p) : decodeName p.encode = some p.name := by
  have hn := (sliceAt_encode p).2.2.2.2.2
  set units := Utf16.encode p.name ++ replicate (36 - (Utf16.encode p.name).length) 0 with hu
  have hlen : units.length = 36 := by
    have := h.length_name
    rw [length_append, length_replicate]
    omega
  have hb : nameBytes p.name = units.flatMap le16 := nameBytes_eq h.length_name
  have hc := map_ofLe_chunks units
  rw [hlen, ← hb] at hc
  simp only [decodeName, hn, Option.bind_eq_bind, Option.bind_some, length_nameBytes, hc]
  rw [take_findIdx_zero h.name, Utf16.decodeLossy_encode]
  rfl

/-- **An entry that the format can hold is decoded to itself.** -/
theorem decode_encode (h : Storable p) : Partition.decode p.encode = some p := by
  obtain ⟨ht, hu, hs, he, ha, -⟩ := sliceAt_encode p
  simp [Partition.decode, guidAt_of_sliceAt ht, guidAt_of_sliceAt hu, u64At_of_sliceAt hs,
    u64At_of_sliceAt he, u64At_of_sliceAt ha,
    decodeName_encode h, h.typeGuid]

theorem decode_zeros : Partition.decode (zeros 128) = none := by
  have h : guidAt (zeros 128) entTypeGuid = some zeroGuid :=
    guidAt_of_sliceAt (slice_zeros (by decide))
  simp [Partition.decode, h]

/-! ## All slots -/

/-- The bytes of one slot. -/
def slotBytes : Option Partition → Bytes
  | some p => p.encode
  | none => zeros 128

variable (p) (crc32 : Bytes → UInt32) {table : Table}

theorem slotBytes_some : slotBytes (some p) = p.encode := rfl

theorem slotBytes_none : slotBytes none = zeros 128 := rfl

theorem length_slotBytes (entry : Option Partition) : (slotBytes entry).length = 128 := by
  cases entry with
  | none => rw [slotBytes_none, length_zeros]
  | some p => rw [slotBytes_some, length_encode]

theorem decode_slotBytes {entry : Option Partition} (h : ∀ p, entry = some p → Storable p) :
    Partition.decode (slotBytes entry) = entry := by
  cases entry with
  | none => rw [slotBytes_none, decode_zeros]
  | some p => rw [slotBytes_some, decode_encode (h p rfl)]

/-- The loop that writes the slots, from the slot with index `k` on: what is before stays, and
what follows is still zero. -/
theorem foldl_put_slots (entries : List (Option Partition)) :
    ∀ (k : ℕ) (before after : Bytes), before.length = k * 128 →
      ((entries.zipIdx k).filterMap fun (entry, index) => entry.map (slotNumber index, ·)).foldl
        (fun buffer (number, partition) => put buffer ((number - 1) * entrySize) partition.encode)
        (before ++ zeros (entries.length * 128) ++ after) =
      before ++ (entries.map slotBytes).flatten ++ after := by
  induction entries with
  | nil => simp [zeros]
  | cons entry entries ih =>
    intro k before after hb
    have hz : zeros ((entries.length + 1) * 128) = zeros 128 ++ zeros (entries.length * 128) := by
      rw [← zeros_add]
      congr 1
      omega
    have hs : (before ++ slotBytes entry).length = (k + 1) * 128 := by
      rw [length_append, length_slotBytes]
      omega
    have hrest := ih (k + 1) (before ++ slotBytes entry) after hs
    simp only [length_cons, hz, map_cons, flatten_cons, append_assoc] at hrest ⊢
    rw [← hrest]
    cases entry with
    | none => simp [slotBytes_none]
    | some p =>
      have hp : put (before ++ zeros 128 ++ (zeros (entries.length * 128) ++ after)) (k * 128)
          p.encode = before ++ p.encode ++ (zeros (entries.length * 128) ++ after) :=
        put_append hb (by rw [length_zeros, length_encode])
      simp only [append_assoc] at hp
      simp [slotNumber, slotBytes_some, entrySize, hp]

theorem partitionEntriesBytes_eq (table : Table) :
    partitionEntriesBytes table = (table.entries.map slotBytes).flatten := by
  have h := foldl_put_slots table.entries 0 [] [] rfl
  rw [table.length_entries, append_nil, append_nil] at h
  exact h

theorem length_partitionEntriesBytes (table : Table) :
    (partitionEntriesBytes table).length = entriesBytes := by
  have h : ∀ entries : List (Option Partition),
      (entries.map slotBytes).flatten.length = entries.length * 128 := by
    intro entries
    induction entries with
    | nil => rfl
    | cons entry entries ih =>
      simp only [map_cons, flatten_cons, length_append, length_slotBytes, length_cons]
      omega
  rw [partitionEntriesBytes_eq, h, table.length_entries]
  rfl

theorem map_decode_chunks (h : ∀ p, some p ∈ table.entries → Storable p) :
    (chunks entrySize ((partitionEntriesBytes table).length / entrySize)
      (partitionEntriesBytes table)).map Partition.decode = table.entries := by
  have hc : chunks 128 (table.entries.map slotBytes).length
      ((table.entries.map slotBytes).flatten ++ []) = table.entries.map slotBytes :=
    chunks_flatten (by simp [length_slotBytes]) []
  rw [length_map, table.length_entries, append_nil] at hc
  rw [length_partitionEntriesBytes, partitionEntriesBytes_eq]
  change (chunks 128 entriesCount _).map Partition.decode = _
  rw [hc, map_map]
  refine (map_congr_left fun entry he => ?_).trans (map_id _)
  exact decode_slotBytes fun p hp => h p (hp ▸ he)

/-! ## The header -/

section

variable (self : GptHeader) (backup : Bool) (sectorCount sectorSize : UInt64) (entriesCrc : UInt32)
  {sector : Bytes}

theorem length_uncheckedBytes :
    (self.uncheckedBytes backup sectorCount sectorSize entriesCrc).length = 92 := by
  simp [GptHeader.uncheckedBytes, gptHeaderSize]

/-- The fields of the header that are read back, before the checksum is filled in. -/
theorem sliceAt_uncheckedBytes :
    let header := self.uncheckedBytes backup sectorCount sectorSize entriesCrc
    sliceAt header hdrSignature = some efiPart ∧
      sliceAt header hdrRevision = some (le32 0x00010000) ∧
      sliceAt header hdrSize = some (le32 (UInt32.ofNat gptHeaderSize)) ∧
      sliceAt header hdrCrc = some (zeros 4) ∧
      sliceAt header hdrFirstUsable = some (le64 self.firstUsableLba) ∧
      sliceAt header hdrLastUsable = some (le64 self.lastUsableLba) ∧
      sliceAt header hdrDiskGuid = some self.diskGuid.toList ∧
      sliceAt header hdrEntriesLba =
        some (le64 (self.encodedEntriesLba backup sectorCount sectorSize)) ∧
      sliceAt header hdrEntriesCount = some (le32 self.entriesCount) ∧
      sliceAt header hdrEntrySize = some (le32 self.entriesSize) ∧
      sliceAt header hdrEntriesCrc = some (le32 entriesCrc) := by
  have hzeros : sliceAt (zeros 92) ⟨16, 20⟩ = some (zeros 4) := slice_zeros (by decide)
  refine ⟨?_, ?_, ?_, ?_, ?_, ?_, ?_, ?_, ?_, ?_, ?_⟩ <;>
    simp (disch := simp [efiPart]) [GptHeader.uncheckedBytes, sliceAt_putAt,
      sliceAt_putAt_of_disjoint, hdrSignature, hdrRevision, hdrSize, hdrCrc, hdrCurrentLba,
      hdrBackupLba, hdrFirstUsable, hdrLastUsable, hdrDiskGuid, hdrEntriesLba, hdrEntriesCount,
      hdrEntrySize, hdrEntriesCrc, gptHeaderSize, hzeros]

variable (crc32 : Bytes → UInt32)

variable {range : Range}

/-- The sector starts with the header and its checksum. -/
theorem sliceAt_sector (hle : range.start ≤ range.stop) (hstop : range.stop ≤ 92) :
    sliceAt (self.encode crc32 backup sectorCount sectorSize entriesCrc) range =
      sliceAt (putAt (self.uncheckedBytes backup sectorCount sectorSize entriesCrc) hdrCrc
        (le32 (crc32 (self.uncheckedBytes backup sectorCount sectorSize entriesCrc)))) range := by
  set header := self.uncheckedBytes backup sectorCount sectorSize entriesCrc with hhdr
  have hlen : (putAt header hdrCrc (le32 (crc32 header))).length = 92 := by
    rw [length_putAt, length_uncheckedBytes]
  calc slice (put (zeros 512) 0 (putAt header hdrCrc (le32 (crc32 header)))) range.start
        (range.stop - range.start)
      = slice (put (zeros 512) 0 (putAt header hdrCrc (le32 (crc32 header)))) (0 + range.start)
          (range.stop - range.start) := by rw [Nat.zero_add]
    _ = sliceAt (putAt header hdrCrc (le32 (crc32 header))) range :=
        slice_put_within (by rw [length_zeros]; omega) (by omega)

/-- Apart from the checksum, the sector holds the fields of the header. -/
theorem sliceAt_header (hle : range.start ≤ range.stop) (hstop : range.stop ≤ 92)
    (hcrc : range.stop ≤ 16 ∨ 20 ≤ range.start) :
    sliceAt (self.encode crc32 backup sectorCount sectorSize entriesCrc) range =
      sliceAt (self.uncheckedBytes backup sectorCount sectorSize entriesCrc) range := by
  rw [sliceAt_sector self backup sectorCount sectorSize entriesCrc crc32 hle hstop]
  exact sliceAt_putAt_of_disjoint (by simp only [hdrCrc, length_le32]; omega)

theorem sliceAt_covered :
    sliceAt (self.encode crc32 backup sectorCount sectorSize entriesCrc) ⟨0, gptHeaderSize⟩ =
      some (putAt (self.uncheckedBytes backup sectorCount sectorSize entriesCrc) hdrCrc
        (le32 (crc32 (self.uncheckedBytes backup sectorCount sectorSize entriesCrc)))) := by
  have hlen := length_uncheckedBytes self backup sectorCount sectorSize entriesCrc
  exact slice_put (by rw [length_putAt, length_zeros]; omega) (by rw [length_putAt, hlen]; rfl)

theorem sliceAt_crc : sliceAt (self.encode crc32 backup sectorCount sectorSize entriesCrc) hdrCrc =
      some (le32 (crc32 (self.uncheckedBytes backup sectorCount sectorSize entriesCrc))) := by
  have hlen := length_uncheckedBytes self backup sectorCount sectorSize entriesCrc
  rw [sliceAt_sector self backup sectorCount sectorSize entriesCrc crc32 (by decide) (by decide)]
  exact sliceAt_putAt (length_le32 _) (by rw [hlen, length_le32]; decide)

theorem field_of_sliceAt {sector bytes : Bytes} (h : sliceAt sector range = some bytes) :
    field sector range = .ok bytes := by
  rw [field, h, okOr_some]

theorem leU32_of_sliceAt {x : UInt32} (h : sliceAt sector range = some (le32 x)) :
    leU32 sector range = .ok x := by
  rw [leU32, field_of_sliceAt h, ok_bind, ofNat_ofLe_le32]
  rfl

theorem leU64_of_sliceAt {x : UInt64} (h : sliceAt sector range = some (le64 x)) :
    leU64 sector range = .ok x := by
  rw [leU64, field_of_sliceAt h, ok_bind, ofNat_ofLe_le64]
  rfl

/-- **The header is parsed to the fields it was made of.** -/
theorem parse_encode :
    GptHeader.parse crc32 (self.encode crc32 backup sectorCount sectorSize entriesCrc) =
      .ok { self with
        entriesLba := self.encodedEntriesLba backup sectorCount sectorSize
        entriesCrc := entriesCrc } := by
  obtain ⟨hs, hr, hsize, hcrc, hfirst, hlast, hguid, hlba, hcount, hentry,
    he⟩ := sliceAt_uncheckedBytes self backup sectorCount sectorSize entriesCrc
  have hsc := @sliceAt_header self backup sectorCount sectorSize entriesCrc crc32
  rw [← hsc (by decide) (by decide) (by decide)]
    at hs hr hsize hfirst hlast hguid hlba hcount hentry he
  -- the checksum was computed with zeroes in its place
  have hz : putAt (putAt (self.uncheckedBytes backup sectorCount sectorSize entriesCrc) hdrCrc
      (le32 (crc32 (self.uncheckedBytes backup sectorCount sectorSize entriesCrc)))) hdrCrc
      (zeros 4) = self.uncheckedBytes backup sectorCount sectorSize entriesCrc :=
    put_put_of_slice hcrc rfl
  simp only [GptHeader.parse, field_of_sliceAt hs, leU32_of_sliceAt hr, leU32_of_sliceAt hsize,
    leU32_of_sliceAt (sliceAt_crc ..),
    field_of_sliceAt (sliceAt_covered ..), hz, guidAt_of_sliceAt hguid,
    leU64_of_sliceAt hlba, leU64_of_sliceAt hfirst, leU64_of_sliceAt hlast,
    leU32_of_sliceAt hcount, leU32_of_sliceAt hentry, leU32_of_sliceAt he, ok_bind]
  rfl

theorem length_encode_header :
    (self.encode crc32 backup sectorCount sectorSize entriesCrc).length = 512 := by
  rw [GptHeader.encode, length_put, length_zeros]

/-- The sector starts with the signature. -/
theorem isPrefixOf_encode_header :
    efiPart.isPrefixOf (self.encode crc32 backup sectorCount sectorSize entriesCrc) = true := by
  have h := (sliceAt_uncheckedBytes self backup sectorCount sectorSize entriesCrc).1
  rw [← sliceAt_header self backup sectorCount sectorSize entriesCrc crc32 (by decide) (by decide)
    (by decide), sliceAt, slice, length_encode_header, if_pos (by decide), Option.some.injEq] at h
  simp only [hdrSignature, drop_zero] at h
  rw [← h]
  exact isPrefixOf_iff_prefix.2 ⟨_, take_append_drop _ _⟩

end

/-! ## Streams -/

theorem readExact_append {n : ℕ} {data : Bytes} (h : data.length = n) (rest : Bytes) :
    readExact n (data ++ rest) = .ok (data, rest) := by
  subst h
  simp [readExact]

theorem skip_zero (stream : Bytes) : skip 0 stream = .ok stream := by simp [skip]

theorem length_protectiveBytes (diskSize sectorSize : UInt64) :
    (Mbr.protectiveBytes diskSize sectorSize).length = 512 := by
  simp [Mbr.protectiveBytes, Mbr.bytes, Mbr.sectorBytes]

/-- The primary copy of a table of 512-byte sectors is found in its second sector. -/
theorem probe_append {mbr sector : Bytes} (hm : mbr.length = 512) (hsc : sector.length = 512)
    (hs : efiPart.isPrefixOf sector = true) (rest : Bytes) :
    probe (mbr ++ (sector ++ rest)) =
      .ok { sector, rest, position := 1024, sectorSize := 512 } := by
  simp only [probe, readExact_append hm, readExact_append hsc, ok_bind, hs]
  rfl

theorem decodeTable_of_entries (h : ∀ p, some p ∈ table.entries → Storable p)
    (hf : header.firstUsableLba = table.firstUsableLba)
    (hl : header.lastUsableLba = table.lastUsableLba)
    (hg : header.diskGuid = table.diskGuid) :
    decodeTable header table.sectorSize (partitionEntriesBytes table) = .ok table := by
  rw [decodeTable, map_decode_chunks h, Table.fromParts, dif_pos table.length_entries, hf, hl, hg]

/-- What `read` does with a stream of an MBR, a valid header sector and the entries behind it. -/
theorem read_of_parts {mbr sector entries : Bytes} (hm : mbr.length = 512)
    (hsc : sector.length = 512) (hs : efiPart.isPrefixOf sector = true)
    (hp : GptHeader.parse crc32 sector = .ok header) (hl : header.entriesLba = 2)
    (hc : header.entriesCount = UInt32.ofNat entriesCount)
    (hsz : header.entriesSize = UInt32.ofNat entrySize) (hlen : entries.length = entriesBytes)
    (hcr : header.entriesCrc = crc32 entries) (rest : Bytes) :
    read crc32 (mbr ++ (sector ++ (entries ++ rest))) = decodeTable header 512 entries := by
  have ho : checkedMul 2 512 = some 1024 := by decide
  have hsk : skip ((1024 : UInt64).toNat - 1024) (entries ++ rest) = .ok (entries ++ rest) :=
    skip_zero _
  simp only [read, probe_append hm hsc hs, ok_bind, hp, validateGeometry, ensure, hc, hsz,
    decide_true, if_true, hl, ho, okOr_some, hsk, readExact_append hlen,
    hcr]

/-- **Reading back what was written.** The primary copy of a table of 512-byte sectors whose
entries the format can hold, followed by anything, is read as the table. -/
theorem read_writePrimary (hsize : table.sectorSize = 512)
    (hentries : ∀ p, some p ∈ table.entries → Storable p) {sectorCount : UInt64}
    (hcount : sectorCount.toNat * 512 < 2 ^ 64) :
    ∃ bytes, writePrimary crc32 table sectorCount = .ok bytes ∧
      ∀ rest, read crc32 (bytes ++ rest) = .ok table := by
  obtain ⟨diskSize, hdisk⟩ :
      ∃ diskSize, checkedMul sectorCount table.sectorSize = some diskSize := by
    rw [hsize]
    exact ⟨_, if_pos hcount⟩
  refine ⟨_, by rw [writePrimary, hdisk]; rfl, fun rest => ?_⟩
  have hread := read_of_parts crc32 (length_protectiveBytes diskSize table.sectorSize)
    (length_encode_header table.toHeader false sectorCount table.sectorSize
      (crc32 (partitionEntriesBytes table)) crc32)
    (isPrefixOf_encode_header ..) (parse_encode ..) rfl rfl rfl
    (length_partitionEntriesBytes table) rfl rest
  rw [writeRegion, if_neg (by simp), append_assoc, append_assoc, hread, ← hsize]
  exact decodeTable_of_entries hentries rfl rfl rfl

/-- A table with a partition in its second slot. -/
def dataTable : Table where
  sectorSize := 512
  diskGuid := List.Vector.replicate 16 7
  firstUsableLba := 34
  lastUsableLba := 4062
  entries := none ::
      some ⟨List.Vector.replicate 16 1, List.Vector.replicate 16 2, 2048, 4000, 0, "data π"⟩ ::
        replicate 126 none
  length_entries := rfl

theorem read_writePrimary_dataTable :
    let crc32 := fun bytes : Bytes => bytes.foldl (fun sum b => sum * 31 + b.toUInt32) 0
    ∃ bytes, writePrimary crc32 dataTable 4096 = .ok bytes ∧
      ∀ rest, read crc32 (bytes ++ rest) = .ok dataTable := by
  refine read_writePrimary _ rfl (fun p hp => ?_) (by decide)
  simp only [dataTable, mem_cons, reduceCtorEq, Option.some.injEq, mem_replicate, and_false,
    or_false, false_or] at hp
  subst hp
  exact ⟨by decide, by decide, by decide⟩

end Muak.Parttable
