import Mathlib.Data.List.Forall2
import Muak.Uki.Section

/-!
# The sections that are added

`toolchain/yuki/src/pe/section.rs`: the sections of an image are placed one after another, in the
file and in memory.

* `Table.finalizeSection`: one section; `buildTable`: all of them, after the stub.
* `finalizeSection_eq_ok`: what one section adds to the table.
* `Table.Placed`: what holds of the table all along, with `finalizeSections_placed`.
-/

namespace Muak.Yuki

open Bytes Uki List Nat

/-! ## The source -/

/-- Why no image is built. -/
inductive YukiError
  | io (message : String)
  | invalidPeStructure (message : String)
  | tooManySections
  | uki (error : UkiError)
  deriving DecidableEq

abbrev Result := Except YukiError

/-- A section of the image, with the digest of its data. -/
structure Section where
  name : SectionName
  fileOffset : ℕ
  size : ℕ
  checksum : Bytes

/-- The sections so far, and where the next one goes. -/
structure Table where
  sections : List Section
  headers : List SectionHeader
  currentFileOffset : ℕ
  currentVirtualAddress : ℕ
  maxVirtualEnd : ℕ
  fileAlignment : ℕ
  sectionAlignment : ℕ

section

variable (metadata : Metadata)

def Table.new : Table where
  sections := []
  headers := []
  currentFileOffset := alignTo metadata.lastSectionFileEnd metadata.fileAlignment
  currentVirtualAddress := alignTo metadata.lastSectionVirtualEnd metadata.sectionAlignment
  maxVirtualEnd := metadata.lastSectionVirtualEnd
  fileAlignment := metadata.fileAlignment
  sectionAlignment := metadata.sectionAlignment

def buildHeader (name : SectionName)
    (virtualSize sizeOfRawData pointerToRawData virtualAddress : ℕ) : SectionHeader where
  name := name.bytes
  virtualSize := virtualSize
  virtualAddress := virtualAddress
  sizeOfRawData := sizeOfRawData
  pointerToRawData := pointerToRawData
  characteristics :=
    if name = .kernel then 0x0000_0020 ||| 0x2000_0000 ||| 0x4000_0000
    else 0x0000_0040 ||| 0x4000_0000

/-- A quoted name within a message. -/
def quoted (before : String) (name : SectionName) (after : String) : YukiError :=
  .invalidPeStructure (before ++ "'" ++ name.text ++ "'" ++ after)

def Table.finalizeSection (table : Table) (name : SectionName) (size : ℕ) : Result Table :=
  if 2 ^ 32 ≤ size then .error (quoted "section " name " too large")
  else
    let sizeOfRawData := alignTo size table.fileAlignment
    let sectionVirtualEnd := table.currentVirtualAddress + alignTo size table.sectionAlignment
    if 2 ^ 32 ≤ sectionVirtualEnd then
      .error (.invalidPeStructure "section virtual end overflow")
    else if 2 ^ 32 ≤ table.currentFileOffset + sizeOfRawData then
      .error (.invalidPeStructure "next section file offset overflow")
    else .ok { table with
      sections := table.sections ++ [⟨name, table.currentFileOffset, size, zeros 32⟩]
      headers := table.headers ++ [buildHeader name size sizeOfRawData table.currentFileOffset
        table.currentVirtualAddress]
      maxVirtualEnd := max table.maxVirtualEnd sectionVirtualEnd
      currentFileOffset := table.currentFileOffset + sizeOfRawData
      currentVirtualAddress := sectionVirtualEnd }

/-- There is room for more headers. -/
def validateHeaderCapacity (additionalSections : ℕ) : Result Unit :=
  let sectionTableEnd := metadata.sectionTableOffset +
    (metadata.existingSectionCount + additionalSections) * sectionHeaderSize
  if metadata.sizeOfHeaders < sectionTableEnd then
    .error (.invalidPeStructure ("section table exceeds size of headers: " ++
      toString sectionTableEnd ++ ">" ++ toString metadata.sizeOfHeaders))
  else .ok ()

def validateSize (byteLen : ℕ) (name : SectionName) : Result ℕ :=
  if 2 ^ 64 ≤ byteLen then .error (quoted "section " name " length exceeds usize")
  else if 2 ^ 32 ≤ byteLen then .error (quoted "section " name " too large")
  else .ok byteLen

/-- The loop over the sizes. -/
def finalizeSections : List (SectionName × Option ℕ) → Table → Result Table
  | [], table => .ok table
  | (_, none) :: sizes, table => finalizeSections sizes table
  | (name, some len) :: sizes, table => do
    let size ← validateSize len name
    let table ← table.finalizeSection name size
    finalizeSections sizes table

def checkSectionCount (count : ℕ) : Result Unit :=
  if 65535 < metadata.existingSectionCount + count then .error .tooManySections else .ok ()

/-- At least one section was added. -/
def checkSections (table : Table) : Result Table :=
  if table.sections = [] then .error (.invalidPeStructure "missing generated sections")
  else .ok table

/-- The size of the stub fits. -/
def stubFileOffset (stubLen : ℕ) : Result ℕ :=
  if 2 ^ 32 ≤ stubLen then .error (.invalidPeStructure "stub file offset overflow")
  else .ok stubLen

/-- The sections of all components. -/
def buildTable (stubLen : ℕ) (sizes : List (SectionName × Option ℕ)) : Result Table := do
  let count := sizes.countP fun entry => entry.2.isSome
  checkSectionCount metadata count
  validateHeaderCapacity metadata count
  let stubFileOff ← stubFileOffset stubLen
  let table := Table.new metadata
  let table ← finalizeSections sizes { table with
    currentFileOffset := max table.currentFileOffset stubFileOff }
  checkSections table

end

/-! ## One section -/

variable {table result : Table} {name : SectionName}

theorem finalizeSection_eq_ok {size : ℕ} (h : table.finalizeSection name size = .ok result) :
    table.currentVirtualAddress + alignTo size table.sectionAlignment < 2 ^ 32 ∧
      table.currentFileOffset + alignTo size table.fileAlignment < 2 ^ 32 ∧
      result = { table with
        sections := table.sections ++ [⟨name, table.currentFileOffset, size, zeros 32⟩]
        headers := table.headers ++ [buildHeader name size (alignTo size table.fileAlignment)
          table.currentFileOffset table.currentVirtualAddress]
        maxVirtualEnd := max table.maxVirtualEnd
          (table.currentVirtualAddress + alignTo size table.sectionAlignment)
        currentFileOffset := table.currentFileOffset + alignTo size table.fileAlignment
        currentVirtualAddress :=
          table.currentVirtualAddress + alignTo size table.sectionAlignment } := by
  unfold Table.finalizeSection at h
  dsimp only at h
  split_ifs at h with hs hv hf
  exact ⟨Nat.lt_of_not_le hv, Nat.lt_of_not_le hf, (Except.ok.inj h).symm⟩

/-! ## All sections -/

/-- A header of the table, in the ranges that are used so far. -/
structure PlacedHeader (metadata : Metadata) (first : ℕ) (table : Table) (header : SectionHeader) :
    Prop where
  first_le : first ≤ header.pointerToRawData
  file_dvd : metadata.fileAlignment ∣ header.pointerToRawData - first
  file_le : header.pointerToRawData + header.sizeOfRawData ≤ table.currentFileOffset
  size_le : header.virtualSize ≤ header.sizeOfRawData
  virtual_dvd : metadata.sectionAlignment ∣ header.virtualAddress
  virtual_ge :
    alignTo metadata.lastSectionVirtualEnd metadata.sectionAlignment ≤ header.virtualAddress
  virtual_le : header.virtualAddress + header.virtualSize ≤ table.currentVirtualAddress

/-- The first of two headers ends before the second begins. -/
def Precedes (header next : SectionHeader) : Prop :=
  header.pointerToRawData + header.sizeOfRawData ≤ next.pointerToRawData ∧
    header.virtualAddress + header.virtualSize ≤ next.virtualAddress

/-- The header that belongs to a section. -/
def HeaderOf (fileAlignment : ℕ) (entry : Section) (header : SectionHeader) : Prop :=
  header = buildHeader entry.name entry.size (alignTo entry.size fileAlignment) entry.fileOffset
    header.virtualAddress ∧ header.virtualAddress < 2 ^ 32 ∧ header.sizeOfRawData < 2 ^ 32

/-- The sections of a table follow the stub one after another. -/
structure Table.Placed (metadata : Metadata) (first : ℕ) (table : Table) : Prop where
  fileAlignment : table.fileAlignment = metadata.fileAlignment
  sectionAlignment : table.sectionAlignment = metadata.sectionAlignment
  first_le : first ≤ table.currentFileOffset
  file_dvd : metadata.fileAlignment ∣ table.currentFileOffset - first
  file_lt : table.currentFileOffset < 2 ^ 32
  virtual_dvd : metadata.sectionAlignment ∣ table.currentVirtualAddress
  virtual_ge : alignTo metadata.lastSectionVirtualEnd metadata.sectionAlignment ≤
    table.currentVirtualAddress
  virtual_lt : table.currentVirtualAddress < 2 ^ 32
  maxVirtualEnd :
    table.maxVirtualEnd = max metadata.lastSectionVirtualEnd table.currentVirtualAddress ∨
      table.maxVirtualEnd = metadata.lastSectionVirtualEnd ∧ table.currentVirtualAddress =
          alignTo metadata.lastSectionVirtualEnd metadata.sectionAlignment
  sections : List.Forall₂ (HeaderOf metadata.fileAlignment) table.sections table.headers
  headers : ∀ header ∈ table.headers, PlacedHeader metadata first table header
  ordered : table.headers.Pairwise Precedes

/-- The metadata that the placement rests on. -/
structure Base (metadata : Metadata) (first : ℕ) : Prop where
  file : Alignment metadata.fileAlignment
  section_ : Alignment metadata.sectionAlignment
  file_le : metadata.fileAlignment ≤ first
  section_le : metadata.sectionAlignment ≤
    alignTo metadata.lastSectionVirtualEnd metadata.sectionAlignment

variable {metadata : Metadata}

/-- One more section keeps the table in order. -/
theorem Table.Placed.finalizeSection {first : ℕ} {size : ℕ} (hp : table.Placed metadata first)
    (hb : Base metadata first) (h : table.finalizeSection name size = .ok result) :
    result.Placed metadata first := by
  obtain ⟨hv, hfl, rfl⟩ := finalizeSection_eq_ok h
  rw [hp.sectionAlignment] at hv
  rw [hp.fileAlignment] at hfl
  have hf := hp.first_le
  have hge := hp.virtual_ge
  have hm := hp.maxVirtualEnd
  -- neither size was cut when it was rounded up
  have hr : size ≤ alignTo size metadata.fileAlignment :=
    hb.file.le_alignTo_of_add_lt (hb.file_le.trans hp.first_le) hfl
  have hs : size ≤ alignTo size metadata.sectionAlignment :=
    hb.section_.le_alignTo_of_add_lt (hb.section_le.trans hp.virtual_ge) hv
  exact {
    fileAlignment := hp.fileAlignment
    sectionAlignment := hp.sectionAlignment
    first_le := by dsimp only; omega
    file_dvd := by
      rw [hp.fileAlignment, Nat.sub_add_comm hp.first_le]
      exact Nat.dvd_add hp.file_dvd hb.file.dvd_alignTo
    file_lt := by dsimp only; rwa [hp.fileAlignment]
    virtual_dvd := by
      rw [hp.sectionAlignment]
      exact Nat.dvd_add hp.virtual_dvd hb.section_.dvd_alignTo
    virtual_ge := by dsimp only; omega
    virtual_lt := by dsimp only; rwa [hp.sectionAlignment]
    maxVirtualEnd := by dsimp only; omega
    sections := by
      refine rel_append hp.sections (.cons ⟨?_, hp.virtual_lt, ?_⟩ .nil)
      · rw [hp.fileAlignment]
        rfl
      · rw [hp.fileAlignment]
        exact lt_of_le_of_lt (le_add_left _ _) hfl
    headers := by
      refine forall_mem_append.2 ⟨fun header hh => ?_, forall_mem_singleton.2 ?_⟩
      · have ho := hp.headers header hh
        exact { ho with
          file_le := ho.file_le.trans (le_add_right _ _)
          virtual_le := ho.virtual_le.trans (le_add_right _ _) }
      · refine ⟨hf, hp.file_dvd, le_rfl, ?_, hp.virtual_dvd, hge, ?_⟩
        · rw [hp.fileAlignment]
          exact hr
        · dsimp only
          rw [hp.sectionAlignment]
          exact Nat.add_le_add_left hs _
    ordered := by
      refine pairwise_append.2 ⟨hp.ordered, pairwise_singleton _ _, ?_⟩
      intro header hh next hn
      obtain rfl := mem_singleton.1 hn
      have ho := hp.headers header hh
      exact ⟨ho.file_le, ho.virtual_le⟩ }

variable {sizes : List (SectionName × Option ℕ)}

theorem finalizeSections_placed {first : ℕ} (hb : Base metadata first)
    (hp : table.Placed metadata first) (h : finalizeSections sizes table = .ok result) :
    result.Placed metadata first := by
  induction sizes generalizing table with
  | nil =>
    cases h
    exact hp
  | cons entry sizes ih =>
    obtain ⟨name, size⟩ := entry
    cases size with
    | none => exact ih hp h
    | some len =>
      obtain ⟨size, -, h⟩ := of_bind h
      obtain ⟨next, hn, h⟩ := of_bind h
      exact ih (hp.finalizeSection hb hn) h

theorem finalizeSections_sections (h : finalizeSections sizes table = .ok result) :
    result.sections.map (fun entry => (entry.name, entry.size)) =
      table.sections.map (fun entry => (entry.name, entry.size)) ++
        sizes.filterMap fun entry => entry.2.map (entry.1, ·) := by
  induction sizes generalizing table with
  | nil =>
    cases h
    rw [filterMap_nil, append_nil]
  | cons entry sizes ih =>
    obtain ⟨name, size⟩ := entry
    cases size with
    | none => exact ih h
    | some len =>
      obtain ⟨size, hs, h⟩ := of_bind h
      obtain ⟨next, hn, h⟩ := of_bind h
      obtain ⟨-, -, rfl⟩ := finalizeSection_eq_ok hn
      unfold validateSize at hs
      split_ifs at hs
      cases hs
      rw [ih h, map_append, append_assoc]
      rfl

/-- Sections without gaps between two offsets. -/
inductive Contiguous (fileAlignment : ℕ) : ℕ → List Section → ℕ → Prop
  | nil (offset : ℕ) : Contiguous fileAlignment offset [] offset
  | cons {entry : Section} {sections : List Section} {last : ℕ} :
    Contiguous fileAlignment (entry.fileOffset + alignTo entry.size fileAlignment) sections last →
    Contiguous fileAlignment entry.fileOffset (entry :: sections) last

theorem finalizeSections_contiguous (h : finalizeSections sizes table = .ok result) :
    ∃ added, result.sections = table.sections ++ added ∧ Contiguous table.fileAlignment
      table.currentFileOffset added result.currentFileOffset := by
  induction sizes generalizing table with
  | nil =>
    cases h
    exact ⟨[], (append_nil _).symm, .nil _⟩
  | cons entry sizes ih =>
    obtain ⟨name, size⟩ := entry
    cases size with
    | none => exact ih h
    | some len =>
      obtain ⟨size, -, h⟩ := of_bind h
      obtain ⟨next, hn, h⟩ := of_bind h
      obtain ⟨-, -, rfl⟩ := finalizeSection_eq_ok hn
      obtain ⟨added, ha, hc⟩ := ih h
      exact ⟨_ :: added, ha.trans (append_assoc ..), @Contiguous.cons _
        ⟨name, table.currentFileOffset, size, zeros 32⟩ _ _ hc⟩

/-- Where the first section is placed. -/
def firstOffset (metadata : Metadata) (stubLen : ℕ) : ℕ :=
  max (alignTo metadata.lastSectionFileEnd metadata.fileAlignment) stubLen

theorem base_of_parse [PeParser] {data : Bytes} (h : parse data = .ok metadata)
    (stubLen : ℕ) : Base metadata (firstOffset metadata stubLen) := by
  obtain ⟨pe, -, hof⟩ := parse_eq_ok h
  obtain ⟨hf, hv, -⟩ := sectionEnds_spec hof.ends
  have hp := hof.sizeOfHeaders_pos
  dsimp only at hf hv
  exact ⟨hof.alignment_file, hof.alignment_section,
    (hof.alignment_file.le_alignTo (by omega)).trans (le_max_left _ _),
    hof.alignment_section.le_alignTo (by omega)⟩

theorem placed_new {stubLen : ℕ} (hb : Base metadata (firstOffset metadata stubLen))
    (hs : stubLen < 2 ^ 32) :
    Table.Placed metadata (firstOffset metadata stubLen) { Table.new metadata with
      currentFileOffset := max (Table.new metadata).currentFileOffset stubLen } where
  fileAlignment := rfl
  sectionAlignment := rfl
  first_le := le_rfl
  file_dvd := by
    rw [firstOffset, Table.new, Nat.sub_self]
    exact Nat.dvd_zero _
  file_lt := by
    have hle := hb.file.alignTo_add_le (x := metadata.lastSectionFileEnd)
    have hp := hb.file.pos
    simp only [Table.new]
    omega
  virtual_dvd := hb.section_.dvd_alignTo
  virtual_ge := le_rfl
  virtual_lt := by
    have hle := hb.section_.alignTo_add_le (x := metadata.lastSectionVirtualEnd)
    have hp := hb.section_.pos
    simp only [Table.new]
    omega
  maxVirtualEnd := .inr ⟨rfl, rfl⟩
  sections := .nil
  headers := nofun
  ordered := .nil

/-- What is known of a table. -/
structure Built (metadata : Metadata) (stubLen : ℕ) (sizes : List (SectionName × Option ℕ))
    (table : Table) : Prop where
  placed : table.Placed metadata (firstOffset metadata stubLen)
  contiguous : Contiguous metadata.fileAlignment (firstOffset metadata stubLen) table.sections
    table.currentFileOffset
  sections : table.sections.map (fun entry => (entry.name, entry.size)) =
    sizes.filterMap fun entry => entry.2.map (entry.1, ·)
  count_le : metadata.existingSectionCount + table.sections.length ≤ 65535
  capacity : metadata.sectionTableOffset +
    (metadata.existingSectionCount + table.sections.length) * sectionHeaderSize ≤
      metadata.sizeOfHeaders

theorem buildTable_eq_ok {stubLen : ℕ} (hb : Base metadata (firstOffset metadata stubLen))
    (h : buildTable metadata stubLen sizes = .ok table) : Built metadata stubLen sizes table := by
  obtain ⟨_, hco, h⟩ := of_bind h
  obtain ⟨_, hc, h⟩ := of_bind h
  obtain ⟨stubFileOff, hst, h⟩ := of_bind h
  obtain ⟨result, hr, h⟩ := of_bind h
  unfold checkSections at h
  split_ifs at h
  cases h
  unfold stubFileOffset at hst
  split_ifs at hst with hl
  cases hst
  unfold checkSectionCount at hco
  split_ifs at hco with hm
  unfold validateHeaderCapacity at hc
  dsimp only at hc
  split_ifs at hc with hf
  have hs := finalizeSections_sections hr
  rw [Table.new, map_nil, nil_append] at hs
  -- the number of sections is the number of sizes
  have hlen : table.sections.length = sizes.countP fun entry => entry.2.isSome := by
    rw [← length_map, hs, length_filterMap_eq_countP]
    exact countP_congr fun entry _ => by rw [Option.isSome_map]
  rw [← hlen] at hm hf
  obtain ⟨added, ha, hcn⟩ := finalizeSections_contiguous hr
  obtain rfl : table.sections = added := ha
  exact ⟨finalizeSections_placed hb (placed_new hb (Nat.lt_of_not_le hl)) hr,
    hcn, hs, Nat.le_of_not_lt hm, Nat.le_of_not_lt hf⟩

end Muak.Yuki
