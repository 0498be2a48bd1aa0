import Muak.Yuki.Write

/-!
# Images

An image is well formed if it is the stub with some of its header changed, and the sections that
were added are aligned, apart from each other and from those of the stub, and have the data of the
components.

* `Build.WellFormed`: this property, of the bytes of an image.
* `image_wellFormed_iff`: it holds if the end of the stub is aligned, and if the sections of the
  stub end at the address where the first section is added.
-/

namespace Muak.Yuki

open Bytes Uki List Nat

namespace Build

variable [PeParser] (b : Build) (header : SectionHeader)

/-! ## Well-formed images -/

/-- The sections of the stub. -/
def stubSections : List SectionHeader :=
  ((PeParser.parse b.probed.prefixBytes).map PeFile.sections).getD []

/-- Where the headers of new sections go. -/
def slotOffset : ℕ :=
  b.metadata.sectionTableOffset + b.metadata.existingSectionCount * sectionHeaderSize

/-- The bytes of `NumberOfSections`, of `SizeOfImage` and of `n` new section headers. -/
def PatchedByte (n i : ℕ) : Prop :=
  (b.metadata.fileHeaderOffset + 2 ≤ i ∧ i < b.metadata.fileHeaderOffset + 4) ∨
    (b.metadata.optionalHeaderOffset + 56 ≤ i ∧ i < b.metadata.optionalHeaderOffset + 60) ∨
    (b.slotOffset ≤ i ∧ i < b.slotOffset + n * sectionHeaderSize)

/-- The headers that were added, as they are in the image. -/
def added (output : Output) : List SectionHeader :=
  (chunks sectionHeaderSize output.sections.length (output.bytes.drop b.slotOffset)).map
    SectionHeader.ofBytes

/-- The components, in the order of their sections. -/
def components : List (SectionName × Bytes) :=
  let content (name : SectionName) :=
    (name, (b.inputs.get name).reader.data.take (b.inputs.get name).size)
  [content .cmdline, content .initrd, content .kernel] ++
    if 0 < b.inputs.osrel.size then [content .osrel] else []

/-- An offset within the data of a section; there is none without a pointer to it. -/
def InFile (i : ℕ) : Prop :=
  header.pointerToRawData ≠ 0 ∧ header.pointerToRawData ≤ i ∧
    i < header.pointerToRawData + header.sizeOfRawData

def InMemory (i : ℕ) : Prop :=
  header.virtualAddress ≤ i ∧ i < header.virtualAddress + header.virtualSize

/-- Two sections have nothing in common, neither in the file nor in memory. -/
def Apart (header other : SectionHeader) : Prop :=
  (∀ i, ¬(InFile header i ∧ InFile other i)) ∧ ∀ i, ¬(InMemory header i ∧ InMemory other i)

/-- The section has the name and the data of the component, and zeros behind it. -/
def Holds (bytes : Bytes) (header : SectionHeader) (component : SectionName × Bytes) : Prop :=
  header.name = component.1.bytes ∧ header.virtualSize = component.2.length ∧
    slice bytes header.pointerToRawData header.sizeOfRawData =
      some (component.2 ++ zeros (header.sizeOfRawData - component.2.length))

/-- What a well-formed image is. -/
structure WellFormed (output : Output) : Prop where
  length : output.bytes.length = b.manifest.layout.totalSize
  unchanged : ∀ i < b.stubSize, ¬b.PatchedByte output.sections.length i →
    output.bytes[i]? = b.stub.data[i]?
  fileAligned : ∀ header ∈ b.added output, b.metadata.fileAlignment ∣ header.pointerToRawData
  sectionAligned : ∀ header ∈ b.added output, b.metadata.sectionAlignment ∣ header.virtualAddress
  apart : (b.added output).Pairwise Apart
  stub_apart : ∀ header ∈ b.added output, ∀ other ∈ b.stubSections, Apart header other
  covered : ∃ size, uintAt output.bytes (b.metadata.optionalHeaderOffset + 56) 4 = some size ∧
    ∀ header ∈ b.stubSections ++ b.added output, header.virtualAddress + header.virtualSize ≤ size
  content : List.Forall₂ (Holds output.bytes) (b.added output) b.components

/-- The end of the stub is aligned or before the first multiple after its last section, and its
sections end at the address at which the first section is added. -/
structure Aligned : Prop where
  file : b.stubSize ≤ alignTo b.metadata.lastSectionFileEnd b.metadata.fileAlignment ∨
    b.metadata.fileAlignment ∣ b.stubSize
  image : ∀ header ∈ b.stubSections, header.virtualAddress + header.virtualSize ≤
    alignTo b.metadata.lastSectionVirtualEnd b.metadata.sectionAlignment

/-! ## The headers of an image -/

/-- The three places within the headers, one after another. -/
structure Places (table : Table) : Prop where
  count_le : b.metadata.fileHeaderOffset + 4 ≤ b.metadata.optionalHeaderOffset
  size_le : b.metadata.optionalHeaderOffset + 60 ≤ b.slotOffset
  slots_le : b.slotOffset + table.headers.length * sectionHeaderSize ≤ b.metadata.sizeOfHeaders
  length_slots : (table.headers.map headerToBytes).flatten.length =
    table.headers.length * sectionHeaderSize

variable {b} {table : Table}

theorem HasTable.places (h : b.HasTable table) : b.Places table := by
  obtain ⟨pe, hp, hof⟩ := parse_eq_ok h.parse
  have hc := h.built.capacity
  have hd := hp.dataDirectories
  have hs := h.built.placed.sections.length_eq
  refine ⟨?_, ?_, ?_, ?_⟩
  · rw [hof.fileHeaderOffset, hof.optionalHeaderOffset]
    omega
  · rw [slotOffset, hof.optionalHeaderOffset, hof.sectionTableOffset]
    omega
  · rw [slotOffset, add_assoc, ← add_mul, ← hs]
    exact hc
  · rw [length_flatten_of_length, length_map]
    exact forall_mem_map.2 fun header hh =>
      length_headerToBytes (names_of_headerOf h.built.placed.sections header hh)

theorem HasTable.stubSections_eq (h : b.HasTable table) :
    ∃ pe : PeFile, pe.Parsed b.probed.prefixBytes ∧ b.metadata.Of pe ∧
      b.stubSections = pe.sections := by
  obtain ⟨pe, hp, hof⟩ := parse_eq_ok h.parse
  refine ⟨pe, hp, hof, ?_⟩
  rw [stubSections, PeParser.parse_eq_some_iff.2 hp]
  rfl

/-- Outside of the three places the headers are those of the stub. -/
theorem HasTable.getElem?_patched (h : b.HasTable table) {i : ℕ}
    (hi : ¬b.PatchedByte table.sections.length i) :
    (b.headerBytes table)[i]? = b.probed.prefixBytes[i]? := by
  obtain ⟨hc, hsz, hs, hlen⟩ := h.places
  have hp := h.length_prefixBytes
  rw [PatchedByte, h.built.placed.sections.length_eq] at hi
  rw [headerBytes, patched,
    getElem?_put (by rw [length_put, length_put]; unfold slotOffset at hs; omega),
    if_neg (by rw [hlen]; unfold slotOffset at hi; omega),
    getElem?_put (by rw [length_put, length_leBytes]; omega),
    if_neg (by rw [length_leBytes]; omega), getElem?_put (by rw [length_leBytes]; omega),
    if_neg (by rw [length_leBytes]; omega)]

theorem HasTable.patched_isPrefix : b.headerBytes table <+: b.image table := by
  rw [image, append_assoc]
  exact prefix_append _ _

section

variable (h : b.HasTable table)

include h

theorem HasTable.slice_slots : slice (b.headerBytes table) b.slotOffset
      (table.headers.length * sectionHeaderSize) =
        some (table.headers.map headerToBytes).flatten := by
  obtain ⟨hc, hsz, hs, hlen⟩ := h.places
  have hp := h.length_prefixBytes
  exact slice_put (by rw [length_put, length_put]; unfold slotOffset at hs; omega) hlen

theorem HasTable.uintAt_sizeOfImage :
    uintAt (b.image table) (b.metadata.optionalHeaderOffset + 56) 4 =
      some (sizeOfImage b.metadata table) := by
  obtain ⟨hc, hsz, hsl, hlen⟩ := h.places
  have hp := h.length_prefixBytes
  have hlt : sizeOfImage b.metadata table < 2 ^ 32 := by
    obtain ⟨pe, -, hof⟩ := parse_eq_ok h.parse
    have hle := hof.alignment_section.alignTo_add_le (x := table.maxVirtualEnd)
    have hps := hof.alignment_section.pos
    unfold sizeOfImage
    omega
  have hs : slice (b.headerBytes table) (b.metadata.optionalHeaderOffset + 56) 4 =
        some (leBytes 4 (sizeOfImage b.metadata table)) := by
    rw [headerBytes, patched, slice_put_of_disjoint (by unfold slotOffset at hsz; omega)]
    exact slice_put (by rw [length_put, length_leBytes]; omega) (length_leBytes ..)
  rw [uintAt, slice_of_isPrefix HasTable.patched_isPrefix hs, Option.map_some,
    ofLe_leBytes (lt_of_lt_of_eq hlt (by decide))]

theorem HasTable.ofBytes_headerToBytes {header : SectionHeader} (hh : header ∈ table.headers) :
    SectionHeader.ofBytes (headerToBytes header) = header := by
  have hp := h.built.placed.headers header hh
  have hf := hp.file_le
  have hlt := h.built.placed.file_lt
  have hvr := hp.virtual_le
  have hv := h.built.placed.virtual_lt
  obtain ⟨entry, -, hof⟩ := exists_mem_of_forall₂_right h.built.placed.sections hh
  refine Yuki.ofBytes_headerToBytes (names_of_headerOf h.built.placed.sections header hh)
    (by omega) (by omega) (by omega) (by omega) ?_
  rw [hof.1, buildHeader]
  dsimp only
  split_ifs <;> decide

theorem HasTable.chunks_slots (after : Bytes) : (chunks sectionHeaderSize table.headers.length
      ((table.headers.map headerToBytes).flatten ++ after)).map SectionHeader.ofBytes =
        table.headers := by
  rw [← length_map, chunks_flatten, map_map]
  · exact (map_congr_left fun header hh => h.ofBytes_headerToBytes hh).trans
      (map_id _)
  · exact forall_mem_map.2 fun header hh =>
      length_headerToBytes (names_of_headerOf h.built.placed.sections header hh)

theorem HasTable.added_eq {output : Output} (hb : output.bytes = b.image table)
    (hs : output.sections.length = table.sections.length) : b.added output = table.headers := by
  have hsl := slice_of_isPrefix HasTable.patched_isPrefix h.slice_slots
  have hd : (b.image table).drop b.slotOffset = (table.headers.map headerToBytes).flatten ++
      (b.image table).drop (b.slotOffset + table.headers.length * sectionHeaderSize) := by
    unfold slice at hsl
    split_ifs at hsl
    rw [← Option.some.inj hsl, ← drop_drop, take_append_drop]
  rw [added, hb, hs, h.built.placed.sections.length_eq, hd, h.chunks_slots]

/-- The image ends where the last section does. -/
theorem HasTable.sizeOfImage_eq : sizeOfImage b.metadata table = table.currentVirtualAddress := by
  obtain ⟨pe, -, hof⟩ := parse_eq_ok h.parse
  have ha := hof.alignment_section
  have hd := h.built.placed.virtual_dvd
  have hlt := h.built.placed.virtual_lt
  have hge := h.built.placed.virtual_ge
  rw [sizeOfImage]
  obtain hm | ⟨hm, hc⟩ := h.built.placed.maxVirtualEnd
  · by_cases hle : b.metadata.lastSectionVirtualEnd ≤ table.currentVirtualAddress
    · rw [hm, max_eq_right hle, ha.alignTo_of_dvd hd hlt]
    · rw [hm, max_eq_left (by omega)]
      -- the end of the stub was cut to the last multiple, and there is no room behind it
      have hct := ha.alignTo_of_lt (x := b.metadata.lastSectionVirtualEnd) (by
        by_contra hr
        have := ha.le_alignTo_iff.2 (Nat.le_of_not_lt hr)
        omega)
      have hn := ha.alignTo_of_dvd hd hlt ▸ ha.alignTo_add_le
      omega
  · rw [hm, hc]

/-- A multiple of the alignment behind the first address shows that nothing was cut. -/
theorem HasTable.virtualEnd_le
    (hr : alignTo b.metadata.lastSectionVirtualEnd b.metadata.sectionAlignment <
      table.currentVirtualAddress) :
    alignTo b.metadata.lastSectionVirtualEnd b.metadata.sectionAlignment +
        b.metadata.sectionAlignment ≤ table.currentVirtualAddress ∧
      b.metadata.lastSectionVirtualEnd ≤
        alignTo b.metadata.lastSectionVirtualEnd b.metadata.sectionAlignment := by
  obtain ⟨pe, -, hof⟩ := parse_eq_ok h.parse
  have ha := hof.alignment_section
  have hlt := h.built.placed.virtual_lt
  have hn := Nat.le_of_dvd (Nat.sub_pos_of_lt hr)
    (Nat.dvd_sub h.built.placed.virtual_dvd ha.dvd_alignTo)
  refine ⟨by omega, ha.le_alignTo_iff.2 ?_⟩
  by_contra hc
  have := ha.alignTo_of_lt (Nat.lt_of_not_le hc)
  omega

/-- If there is anything in the sections then those of the stub end before them. -/
theorem HasTable.stub_end_le
    (hr : alignTo b.metadata.lastSectionVirtualEnd b.metadata.sectionAlignment <
      table.currentVirtualAddress)
    {header : SectionHeader} (hh : header ∈ b.stubSections) :
    header.virtualAddress + header.virtualSize ≤
      alignTo b.metadata.lastSectionVirtualEnd b.metadata.sectionAlignment := by
  obtain ⟨pe, -, hof, hs⟩ := h.stubSections_eq
  have ha := hof.alignment_section
  have hlt := h.built.placed.virtual_lt
  obtain ⟨hn, hst⟩ := h.virtualEnd_le hr
  rw [hs] at hh
  have he := ((sectionEnds_spec hof.ends).2.2.2.2 header hh).2
  dsimp only at he
  rw [← hof.sectionAlignment] at he
  have hsz : header.virtualSize ≤ alignTo header.virtualSize b.metadata.sectionAlignment := by
    refine ha.le_alignTo_iff.2 ?_
    by_contra hc
    have := ha.alignTo_of_lt (Nat.lt_of_not_le hc)
    omega
  omega

/-! ## The properties one by one -/

theorem HasTable.getElem?_image {i : ℕ} (hs : i < b.stubSize)
    (hi : ¬b.PatchedByte table.sections.length i) : (b.image table)[i]? = b.stub.data[i]? := by
  have hp := h.length_patched
  have hpr := h.length_prefixBytes
  have hh := h.length_head
  rw [image, getElem?_append_left (by omega), ← h.stub]
  by_cases hhd : i < b.metadata.sizeOfHeaders
  · rw [getElem?_append_left (by omega), getElem?_append_left (by omega), h.getElem?_patched hi]
  · rw [getElem?_append_right (by omega), getElem?_append_right (by omega), hp, hpr,
      getElem?_take_of_lt (by omega)]

theorem HasTable.components_eq :
    b.components = table.sections.map fun entry => (entry.name, b.inputs.content entry) := by
  have hm : table.sections.map (fun entry => (entry.name, b.inputs.content entry)) =
      (table.sections.map fun entry => (entry.name, entry.size)).map fun entry =>
        (entry.1, (b.inputs.get entry.1).reader.data.take entry.2) := by
    rw [map_map]
    rfl
  rw [hm, h.built.sections, Components.filterMap_sizes, components]
  have ho : b.inputs.sizes.osrel = b.inputs.osrel.size := rfl
  rw [ho]
  split_ifs <;> rfl

theorem HasTable.holds : List.Forall₂ (Holds (b.image table)) table.headers b.components := by
  rw [h.components_eq, forall₂_map_right_iff]
  have ha := (forall₂_and_left _ _).2 ⟨fun _ he => he, h.built.placed.sections⟩
  refine ha.flip.imp fun header entry ⟨he, hof⟩ => ?_
  have hlen := (h.writable entry he).length_content
  rw [hof.1]
  refine ⟨rfl, hlen.symm, ?_⟩
  rw [hlen]
  exact h.slice_image he

end

omit [PeParser] in
theorem Precedes.apart {header next : SectionHeader} (h : Precedes header next) :
    Apart header next := by
  obtain ⟨hfile, hm⟩ := h
  constructor
  · rintro i ⟨⟨-, -, hlt⟩, -, hge, -⟩
    omega
  · rintro i ⟨⟨-, hlt⟩, hge, -⟩
    omega

theorem HasTable.stub_apart (h : b.HasTable table) {header other : SectionHeader}
    (hh : header ∈ table.headers) (hot : other ∈ b.stubSections) : Apart header other := by
  have hp := h.built.placed.headers header hh
  have hf := hp.first_le
  have hst := b.stubSize_le
  have hl := h.last_le
  constructor
  · obtain ⟨pe, -, hof, hs⟩ := h.stubSections_eq
    rw [hs] at hot
    have he := ((sectionEnds_spec hof.ends).2.2.2.2 other hot).1
    rintro i ⟨⟨-, hge, -⟩, hpn, hle, hlt⟩
    rw [SectionHeader.fileEnd, if_pos ⟨hpn, by omega⟩] at he
    dsimp only at he
    omega
  · rintro i ⟨⟨hge, hlt⟩, hle, ho⟩
    have hv := hp.virtual_ge
    have hc := hp.virtual_le
    have he := h.stub_end_le (by omega) hot
    omega

/-- The first section is aligned if the end of the stub is. -/
theorem HasTable.fileAligned_iff (h : b.HasTable table) :
    (∀ header ∈ table.headers, b.metadata.fileAlignment ∣ header.pointerToRawData) ↔
      b.stubSize ≤ alignTo b.metadata.lastSectionFileEnd b.metadata.fileAlignment ∨
        b.metadata.fileAlignment ∣ b.stubSize := by
  obtain ⟨pe, -, hof⟩ := parse_eq_ok h.parse
  have hd := hof.alignment_file.dvd_alignTo (x := b.metadata.lastSectionFileEnd)
  have hf : b.metadata.fileAlignment ∣ firstOffset b.metadata b.stubSize ↔
      b.stubSize ≤ alignTo b.metadata.lastSectionFileEnd b.metadata.fileAlignment ∨
        b.metadata.fileAlignment ∣ b.stubSize := by
    rw [firstOffset]
    by_cases hle : b.stubSize ≤ alignTo b.metadata.lastSectionFileEnd b.metadata.fileAlignment
    · rw [max_eq_left hle]
      exact iff_of_true hd (.inl hle)
    · rw [max_eq_right (by omega)]
      exact ⟨.inr, fun h => h.resolve_left hle⟩
  rw [← hf]
  constructor
  · intro ha
    obtain ⟨header, hh⟩ := exists_mem_of_ne_nil table.headers fun hn =>
      h.sections_ne_nil (length_eq_zero_iff.1
        (h.built.placed.sections.length_eq.trans (length_eq_zero_iff.2 hn)))
    have hp := h.built.placed.headers header hh
    exact (dvd_sub_iff_right hp.first_le (ha header hh)).1 hp.file_dvd
  · intro ha header hh
    have hp := h.built.placed.headers header hh
    exact (dvd_sub_iff_left hp.first_le ha).1 hp.file_dvd

/-- The image covers the sections of the stub if they end before the first address. -/
theorem HasTable.covered_iff (h : b.HasTable table) : (∀ header ∈ b.stubSections ++ table.headers,
        header.virtualAddress + header.virtualSize ≤ table.currentVirtualAddress) ↔
      ∀ header ∈ b.stubSections, header.virtualAddress + header.virtualSize ≤
        alignTo b.metadata.lastSectionVirtualEnd b.metadata.sectionAlignment := by
  have hge := h.built.placed.virtual_ge
  rw [forall_mem_append]
  constructor
  · rintro ⟨hs, -⟩ header hh
    by_cases hr : alignTo b.metadata.lastSectionVirtualEnd
        b.metadata.sectionAlignment < table.currentVirtualAddress
    · exact h.stub_end_le hr hh
    · exact (hs header hh).trans (Nat.le_of_not_lt hr)
  · intro hs
    exact ⟨fun header hh => (hs header hh).trans hge,
      fun header hh => (h.built.placed.headers header hh).virtual_le⟩

theorem HasTable.wellFormed_iff (h : b.HasTable table) {output : Output}
    (hb : output.bytes = b.image table) (hs : output.sections.length = table.sections.length) :
    b.WellFormed output ↔ b.Aligned := by
  have had := h.added_eq hb hs
  constructor
  · intro hw
    obtain ⟨size, hsz, hc⟩ := hw.covered
    rw [hb, h.uintAt_sizeOfImage, h.sizeOfImage_eq] at hsz
    cases hsz
    rw [had] at hc
    exact ⟨h.fileAligned_iff.1 (had ▸ hw.fileAligned), h.covered_iff.1 hc⟩
  · intro ha
    exact {
      length := by rw [hb, h.length_image, h.totalSize]
      unchanged := fun i hi hp => by
        rw [hb, h.getElem?_image hi (hs ▸ hp)]
      fileAligned := by
        rw [had]
        exact h.fileAligned_iff.2 ha.file
      sectionAligned := by
        rw [had]
        exact fun header hh => (h.built.placed.headers header hh).virtual_dvd
      apart := by
        rw [had]
        exact h.built.placed.ordered.imp Precedes.apart
      stub_apart := by
        rw [had]
        exact fun header hh other ho => h.stub_apart hh ho
      covered := by
        rw [had, hb]
        exact ⟨_, h.uintAt_sizeOfImage.trans (congrArg _ h.sizeOfImage_eq),
          h.covered_iff.2 ha.image⟩
      content := by
        rw [had, hb]
        exact h.holds }

end Build

/-- **Images.** The pass over the streams gives a well-formed image as far as the stub is
aligned. -/
theorem image_wellFormed_iff [PeParser] (sha256 : Bytes → Bytes) (b : Build) :
    (∃ output, write sha256 b.manifest b.rest b.inputs = .ok output ∧ b.WellFormed output) ↔
      b.Aligned := by
  obtain ⟨table, ht⟩ := b.exists_table
  have hi : b.WellFormed ⟨b.image table, table.sections.map fun entry =>
      { entry with checksum := sha256 (b.inputs.content entry) }⟩ ↔ b.Aligned :=
    ht.wellFormed_iff rfl (length_map _)
  constructor
  · rintro ⟨output, hw, hwl⟩
    rw [ht.write_eq] at hw
    cases hw
    exact hi.1 hwl
  · intro ha
    exact ⟨_, ht.write_eq sha256, hi.2 ha⟩

theorem exists_build [PeParser] {stub : Reader} {stubSize : ℕ} {inputs : Inputs} (hpl : (do
      let probed ← probe stub
      prepare probed.1 stubSize inputs.sizes).toBool = true)
    (hs : stubSize ≤ stub.data.length)
    (hi : ∀ name, (inputs.get name).size ≤ (inputs.get name).reader.data.length) :
    ∃ b : Build, b.stub = stub ∧ b.stubSize = stubSize ∧ b.inputs = inputs := by
  cases hp : probe stub with
  | error e =>
    rw [hp] at hpl
    cases hpl
  | ok probed =>
    cases hm : prepare probed.1 stubSize inputs.sizes with
    | error e =>
      rw [hp, ok_bind, hm] at hpl
      cases hpl
    | ok manifest =>
      exact ⟨⟨stub, stubSize, inputs, probed.1, probed.2, manifest, hp, hm, hs, hi⟩, rfl, rfl, rfl⟩

attribute [local instance] plainParser

/-- An image without sections, with one byte behind it. -/
def overlaidStub : Reader := ⟨emptyImage ++ [0], fun _ => 4096⟩

/-- Three components of one byte. -/
def smallInputs : Inputs :=
  let byte : Input := ⟨⟨[1], fun _ => 0⟩, 1⟩
  ⟨byte, byte, byte, ⟨⟨[], fun _ => 0⟩, 0⟩⟩

/-- The sections are added at an odd offset. -/
theorem overlaid_image_unaligned : ∃ b : Build, b.stub = overlaidStub ∧ b.stubSize = 513 ∧
    b.inputs = smallInputs ∧ ∃ output, write id b.manifest b.rest b.inputs = .ok output ∧
      ¬b.WellFormed output := by
  have hp : (probe overlaidStub).map (fun probed =>
      (probed.1.metadata.lastSectionFileEnd, probed.1.metadata.fileAlignment)) =
        .ok (512, 512) := by
    decide +kernel
  obtain ⟨b, hst, hs, hi⟩ := @exists_build _ overlaidStub 513 smallInputs
    (by decide +kernel) (by decide +kernel) (fun name => by cases name <;> decide)
  obtain ⟨table, ht⟩ := b.exists_table
  refine ⟨b, hst, hs, hi, _, ht.write_eq id, fun hw => ?_⟩
  rw [← hst, b.probe_eq] at hp
  obtain ⟨he, ha⟩ := Prod.mk.inj (Except.ok.inj hp)
  have hf := ((ht.wellFormed_iff rfl (length_map _)).1 hw).file
  rw [he, ha, hs] at hf
  exact absurd hf (by decide)

end Muak.Yuki
