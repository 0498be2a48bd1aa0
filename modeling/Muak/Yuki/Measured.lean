import Muak.Uki.Measure
import Muak.Yuki.Image

/-!
# Measurements of an image

The sections of an image are measured three times: while it is written, from its file, and after it
was loaded into memory.

* `load`: the memory into which an image is loaded.
* `Build.Alike`: the three measurements agree.
* `measured_alike_iff`: they do if no component is empty, the file can be read in one pass and no
  section of the stub is loaded over the headers.
-/

namespace Muak.Yuki

open Bytes Uki List Nat

/-! ## Loading -/

/-- The bytes of a section in memory: as many of its data as fit, then zeros. -/
def loadedBytes (image : Bytes) (header : SectionHeader) : Bytes :=
  let raw := if header.pointerToRawData ≠ 0 then
    (image.drop header.pointerToRawData).take header.sizeOfRawData else []
  raw.take header.virtualSize ++ zeros (header.virtualSize - raw.length)

/-- Sections are loaded one after another, each at its address. -/
def loadSections (image memory : Bytes) (headers : List SectionHeader) : Bytes :=
  headers.foldl (fun memory header => put memory header.virtualAddress (loadedBytes image header))
    memory

/-- The image in memory: the headers in zeroed memory of `SizeOfImage` bytes, then the sections. -/
def load (pe : PeFile) (image : Bytes) : Bytes :=
  let size := (uintAt image (pe.ntHeadersOffset + 80) 4).getD 0
  loadSections image (put (zeros size) 0 (image.take pe.sizeOfHeaders)) pe.sections

section

variable {image memory : Bytes} {header : SectionHeader} {headers : List SectionHeader}

theorem length_loadedBytes : (loadedBytes image header).length = header.virtualSize := by
  simp only [loadedBytes, length_append, length_take, length_zeros]
  omega

@[simp] theorem length_loadSections :
    (loadSections image memory headers).length = memory.length := by
  induction headers generalizing memory with
  | nil => rfl
  | cons header headers ih => exact ih.trans (length_put ..)

theorem loadSections_append (rest : List SectionHeader) :
    loadSections image memory (headers ++ rest) =
      loadSections image (loadSections image memory headers) rest := foldl_append

/-- Sections elsewhere do not matter. -/
theorem slice_loadSections_of_disjoint {start len : ℕ} (h : ∀ header ∈ headers,
      header.virtualSize = 0 ∨ header.virtualAddress + header.virtualSize ≤ start ∨
        start + len ≤ header.virtualAddress) :
    slice (loadSections image memory headers) start len = slice memory start len := by
  induction headers generalizing memory with
  | nil => rfl
  | cons header headers ih =>
    obtain ⟨hh, h⟩ := forall_mem_cons.1 h
    refine (ih h).trans ?_
    dsimp only
    have hlen := @length_loadedBytes image header
    rcases hh with hz | hne
    · rw [length_eq_zero_iff.1 (hlen.trans hz), put_nil]
    · exact slice_put_of_disjoint (by rw [hlen]; exact hne)

/-- Sections that follow each other are all there. -/
theorem slice_loadSections (hord : headers.Pairwise Precedes)
    (hf : ∀ header ∈ headers, header.virtualAddress + header.virtualSize ≤ memory.length)
    (hm : header ∈ headers) :
    slice (loadSections image memory headers) header.virtualAddress header.virtualSize =
      some (loadedBytes image header) := by
  induction headers generalizing memory with
  | nil => cases hm
  | cons next headers ih =>
    obtain ⟨hn, hf⟩ := forall_mem_cons.1 hf
    obtain ⟨hlt, hord⟩ := pairwise_cons.1 hord
    have hlen := @length_loadedBytes image next
    rcases mem_cons.1 hm with rfl | hm
    · refine (slice_loadSections_of_disjoint fun other ho => .inr (.inr (hlt other ho).2)).trans ?_
      exact slice_put (by rw [hlen]; exact hn) hlen
    · exact ih hord (by simpa using hf) hm

end

/-- A build whose stub has no section of a unified kernel image. -/
structure PlainBuild [PeParser] extends Build where
  plain : ∀ header ∈ toBuild.stubSections, ∀ name, canonicalName header.name ≠ .ok (some name)

namespace Build

variable [PeParser] (sha256 : Bytes → Bytes) (b : Build) {image : Bytes}
  {position fileAlignment first last : ℕ} {sections : List Section} {inputs : Inputs}

/-- What is reported while an image is written, what is read from its file and what is found in
memory is the same. -/
def Alike : Prop :=
  ∃ output records, write sha256 b.manifest b.rest b.inputs = .ok output ∧
    fromFile sha256 output.bytes = .ok records ∧
    sortByRank (output.sections.map fun entry => (entry.name, entry.checksum)) =
      sortByRank records ∧
    ∃ pe sections, PeParser.parse output.bytes = some pe ∧
      Sections.parse (load pe output.bytes) = .ok sections ∧
      sections.iterSections.map (fun item => (item.1, sha256 item.2)) = sortByRank records

/-- The offset of the PE header. -/
def peOffset : ℕ := b.metadata.fileHeaderOffset - 4

/-- The end of the section table of the image. -/
def tableEnd : ℕ := b.slotOffset + b.components.length * sectionHeaderSize

/-- The number of sections is stored over the pointer to the PE header. -/
def Displaced : Prop := 0x34 < b.peOffset ∧ b.peOffset < 0x3A

/-- The sections of the stub are loaded behind the headers. -/
def Clear : Prop := ∀ header ∈ b.stubSections,
  header.virtualSize = 0 ∨ b.metadata.sizeOfHeaders ≤ header.virtualAddress

/-- No component is empty, the file has a header of the usual form with few sections and proper
names, and the data of the stub's sections is in order, after the section table and not behind the
place of the first component. -/
structure Measurable : Prop where
  cmdline : 0 < b.inputs.cmdline.size
  initramfs : 0 < b.inputs.initramfs.size
  kernel : 0 < b.inputs.kernel.size
  header : 64 ≤ b.peOffset
  count : b.metadata.existingSectionCount + b.components.length ≤ 96
  names : ∀ header ∈ b.stubSections, canonicalName header.name = .ok none
  ascending : Ascending b.tableEnd b.stubSections
  last : lastPointer b.tableEnd b.stubSections ≤ firstOffset b.metadata b.stubSize

/-! ## The image parses -/

variable {b} {table : Table}

theorem HasTable.length_components (h : b.HasTable table) :
    b.components.length = table.headers.length := by
  rw [h.components_eq, length_map, h.built.placed.sections.length_eq]

/-- Fields outside of the three places are those of the stub. -/
theorem uintAt_patched {offset width : ℕ}
    (hc : offset + width ≤ b.metadata.fileHeaderOffset + 2 ∨
      b.metadata.fileHeaderOffset + 4 ≤ offset)
    (hsz : offset + width ≤ b.metadata.optionalHeaderOffset + 56 ∨
      b.metadata.optionalHeaderOffset + 60 ≤ offset)
    (hs : offset + width ≤ b.slotOffset) :
    uintAt (b.headerBytes table) offset width = uintAt b.probed.prefixBytes offset width := by
  unfold slotOffset at hs
  rw [uintAt, uintAt, headerBytes, patched, slice_put_of_disjoint (.inr hs),
    slice_put_of_disjoint (by rw [length_leBytes]; omega),
    slice_put_of_disjoint (by rw [length_leBytes]; omega)]

variable {pe : PeFile}

theorem HasTable.uintAt_count (h : b.HasTable table) (hof : b.metadata.Of pe) :
    uintAt (b.headerBytes table) (pe.ntHeadersOffset + 6) 2 =
      some (pe.sections ++ table.headers).length := by
  obtain ⟨hc, hsz, hsl, hlen⟩ := h.places
  have hp := h.length_prefixBytes
  have hf := hof.fileHeaderOffset
  have hle := h.built.count_le
  unfold slotOffset at hsz hsl
  have hs : slice (b.headerBytes table) (b.metadata.fileHeaderOffset + 2) 2 = some (leBytes 2
        (b.metadata.existingSectionCount + table.sections.length)) := by
    rw [headerBytes, patched, slice_put_of_disjoint (by omega), slice_put_of_disjoint (by omega)]
    exact slice_put (by rw [length_leBytes]; omega) (length_leBytes ..)
  rw [show pe.ntHeadersOffset + 6 = b.metadata.fileHeaderOffset + 2 by omega, uintAt, hs,
    Option.map_some, ofLe_leBytes (lt_of_le_of_lt hle (by decide)), hof.existingSectionCount,
    h.built.placed.sections.length_eq, length_append]

/-- The new headers come right behind those of the stub. -/
theorem slotOffset_eq (hof : b.metadata.Of pe) :
    b.slotOffset = pe.ntHeadersOffset + 24 + pe.sizeOfOptionalHeader +
      pe.sections.length * sectionHeaderSize := by
  rw [slotOffset, hof.sectionTableOffset, hof.existingSectionCount]

/-- The section table of the stub, with the new headers behind it. -/
theorem HasTable.sectionTable (h : b.HasTable table) (hp : pe.Parsed b.probed.prefixBytes)
    (hof : b.metadata.Of pe) :
    ∃ bytes, slice (b.headerBytes table) (pe.ntHeadersOffset + 24 + pe.sizeOfOptionalHeader)
        ((pe.sections ++ table.headers).length * sectionHeaderSize) = some bytes ∧
      pe.sections ++ table.headers = (chunks sectionHeaderSize
        (pe.sections ++ table.headers).length bytes).map SectionHeader.ofBytes := by
  obtain ⟨hcn, hsz, hslo, hlen⟩ := h.places
  have hd := hp.dataDirectories
  have ho := hof.optionalHeaderOffset
  have hslt := slotOffset_eq hof
  obtain ⟨old, hol, hs⟩ := hp.sectionTable
  have hsl : slice (b.headerBytes table) (pe.ntHeadersOffset + 24 + pe.sizeOfOptionalHeader)
      (pe.sections.length * sectionHeaderSize) = some old := by
    unfold slotOffset at hslt
    rw [headerBytes, patched, slice_put_of_disjoint (by omega),
      slice_put_of_disjoint (by rw [length_leBytes]; omega),
      slice_put_of_disjoint (by rw [length_leBytes]; omega), hol]
  have hn := h.slice_slots
  rw [hslt] at hn
  refine ⟨old ++ (table.headers.map headerToBytes).flatten, ?_, ?_⟩
  · rw [length_append, add_mul]
    exact slice_add hsl hn
  · have hc := h.chunks_slots []
    rw [append_nil] at hc
    rw [length_append, chunks_append (slice_eq_some_iff.1 hol).2.1, map_append, ← hs, hc]

theorem HasTable.parsed_patched (h : b.HasTable table) (hpl : ¬b.Displaced) :
    ∃ pe : PeFile, b.metadata.Of pe ∧ b.stubSections = pe.sections ∧
      PeFile.Parsed (b.headerBytes table)
        { pe with sections := pe.sections ++ table.headers } := by
  obtain ⟨pe, hp, hof, hsc⟩ := h.stubSections_eq
  have hh := hp.ntHeaders
  have hd := hp.dataDirectories
  have hfi := hof.fileHeaderOffset
  have ho := hof.optionalHeaderOffset
  have hslo := slotOffset_eq hof
  rw [Displaced, peOffset] at hpl
  refine ⟨pe, hof, hsc, ?_⟩
  have hfl {offset width n : ℕ} (hv : uintAt b.probed.prefixBytes offset width = some n)
      (hc : offset + width ≤ pe.ntHeadersOffset + 6 ∨ pe.ntHeadersOffset + 8 ≤ offset)
      (hsiz : offset + width ≤ pe.ntHeadersOffset + 80 ∨ pe.ntHeadersOffset + 84 ≤ offset)
      (hsl : offset + width ≤ pe.ntHeadersOffset + 136) :
      uintAt (b.headerBytes table) offset width = some n := by
    rw [uintAt_patched (by omega) (by omega) (by omega), hv]
  have hm := hfl hp.magic (by omega) (by omega) (by omega)
  have hnt := hfl hp.ntHeadersOffset (by omega) (by omega) (by omega)
  have hsg := hfl hp.signature (by omega) (by omega) (by omega)
  have hmagic64 := hfl hp.optionalMagic (by omega) (by omega) (by omega)
  have hsz := hfl hp.sizeOfOptionalHeader (by omega) (by omega) (by omega)
  have hs := hfl hp.sectionAlignment (by omega) (by omega) (by omega)
  have hf := hfl hp.fileAlignment (by omega) (by omega) (by omega)
  have hsi := hfl hp.sizeOfHeaders (by omega) (by omega) (by omega)
  have hn := hfl hp.numberOfRvaAndSizes (by omega) (by omega) (by omega)
  exact ⟨hm, hnt, by rw [h.length_patched, ← h.length_prefixBytes]; exact hh, hsg,
    hmagic64, h.uintAt_count hof, hsz, hs, hf,
    hsi, hn, hd, h.sectionTable hp hof⟩

/-! ## The file -/

variable {sha256}

/-- The measurements of the components, without the empty ones. -/
def measured (sha256 : Bytes → Bytes) (components : List (SectionName × Bytes)) :
    List MeasuredSection :=
  (components.filter (·.2 ≠ [])).map fun component => (component.1, sha256 component.2)

omit [PeParser] in
theorem slice_content {entry : Section} (hw : Writable inputs fileAlignment entry)
    (hs : slice image entry.fileOffset (alignTo entry.size fileAlignment) =
      some (inputs.block fileAlignment entry)) :
    slice image entry.fileOffset entry.size = some (inputs.content entry) := by
  rw [← Nat.add_sub_cancel' hw.size_le] at hs
  obtain ⟨first, second, hf, -, happend⟩ := slice_add_eq_some hs
  have hlen := (slice_eq_some_iff.1 hf).2.1
  rw [hf, (append_inj happend (hlen.trans hw.length_content.symm)).1]

omit [PeParser] in
/-- Sections that follow each other are measured in their order. -/
theorem walk_contiguous {headers : List SectionHeader}
    (hc : Contiguous fileAlignment first sections last)
    (hhdrs : List.Forall₂ (HeaderOf fileAlignment) sections headers)
    (hw : ∀ entry ∈ sections, Writable inputs fileAlignment entry)
    (hs : ∀ entry ∈ sections, slice image entry.fileOffset
      (alignTo entry.size fileAlignment) = some (inputs.block fileAlignment entry))
    (hlen : image.length < 2 ^ 64) {records : List MeasuredSection}
    (hp : position ≤ first)
    (hnames : (records.map Prod.fst ++ sections.map Section.name).Nodup) :
    walk sha256 headers records (cursorAt image position) = .ok (records ++
      measured sha256 (sections.map fun entry => (entry.name, inputs.content entry))) := by
  induction hc generalizing headers records position with
  | nil offset =>
    cases hhdrs
    rw [walk, map_nil, measured, filter_nil, map_nil, append_nil]
  | @cons entry sections last hrest ih =>
    cases hhdrs with
    | @cons _ header _ headers hhdr hhdrs =>
    obtain ⟨he, hsc⟩ := forall_mem_cons.1 hw
    obtain ⟨hsl, hs⟩ := forall_mem_cons.1 hs
    have hcn := slice_content he hsl
    rw [hhdr.1]
    have hf : entry.name ∉ records.map Prod.fst := fun hmem =>
      (nodup_append.1 hnames).2.2 _ hmem _ mem_cons_self rfl
    obtain ⟨next, hnext, hv⟩ := @visit_eq sha256 image position records (buildHeader entry.name
      entry.size (alignTo entry.size fileAlignment) entry.fileOffset header.virtualAddress)
      entry.name _ rfl hp hcn hf hlen
    have hn : next ≤ entry.fileOffset + alignTo entry.size fileAlignment :=
      hnext.trans (Nat.add_le_add_left he.size_le _)
    have hsize : (buildHeader entry.name entry.size (alignTo entry.size fileAlignment)
      entry.fileOffset header.virtualAddress).virtualSize = entry.size := rfl
    have hem : inputs.content entry = [] ↔ ¬0 < entry.size := by
      rw [← length_eq_zero_iff, he.length_content]
      omega
    rw [walk, hv, ok_bind, hsize]
    by_cases hpos : 0 < entry.size
    · rw [if_pos hpos, ih hhdrs hsc hs hn (by
        rw [map_append, append_assoc]
        exact hnames), map_cons, measured, measured, filter_cons_of_pos (by
          rw [decide_eq_true_eq]
          exact fun hnil => hem.1 hnil hpos), append_assoc]
      rfl
    · rw [if_neg hpos, append_nil, ih hhdrs hsc hs hn
        (hnames.sublist (List.Sublist.append_left (sublist_cons_self _ _) _)), map_cons,
        measured, measured, filter_cons_of_neg (by
          rw [decide_eq_true_eq, not_not]
          exact hem.2 hpos)]

variable {headers : List SectionHeader}

omit [PeParser] in
theorem exists_first_header (hc : Contiguous fileAlignment first sections last)
    (hhdrs : List.Forall₂ (HeaderOf fileAlignment) sections headers) (hne : sections ≠ []) :
    ∃ header rest, headers = header :: rest ∧ header.pointerToRawData = first := by
  cases hc with
  | nil => exact absurd rfl hne
  | cons hrest =>
    cases hhdrs with
    | cons hhdr hhdrs => exact ⟨_, _, rfl, by rw [hhdr.1]; rfl⟩

variable {header : SectionHeader}

omit [PeParser] in
/-- A section before the cursor cannot be read. -/
theorem le_of_walk_cons {records result : List MeasuredSection}
    (h : walk sha256 (header :: headers) records (cursorAt image position) = .ok result) :
    position ≤ header.pointerToRawData := by
  obtain ⟨next, hv, -⟩ := of_bind h
  unfold visit at hv
  by_contra hb
  rw [if_pos (show header.pointerToRawData < (cursorAt image position).position from
    Nat.lt_of_not_le hb)] at hv
  cases hv

theorem HasTable.nodup_names (h : b.HasTable table) : (table.sections.map Section.name).Nodup := by
  have hnames : table.sections.map Section.name =
      (table.sections.map fun entry => (entry.name, entry.size)).map Prod.fst := by
    rw [map_map]
    rfl
  rw [hnames, h.built.sections, Components.filterMap_sizes]
  split_ifs
  · exact (by decide : [SectionName.cmdline, .initrd, .kernel, .osrel].Nodup)
  · exact (by decide : [SectionName.cmdline, .initrd, .kernel].Nodup)

/-- The added sections are measured from wherever the first of them is ahead. -/
theorem HasTable.walk_headers_iff (h : b.HasTable table) {result : List MeasuredSection} :
    walk sha256 table.headers [] (cursorAt (b.image table) position) = .ok result ↔
      position ≤ firstOffset b.metadata b.stubSize ∧ result = measured sha256 b.components := by
  have hlen : (b.image table).length < 2 ^ 64 := by
    have hlt := h.built.placed.file_lt
    rw [h.length_image]
    omega
  have hw (hp : position ≤ firstOffset b.metadata b.stubSize) :
      walk sha256 table.headers [] (cursorAt (b.image table) position) =
        .ok (measured sha256 b.components) := by
    have hnames : (([] : List MeasuredSection).map Prod.fst ++
        table.sections.map Section.name).Nodup := h.nodup_names
    rw [walk_contiguous h.built.contiguous h.built.placed.sections h.writable
      (fun entry he => h.slice_image he) hlen hp hnames, h.components_eq,
      nil_append]
  constructor
  · intro hr
    have hp : position ≤ firstOffset b.metadata b.stubSize := by
      obtain ⟨header, rest, hh, hf⟩ := exists_first_header h.built.contiguous
        h.built.placed.sections h.sections_ne_nil
      rw [hh] at hr
      exact hf ▸ le_of_walk_cons hr
    exact ⟨hp, Except.ok.inj (hr.symm.trans (hw hp))⟩
  · rintro ⟨hp, rfl⟩
    exact hw hp

theorem content_eq_nil_iff (name : SectionName) :
    (b.inputs.get name).reader.data.take (b.inputs.get name).size = [] ↔
      ¬0 < (b.inputs.get name).size := by
  have ha := b.inputs_available name
  rw [← length_eq_zero_iff, length_take]
  omega

variable {component : SectionName × Bytes}

theorem eq_content_of_mem_components (h : component ∈ b.components) : component.2 =
      (b.inputs.get component.1).reader.data.take (b.inputs.get component.1).size := by
  have ha : ∀ component ∈ b.components, component.2 =
      (b.inputs.get component.1).reader.data.take (b.inputs.get component.1).size := by
    rw [components, forall_mem_append, forall_mem_cons, forall_mem_cons, forall_mem_singleton]
    refine ⟨⟨rfl, rfl, rfl⟩, ?_⟩
    split_ifs
    · exact forall_mem_singleton.2 rfl
    · exact forall_mem_nil _
  exact ha component h

/-- Only the three components that are always there can be empty. -/
theorem components_ne_nil_iff : (∀ component ∈ b.components, component.2 ≠ []) ↔
      0 < b.inputs.cmdline.size ∧ 0 < b.inputs.initramfs.size ∧ 0 < b.inputs.kernel.size := by
  rw [components, forall_mem_append, forall_mem_cons, forall_mem_cons, forall_mem_singleton]
  simp only [ne_eq, content_eq_nil_iff, not_not]
  refine ⟨fun hs => hs.1, fun hs => ⟨hs, ?_⟩⟩
  split_ifs with ho
  · exact forall_mem_singleton.2 fun hn => (content_eq_nil_iff .osrel).1 hn ho
  · exact forall_mem_nil _

variable {records : List MeasuredSection}

theorem checkKernel_measured_iff : checkKernel (measured sha256 b.components) = .ok records ↔
      0 < b.inputs.kernel.size ∧ records = measured sha256 b.components := by
  have hk : (measured sha256 b.components).any (·.1 = .kernel) ↔ 0 < b.inputs.kernel.size := by
    rw [any_eq_true]
    constructor
    · rintro ⟨record, hrc, hn⟩
      obtain ⟨component, hc, rfl⟩ := mem_map.1 hrc
      obtain ⟨hm, hne⟩ := mem_filter.1 hc
      rw [decide_eq_true_eq, eq_content_of_mem_components hm, of_decide_eq_true hn, ne_eq,
        content_eq_nil_iff, not_not] at hne
      exact hne
    · intro hps
      have hm : (SectionName.kernel, b.inputs.kernel.reader.data.take b.inputs.kernel.size) ∈
          b.components := mem_append_left _ (.tail _ (.tail _ (.head _)))
      refine ⟨_, mem_map_of_mem (mem_filter.2 ⟨hm, decide_eq_true fun hnl => ?_⟩),
        decide_eq_true rfl⟩
      exact (content_eq_nil_iff .kernel).1 hnl hps
  unfold checkKernel
  split_ifs with han
  · exact ⟨fun hr => ⟨hk.1 han, (Except.ok.inj hr).symm⟩,
      fun ha => by rw [ha.2]⟩
  · exact ⟨fun hr => (by cases hr), fun ha => absurd (hk.2 ha.1) han⟩

/-- The file is measured if the stub's sections are in order and the kernel is not empty. -/
theorem HasTable.fromFile_iff (h : b.HasTable table) (hpl : ∀ header ∈ b.stubSections, ∀ name,
      canonicalName header.name ≠ .ok (some name)) (hpla : ¬b.Displaced) :
    fromFile sha256 (b.image table) = .ok records ↔
      64 ≤ b.peOffset ∧ b.metadata.existingSectionCount + b.components.length ≤ 96 ∧
        (∀ header ∈ b.stubSections, canonicalName header.name = .ok none) ∧
        Ascending b.tableEnd b.stubSections ∧
        lastPointer b.tableEnd b.stubSections ≤ firstOffset b.metadata b.stubSize ∧
        0 < b.inputs.kernel.size ∧ records = measured sha256 b.components := by
  obtain ⟨pe, hof, hs, hpt⟩ := h.parsed_patched hpla
  have hpr := hpt.of_isPrefix (@HasTable.patched_isPrefix _ b table)
  have hfl := hof.fileHeaderOffset
  have hnt : b.peOffset = pe.ntHeadersOffset := by
    rw [peOffset]
    omega
  have hc : (pe.sections ++ table.headers).length =
      b.metadata.existingSectionCount + b.components.length := by
    rw [length_append, hof.existingSectionCount, h.length_components]
  have he : pe.ntHeadersOffset + 24 + pe.sizeOfOptionalHeader +
      (pe.sections ++ table.headers).length * sectionHeaderSize = b.tableEnd := by
    rw [tableEnd, slotOffset, hof.sectionTableOffset, hc, add_mul, ← add_assoc]
  rw [fromFile_of_parsed hpr]
  have hp : b.tableEnd ≤ (b.image table).length := by
    obtain ⟨bytes, ht, -⟩ := hpr.sectionTable
    exact he ▸ (slice_eq_some_iff.1 ht).1
  rw [he, hc, ← hs, ← hnt]
  by_cases hsm : b.peOffset < 64
  · rw [if_pos hsm]
    exact ⟨fun hr => (by cases hr), fun hal => absurd hsm (not_lt.2 hal.1)⟩
  by_cases hm : 96 < b.metadata.existingSectionCount + b.components.length
  · rw [if_neg hsm, if_pos hm]
    exact ⟨fun hr => (by cases hr), fun hal => absurd hm (not_lt.2 hal.2.1)⟩
  rw [if_neg hsm, if_neg hm, bind_eq_ok_iff]
  constructor
  · rintro ⟨result, hw, hk⟩
    obtain ⟨hnames, ha, -, hrest⟩ := (walk_append hpl hp).1 hw
    obtain ⟨hl, rfl⟩ := h.walk_headers_iff.1 hrest
    exact ⟨Nat.le_of_not_lt hsm, Nat.le_of_not_lt hm, hnames, ha, hl, checkKernel_measured_iff.1 hk⟩
  · rintro ⟨-, -, hnames, ha, hl, hk⟩
    have hf := h.built.placed.first_le
    exact ⟨_, (walk_append hpl hp).2 ⟨hnames, ha,
      hl.trans (h.length_image ▸ hf), h.walk_headers_iff.2 ⟨hl, rfl⟩⟩,
      checkKernel_measured_iff.2 hk⟩

/-! ## The order -/

theorem ordered_components :
    b.components.Pairwise fun x y => canonicalRank x.1 ≤ canonicalRank y.1 := by
  rw [components]
  split_ifs
  all_goals
    simp only [cons_append, nil_append, pairwise_cons, forall_mem_cons]
    decide

/-- Measurements of some of the components are in order already. -/
theorem sortByRank_map {components : List (SectionName × Bytes)}
    (h : components.Sublist b.components) :
    sortByRank (components.map fun component => (component.1, sha256 component.2)) =
      components.map fun component => (component.1, sha256 component.2) :=
  Pairwise.insertionSort_eq (pairwise_map.2 (ordered_components.sublist h))

theorem sortByRank_measured :
    sortByRank (measured sha256 b.components) = measured sha256 b.components :=
  sortByRank_map filter_sublist

/-- Only empty components are missing in a file. -/
theorem map_eq_measured_iff :
    b.components.map (fun component => (component.1, sha256 component.2)) =
      measured sha256 b.components ↔ ∀ component ∈ b.components, component.2 ≠ [] := by
  constructor
  · intro heq component hc
    have hlen := congrArg length heq
    rw [measured, length_map, length_map] at hlen
    have hf := filter_sublist.eq_of_length hlen.symm
    exact of_decide_eq_true (filter_eq_self.1 hf component hc)
  · intro hne
    rw [measured, filter_eq_self.2 fun component hc =>
      decide_eq_true (hne component hc)]

/-! ## Memory -/

/-- The data of an added section, without what it is filled up with. -/
theorem HasTable.loadedBytes_eq (h : b.HasTable table) (hhd : header ∈ table.headers)
    (hh : Holds (b.image table) header component) :
    loadedBytes (b.image table) header = component.2 := by
  obtain ⟨-, hsz, hs⟩ := hh
  have hb := base_of_parse h.parse b.stubSize
  have hps := hb.file.pos
  have hfl := hb.file_le
  have hp := h.built.placed.headers header hhd
  have hf := hp.first_le
  have hle := hp.size_le
  obtain ⟨he, hlen, -⟩ := slice_eq_some_iff.1 hs
  rw [slice, if_pos he] at hs
  rw [loadedBytes, if_pos (by omega), Option.some.inj hs, hlen, hsz, take_left,
    Nat.sub_eq_zero_of_le (hsz ▸ hle)]
  exact append_nil _

section

variable (h : b.HasTable table) (hof : b.metadata.Of pe)
  (hne : ∀ component ∈ b.components, component.2 ≠ [])

include h hof hne

/-- The added sections are behind the headers, and within the image. -/
theorem HasTable.headers_lt : b.metadata.sizeOfHeaders ≤ table.currentVirtualAddress ∧
    ∀ header ∈ table.headers, b.metadata.sizeOfHeaders ≤ header.virtualAddress := by
  have hr : alignTo b.metadata.lastSectionVirtualEnd
      b.metadata.sectionAlignment < table.currentVirtualAddress := by
    obtain ⟨header, rest, hhd, -⟩ := exists_first_header h.built.contiguous
      h.built.placed.sections h.sections_ne_nil
    have hhl := h.holds
    rw [hhd] at hhl
    obtain ⟨component, _, hh, -, hc⟩ := forall₂_cons_left_iff.1 hhl
    have hps := length_pos_of_ne_nil (hne component (hc ▸ mem_cons_self))
    have hp := h.built.placed.headers header (hhd ▸ mem_cons_self)
    have hge := hp.virtual_ge
    have hle := hp.virtual_le
    rw [hh.2.1] at hle
    omega
  have he := (h.virtualEnd_le hr).2
  have hsz := (sectionEnds_spec hof.ends).2.1
  dsimp only at hsz
  rw [← hof.sizeOfHeaders] at hsz
  refine ⟨by omega, fun header hhdr => ?_⟩
  have hge := (h.built.placed.headers header hhdr).virtual_ge
  omega

variable (hs : b.stubSections = pe.sections) (hclear : b.Clear)

include hs hclear

/-- The image in memory begins with its headers, and has the added sections. -/
theorem HasTable.load_spec {memory : Bytes}
    (hm : memory = load { pe with sections := pe.sections ++ table.headers } (b.image table)) :
    b.headerBytes table <+: memory ∧
      ∀ header ∈ table.headers, slice memory header.virtualAddress header.virtualSize =
        some (loadedBytes (b.image table) header) := by
  obtain ⟨hle, hge⟩ := h.headers_lt hof hne
  have hpt := h.length_patched
  have ho := hof.optionalHeaderOffset
  have hi : uintAt (b.image table) (pe.ntHeadersOffset + 80) 4 =
      some table.currentVirtualAddress := by
    rw [← h.sizeOfImage_eq, ← h.uintAt_sizeOfImage, ho]
  have ht : (b.image table).take pe.sizeOfHeaders = b.headerBytes table := by
    rw [← hof.sizeOfHeaders, ← hpt, image, append_assoc, take_left]
  rw [load, hi, ht, Option.getD_some, loadSections_append] at hm
  subst hm
  constructor
  · refine @isPrefix_of_slice _ _ b.metadata.sizeOfHeaders ?_
    rw [slice_loadSections_of_disjoint fun header hh => .inr (.inr (by
        rw [zero_add]; exact hge header hh)),
      slice_loadSections_of_disjoint fun header hh => (hclear header (hs ▸ hh)).imp_right
        fun hle => .inr (by rw [zero_add]; exact hle)]
    exact slice_put (by rw [hpt, length_zeros, zero_add]; exact hle) hpt
  · refine fun header hh => slice_loadSections h.built.placed.ordered (fun header hh => ?_) hh
    have hf := (h.built.placed.headers header hh).virtual_le
    rw [length_loadSections, length_put, length_zeros]
    exact hf

variable (hnames : ∀ header ∈ b.stubSections, canonicalName header.name = .ok none)
  (hp : PeFile.Parsed (b.headerBytes table)
    { pe with sections := pe.sections ++ table.headers })

include hnames hp

/-- The sections that are found in memory are iterated in the order of the components. -/
theorem HasTable.parse_load : ∃ sections,
    Sections.parse (load { pe with sections := pe.sections ++ table.headers } (b.image table)) =
      .ok sections ∧ sections.iterSections = b.components := by
  generalize hm : load _ (b.image table) = memory
  obtain ⟨hhd, hsc⟩ := h.load_spec hof hne hs hclear hm.symm
  have hl {header : SectionHeader} {component : SectionName × Bytes}
      (hhdr : header ∈ table.headers) (hc : component.2 ≠ [])
      (hh : Holds (b.image table) header component) : Loaded memory header component := by
    refine ⟨hh.1, ?_, by rw [hsc header hhdr, h.loadedBytes_eq hhdr hh]⟩
    rw [hh.2.1]
    exact (length_pos_of_ne_nil hc).ne'
  have hlf := (forall₂_and_left _ _).2 ⟨fun _ hhdr => hhdr, h.holds⟩
  have hr := (forall₂_and_left _ _).2 ⟨hne, hlf.flip⟩
  have hf : ukiSections memory (pe.sections ++ table.headers) = .ok b.components := by
    rw [ukiSections_append (hs ▸ hnames)]
    exact ukiSections_eq (hr.flip.imp fun _ _ ha => hl ha.2.1 ha.1 ha.2.2)
  have hpm := hp.of_isPrefix hhd
  have hlen := hpm.ntHeaders
  rw [Sections.parse, if_neg (by omega), PeParser.parse_eq_some_iff.2 hpm, okOr_some, ok_bind,
    hf, components]
  split_ifs
  · exact ⟨_, rfl, rfl⟩
  · exact ⟨_, rfl, rfl⟩

end

section

variable (h : b.HasTable table)

include h

theorem HasTable.checksums_eq : (table.sections.map fun entry =>
    { entry with checksum := sha256 (b.inputs.content entry) }).map
      (fun entry => (entry.name, entry.checksum)) =
    b.components.map fun component => (component.1, sha256 component.2) := by
  rw [h.components_eq, map_map, map_map]
  rfl

variable (hp : ∀ header ∈ b.stubSections, ∀ name, canonicalName header.name ≠ .ok (some name))

include hp

theorem HasTable.measurable_of_alike (hpl : ¬b.Displaced) (ha : b.Alike sha256) : b.Measurable := by
  obtain ⟨output, records, hw, hf, he, -⟩ := ha
  rw [h.write_eq] at hw
  cases hw
  obtain ⟨hh, hc, hnames, ha, hl, -, rfl⟩ := (h.fromFile_iff hp hpl).1 hf
  rw [h.checksums_eq, sortByRank_map (List.Sublist.refl _), sortByRank_measured,
    map_eq_measured_iff, components_ne_nil_iff] at he
  exact ⟨he.1, he.2.1, he.2.2, hh, hc, hnames, ha, hl⟩

theorem HasTable.alike_of_measurable (hclear : b.Clear) (hm : b.Measurable) : b.Alike sha256 := by
  have hpl : ¬b.Displaced := fun hd => absurd hm.header (not_le.2 (hd.2.trans (by decide)))
  have hne := components_ne_nil_iff.2 ⟨hm.cmdline, hm.initramfs, hm.kernel⟩
  obtain ⟨pe, hof, hs, hpt⟩ := h.parsed_patched hpl
  obtain ⟨sections, hsc, hi⟩ := h.parse_load hof hne hs hclear hm.names hpt
  refine ⟨_, _, h.write_eq sha256, (h.fromFile_iff hp hpl).2 ⟨hm.header, hm.count, hm.names,
    hm.ascending, hm.last, hm.kernel, rfl⟩, ?_, _, sections,
    PeParser.parse_eq_some_iff.2 (hpt.of_isPrefix (@HasTable.patched_isPrefix _ b table)), hsc, ?_⟩
  · rw [h.checksums_eq, sortByRank_map (List.Sublist.refl _), sortByRank_measured,
      map_eq_measured_iff.2 hne]
  · rw [hi, sortByRank_measured, map_eq_measured_iff.2 hne]

end

end Build

/-- **Measurements.** What is reported at the installation, what is read from the file at an update
and what is found in memory at the boot is the same if the image is measurable and the stub is
loaded behind its headers; and only then is it the same in the file, unless the number of sections
is stored over the pointer to the PE header (the file is read from another place then). -/
theorem measured_alike_iff [PeParser] (sha256 : Bytes → Bytes) (b : PlainBuild) :
    (b.Clear → b.Measurable → b.Alike sha256) ∧ (¬b.Displaced → b.Alike sha256 → b.Measurable) := by
  obtain ⟨table, ht⟩ := b.exists_table
  exact ⟨ht.alike_of_measurable b.plain, ht.measurable_of_alike b.plain⟩

attribute [local instance] plainParser

/-- No command line, and two components of one byte. -/
def silentInputs : Inputs :=
  let byte : Input := ⟨⟨[1], fun _ => 0⟩, 1⟩
  let nothing : Input := ⟨⟨[], fun _ => 0⟩, 0⟩
  ⟨nothing, byte, byte, nothing⟩

/-- An empty command line is reported, but not read. -/
theorem empty_cmdline_unlike : ∃ b : PlainBuild, b.stub = ⟨emptyImage, fun _ => 4096⟩ ∧
    b.stubSize = 512 ∧ b.inputs = silentInputs ∧ ∀ sha256, ∃ output records,
      write sha256 b.manifest b.rest b.inputs = .ok output ∧
      fromFile sha256 output.bytes = .ok records ∧
      output.sections.map Section.name = [.cmdline, .initrd, .kernel] ∧
      records.map Prod.fst = [.initrd, .kernel] ∧ ¬b.Alike sha256 := by
  have hp : (probe ⟨emptyImage, fun _ => 4096⟩).map (fun probed =>
      (probed.1.metadata.fileHeaderOffset, probed.1.metadata.sectionTableOffset,
        probed.1.metadata.existingSectionCount)) = .ok (68, 240, 0) := by
    decide +kernel
  obtain ⟨b, hst, hsz, hi⟩ := @exists_build _ ⟨emptyImage, fun _ => 4096⟩ 512 silentInputs
    (by decide +kernel) (by decide +kernel) (fun name => by cases name <;> decide)
  obtain ⟨table, htb⟩ := b.exists_table
  rw [← hst, b.probe_eq] at hp
  obtain ⟨hf, hp⟩ := Prod.mk.inj (Except.ok.inj hp)
  obtain ⟨ht, hcn⟩ := Prod.mk.inj hp
  have ho : b.peOffset = 64 := by rw [Build.peOffset, hf]
  have hpla : ¬b.Displaced := by
    rw [Build.Displaced, ho]
    decide
  have hn : b.stubSections = [] := by
    obtain ⟨pe, -, hof, hs⟩ := htb.stubSections_eq
    rw [hs, ← length_eq_zero_iff, ← hof.existingSectionCount, hcn]
  have hpl : ∀ header ∈ b.stubSections, ∀ name, canonicalName header.name ≠ .ok (some name) := by
    rw [hn]
    exact forall_mem_nil _
  have hc : b.components = [(.cmdline, []), (.initrd, [1]), (.kernel, [1])] := by
    rw [Build.components, hi]
    rfl
  have he : b.tableEnd ≤ firstOffset b.metadata b.stubSize := by
    refine le_trans ?_ b.stubSize_le
    rw [Build.tableEnd, Build.slotOffset, ht, hcn, hc, hsz]
    decide
  refine ⟨⟨b, hpl⟩, hst, hsz, hi, fun sha256 => ⟨_, _, htb.write_eq sha256,
    (htb.fromFile_iff hpl hpla).2 ⟨ho.ge, ?_, ?_, ?_, ?_, ?_, rfl⟩, ?_, ?_, ?_⟩⟩
  · rw [hcn, hc]
    decide
  · rw [hn]
    exact forall_mem_nil _
  · rw [hn]
    trivial
  · rw [hn]
    exact he
  · rw [hi]
    decide
  · have hnames := congrArg (map Prod.fst) htb.components_eq
    rw [hc, map_map] at hnames
    rw [map_map]
    exact hnames.symm
  · rw [hc]
    rfl
  · intro ha
    have hps := (htb.measurable_of_alike hpl hpla ha).cmdline
    rw [hi] at hps
    cases hps

end Muak.Yuki
