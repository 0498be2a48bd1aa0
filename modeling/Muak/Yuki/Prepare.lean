import Mathlib.Data.List.Sort
import Muak.Yuki.Table

/-!
# The plan of an image

`toolchain/yuki/src/probe.rs`, `pe/header.rs`, `layout.rs` and `prepare.rs`: the headers of the stub
are read and patched, and all that is needed to write the image is computed from sizes.

* `probe`, `patch`, `prepare`: the steps of the plan.
* `patch_eq`: the headers are changed in three places.
* `prepare_eq_ok`: what a plan consists of.
-/

namespace Muak.Yuki

open Bytes Uki List Nat

/-! ## Probing -/

/-- What is read of the stub before the plan is made. -/
structure Probe where
  consumed : ℕ
  prefixBytes : Bytes
  metadata : Metadata

/-- The headers are neither too small nor too large. -/
def checkHeaderBytes (headerBytes : ℕ) : Result Unit :=
  if 512 ≤ headerBytes ∧ headerBytes ≤ 65536 then .ok ()
  else .error (.invalidPeStructure
    ("size of headers " ++ toString headerBytes ++ " outside [512, 65536]"))

/-- `probe::probe`, with the stream after it. -/
def probe [PeParser] (stub : Reader) : Result (Probe × Reader) := do
  let first ← okOr (stub.readExact 512) (.io "failed to fill whole buffer")
  let sizeOfHeaders ← (peekSizeOfHeaders first.1).mapError .uki
  checkHeaderBytes sizeOfHeaders
  let tail ← okOr (first.2.readExact (sizeOfHeaders - 512)) (.io "failed to fill whole buffer")
  let metadata ← (parse (first.1 ++ tail.1)).mapError .uki
  .ok (⟨sizeOfHeaders, first.1 ++ tail.1, metadata⟩, tail.2)

theorem probe_eq_ok [PeParser] {stub rest : Reader} {probed : Probe}
    (h : probe stub = .ok (probed, rest)) :
    parse probed.prefixBytes = .ok probed.metadata ∧
      probed.metadata.sizeOfHeaders = probed.consumed ∧
      probed.prefixBytes.length = probed.consumed ∧
      probed.prefixBytes ++ rest.data = stub.data := by
  obtain ⟨⟨first, next⟩, hfi, h⟩ := of_bind h
  obtain ⟨sizeOfHeaders, hpk, h⟩ := of_bind h
  obtain ⟨_, hc, h⟩ := of_bind h
  obtain ⟨⟨tail, last⟩, hta, h⟩ := of_bind h
  obtain ⟨metadata, hm, h⟩ := of_bind h
  cases h
  have hpr := mapError_eq_ok_iff.1 hm
  obtain ⟨hfr, hf⟩ := Reader.readExact_eq_some (okOr_eq_ok_iff.1 hfi)
  obtain ⟨htl, ht⟩ := Reader.readExact_eq_some (okOr_eq_ok_iff.1 hta)
  unfold checkHeaderBytes at hc
  split_ifs at hc with hr
  obtain ⟨peOffset, hpe, hpk⟩ := of_bind (mapError_eq_ok_iff.1 hpk)
  obtain ⟨pe, hp, hof⟩ := parse_eq_ok hpr
  have hlen : (first ++ tail).length = sizeOfHeaders := by
    rw [length_append]
    omega
  refine ⟨hpr, ?_, hlen, by rw [append_assoc, ht, hf]⟩
  -- both read the size of the headers from the same field
  have ho := uintAt_of_isPrefix (prefix_append first tail) (okOr_eq_ok_iff.1 hpe)
  have hs := uintAt_of_isPrefix (prefix_append first tail) (okOr_eq_ok_iff.1 hpk)
  rw [Option.some.inj (ho.symm.trans hp.ntHeadersOffset), hp.sizeOfHeaders] at hs
  exact hof.sizeOfHeaders.trans (Option.some.inj hs)

/-! ## Patching -/

def headerToBytes (header : SectionHeader) : Bytes :=
  [header.name, leBytes 4 header.virtualSize, leBytes 4 header.virtualAddress,
    leBytes 4 header.sizeOfRawData, leBytes 4 header.pointerToRawData, zeros 12,
    leBytes 4 header.characteristics].flatten

variable (prefixBytes : Bytes) {headers : List SectionHeader} {header : SectionHeader}
  {metadata : Metadata}

/-- `header::range`. -/
def range (offset : ℕ) (data : Bytes) (field : String) : Result Bytes :=
  if prefixBytes.length < offset + data.length then
    .error (.invalidPeStructure (field ++ " lies outside the extracted PE prefix"))
  else .ok (put prefixBytes offset data)

/-- The loop over the headers, from index `i`. -/
def sectionHeaders (metadata : Metadata) : ℕ → List SectionHeader → Bytes → Result Bytes
  | _, [], prefixBytes => .ok prefixBytes
  | i, header :: headers, prefixBytes => do
    let patched ← range prefixBytes (metadata.sectionTableOffset +
      (metadata.existingSectionCount + i) * sectionHeaderSize) (headerToBytes header)
        "section header"
    sectionHeaders metadata (i + 1) headers patched

def sizeOfImage (metadata : Metadata) (table : Table) : ℕ :=
  alignTo table.maxVirtualEnd metadata.sectionAlignment

/-- The number of sections and the size of the image. -/
def headerFields (metadata : Metadata) (table : Table) (totalSections : ℕ) : Result Bytes := do
  let patched ← range prefixBytes (metadata.fileHeaderOffset + 2) (leBytes 2 totalSections)
    "section count"
  range patched (metadata.optionalHeaderOffset + 56) (leBytes 4 (sizeOfImage metadata table))
    "size of image"

/-- The number of sections that are added. -/
def appendedCount (table : Table) : Result ℕ :=
  if 2 ^ 16 ≤ table.sections.length then
    .error (.invalidPeStructure "appended section count does not fit in u16")
  else .ok table.sections.length

/-- The headers with the new sections. -/
def patch (metadata : Metadata) (table : Table) : Result Bytes := do
  let appended ← appendedCount table
  let patched ← headerFields prefixBytes metadata table
    (min (metadata.existingSectionCount + appended) 65535)
  sectionHeaders metadata 0 table.headers patched

theorem length_headerToBytes (hn : header.name.length = 8) :
    (headerToBytes header).length = sectionHeaderSize := by
  simp [headerToBytes, hn, sectionHeaderSize]

theorem ofBytes_headerToBytes (hnm : header.name.length = 8) (hvr : header.virtualSize < 2 ^ 32)
    (hv : header.virtualAddress < 2 ^ 32) (hs : header.sizeOfRawData < 2 ^ 32)
    (hp : header.pointerToRawData < 2 ^ 32) (hc : header.characteristics < 2 ^ 32) :
    SectionHeader.ofBytes (headerToBytes header) = header := by
  have hw (n : ℕ) (hn : n < 2 ^ 32) : ofLe (leBytes 4 n) = n :=
    ofLe_leBytes (lt_of_lt_of_eq hn (by decide))
  have hf : fields sectionHeaderWidths (headerToBytes header) =
      [header.name, leBytes 4 header.virtualSize, leBytes 4 header.virtualAddress,
        leBytes 4 header.sizeOfRawData, leBytes 4 header.pointerToRawData, zeros 12,
        leBytes 4 header.characteristics] := by
    rw [headerToBytes, ← append_nil (flatten _), fields_flatten]
    simp [sectionHeaderWidths, hnm]
  simp only [SectionHeader.ofBytes, getD_cons_zero, getD_cons_succ, *]

theorem sectionHeaders_eq (hn : ∀ header ∈ headers, header.name.length = 8) {i : ℕ}
    {prefixBytes : Bytes} (hc : metadata.sectionTableOffset + (metadata.existingSectionCount + i) *
      sectionHeaderSize + headers.length * sectionHeaderSize ≤ prefixBytes.length) :
    sectionHeaders metadata i headers prefixBytes = .ok (put prefixBytes
      (metadata.sectionTableOffset + (metadata.existingSectionCount + i) * sectionHeaderSize)
      (headers.map headerToBytes).flatten) := by
  induction headers generalizing i prefixBytes with
  | nil =>
    rw [sectionHeaders, map_nil, flatten_nil, put_nil]
  | cons header headers ih =>
    obtain ⟨hnm, hn⟩ := forall_mem_cons.1 hn
    have hlen := length_headerToBytes hnm
    have hnx : metadata.sectionTableOffset + (metadata.existingSectionCount + (i + 1)) *
        sectionHeaderSize = metadata.sectionTableOffset + (metadata.existingSectionCount + i) *
          sectionHeaderSize + (headerToBytes header).length := by
      rw [hlen]
      ring
    have hf : (headers.map headerToBytes).flatten.length = headers.length * sectionHeaderSize := by
      rw [length_flatten_of_length, length_map]
      exact forall_mem_map.2 fun header hh => length_headerToBytes (hn header hh)
    rw [length_cons, succ_mul] at hc
    rw [sectionHeaders, range, if_neg (by omega), ok_bind, ih hn
      (by rw [length_put]; omega), hnx, put_put_append (by omega), map_cons,
      flatten_cons]

/-- The headers are patched in three places. -/
def patched (metadata : Metadata) (table : Table) : Bytes :=
  put (put (put prefixBytes (metadata.fileHeaderOffset + 2)
      (leBytes 2 (metadata.existingSectionCount + table.sections.length)))
    (metadata.optionalHeaderOffset + 56) (leBytes 4 (sizeOfImage metadata table)))
    (metadata.sectionTableOffset + metadata.existingSectionCount * sectionHeaderSize)
    (table.headers.map headerToBytes).flatten

theorem names_of_headerOf {fileAlignment : ℕ} {sections : List Section}
    (h : List.Forall₂ (HeaderOf fileAlignment) sections headers) :
    ∀ header ∈ headers, header.name.length = 8 := by
  induction h with
  | nil => exact nofun
  | cons hh _ ih =>
    refine forall_mem_cons.2 ⟨?_, ih⟩
    rw [hh.1]
    exact SectionName.length_bytes _

theorem patch_eq [PeParser] {prefixBytes : Bytes} {stubLen : ℕ}
    {sizes : List (SectionName × Option ℕ)} {table : Table} (hpr : parse prefixBytes = .ok metadata)
    (hlen : prefixBytes.length = metadata.sizeOfHeaders) (hb : Built metadata stubLen sizes table) :
    patch prefixBytes metadata table = .ok (patched prefixBytes metadata table) := by
  obtain ⟨pe, hp, hof⟩ := parse_eq_ok hpr
  have hcn := hb.count_le
  have hh := hp.ntHeaders
  have hc := hb.capacity
  have hs := hb.placed.sections.length_eq
  rw [patch, appendedCount, if_neg (by omega), ok_bind, min_eq_left hcn, headerFields, range,
    if_neg (by rw [length_leBytes, hof.fileHeaderOffset]; omega), ok_bind, range,
    if_neg (by rw [length_put, length_leBytes, hof.optionalHeaderOffset]; omega), ok_bind,
    sectionHeaders_eq (names_of_headerOf hb.placed.sections)
      (by rw [length_put, length_put, add_assoc, ← add_mul, ← hs, hlen]; exact hc)]
  rfl

/-! ## The plan -/

/-- Where the components are in the image. -/
structure Layout where
  stubSize : ℕ
  cmdlineOffset : ℕ
  kernelOffset : ℕ
  initramfsOffset : ℕ
  osrelOffset : ℕ
  totalSize : ℕ

/-- The place of one component. -/
def Layout.setOffset (layout : Layout) (entry : Section) : Layout :=
  match entry.name with
  | .cmdline => { layout with cmdlineOffset := entry.fileOffset }
  | .kernel => { layout with kernelOffset := entry.fileOffset }
  | .initrd => { layout with initramfsOffset := entry.fileOffset }
  | .osrel => { layout with osrelOffset := entry.fileOffset }

/-- `layout::from_table`. -/
def Layout.fromTable (stubSize : ℕ) (table : Table) : Layout :=
  table.sections.foldl setOffset ⟨stubSize, 0, 0, 0, 0, table.currentFileOffset⟩

/-- What is needed to write the image. -/
structure Assembly where
  patchedPrefix : Bytes
  stubRemainder : ℕ
  fileAlignment : ℕ
  sections : List Section

structure Manifest where
  layout : Layout
  assembly : Assembly

/-- The sizes of the components. -/
structure Components where
  cmdline : ℕ
  kernel : ℕ
  initramfs : ℕ
  osrel : ℕ

/-- The sizes of the sections, in canonical order. -/
def Components.sizes (components : Components) : List (SectionName × Option ℕ) :=
  [(.cmdline, some components.cmdline), (.kernel, some components.kernel),
    (.initrd, some components.initramfs),
    (.osrel, if 0 < components.osrel then some components.osrel else none)].insertionSort
      fun a b => canonicalRank a.1 ≤ canonicalRank b.1

/-- The stub is complete. -/
def checkStub (probed : Probe) (stubSize : ℕ) : Result ℕ :=
  if stubSize < probed.consumed then
    .error (.invalidPeStructure ("stub size " ++ toString stubSize ++
      " smaller than probed header " ++ toString probed.consumed))
  else if stubSize < probed.metadata.lastSectionFileEnd then
    .error (.invalidPeStructure ("stub truncated: last section ends at " ++
      toString probed.metadata.lastSectionFileEnd ++ ", stub size " ++ toString stubSize))
  else .ok (stubSize - probed.consumed)

/-- The plan of an image. -/
def prepare (probed : Probe) (stubSize : ℕ) (components : Components) : Result Manifest := do
  let stubRemainder ← checkStub probed stubSize
  let table ← buildTable probed.metadata stubSize components.sizes
  let patchedPrefix ← patch probed.prefixBytes probed.metadata table
  .ok ⟨Layout.fromTable stubSize table,
    ⟨patchedPrefix, stubRemainder, table.fileAlignment, table.sections⟩⟩

/-! ## What a plan consists of -/

theorem Layout.foldl_setOffset (sections : List Section) (layout : Layout) :
    (sections.foldl setOffset layout).stubSize = layout.stubSize ∧
      (sections.foldl setOffset layout).totalSize = layout.totalSize := by
  induction sections generalizing layout with
  | nil => exact ⟨rfl, rfl⟩
  | cons entry sections ih =>
    have hstep : (layout.setOffset entry).stubSize = layout.stubSize ∧
        (layout.setOffset entry).totalSize = layout.totalSize := by
      unfold setOffset
      cases entry.name <;> exact ⟨rfl, rfl⟩
    exact ⟨(ih _).1.trans hstep.1, (ih _).2.trans hstep.2⟩

/-- The sections of an image: three, and a fourth if there is something in it. -/
theorem Components.filterMap_sizes (components : Components) :
    (components.sizes.filterMap fun entry => entry.2.map (entry.1, ·)) =
      [(.cmdline, components.cmdline), (.initrd, components.initramfs),
        (.kernel, components.kernel)] ++
        if 0 < components.osrel then [(.osrel, components.osrel)] else [] := by
  have hs : components.sizes = [(.cmdline, some components.cmdline),
      (.initrd, some components.initramfs), (.kernel, some components.kernel),
      (.osrel, if 0 < components.osrel then some components.osrel else none)] := by
    rfl
  rw [hs]
  split_ifs <;> rfl

theorem prepare_eq_ok [PeParser] {probed : Probe} {stubSize : ℕ} {components : Components}
    {manifest : Manifest} (hp : parse probed.prefixBytes = .ok probed.metadata)
    (hlen : probed.prefixBytes.length = probed.metadata.sizeOfHeaders)
    (h : prepare probed stubSize components = .ok manifest) :
    ∃ table, Built probed.metadata stubSize components.sizes table ∧
      probed.consumed ≤ stubSize ∧ probed.metadata.lastSectionFileEnd ≤ stubSize ∧
      manifest.layout.stubSize = stubSize ∧
      manifest.layout.totalSize = table.currentFileOffset ∧
      manifest.assembly = ⟨patched probed.prefixBytes probed.metadata table,
        stubSize - probed.consumed, probed.metadata.fileAlignment, table.sections⟩ := by
  obtain ⟨stubRemainder, hst, h⟩ := of_bind h
  obtain ⟨table, htb, h⟩ := of_bind h
  obtain ⟨patchedPrefix, hpt, h⟩ := of_bind h
  cases h
  have hb := buildTable_eq_ok (base_of_parse hp stubSize) htb
  rw [patch_eq hp hlen hb] at hpt
  cases hpt
  unfold checkStub at hst
  split_ifs at hst with hsh ht
  cases hst
  obtain ⟨hs, htt⟩ := Layout.foldl_setOffset table.sections
    ⟨stubSize, 0, 0, 0, 0, table.currentFileOffset⟩
  exact ⟨table, hb, Nat.le_of_not_lt hsh, Nat.le_of_not_lt ht, hs, htt,
    by rw [hb.placed.fileAlignment]⟩

end Muak.Yuki
