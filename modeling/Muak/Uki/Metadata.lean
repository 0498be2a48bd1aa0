import Mathlib.Data.Option.Basic
import Muak.Foundations.Align
import Muak.Foundations.Reader
import Muak.Foundations.Result

/-!
# Headers of PE images

`libs/uki/src/metadata.rs` and `align.rs`: where the headers of a PE image are, how its sections are
aligned, and where the last of them ends.

* `PeParser`: the parser for 64-bit images that the code uses, as a parameter.
* `parse`, `extract`: the metadata, from a buffer and from a stream.
* `extract_eq_ok`: the stream is left after the first 512 bytes at least, although no more than
  the headers are returned.
-/

namespace Muak.Uki

open Bytes List Option Nat

/-! ## Alignment -/

/-- Why an image is refused. -/
inductive UkiError
  | invalidPe (message : String)
  | overflow (message : String)
  | io (message : String)
  deriving DecidableEq

abbrev Result := Except UkiError

def UkiError.display : UkiError → String
  | .invalidPe message => "invalid PE: " ++ message
  | .overflow message => "overflow: " ++ message
  | .io message => "I/O error: " ++ message

/-- `align::to`, on 32-bit numbers. -/
def alignTo (value alignment : ℕ) : ℕ :=
  Align.saturatingAlign 32 value (if alignment = 0 then 1 else alignment)

/-- `align::up`, on 64-bit numbers. -/
def alignUp (value alignment : ℕ) : Result ℕ :=
  if alignment = 0 then .error (.invalidPe "zero alignment")
  else if 2 ^ 64 ≤ value + (alignment - 1) then .error (.overflow "alignment")
  else .ok ((value + (alignment - 1)) &&& (2 ^ 64 - 1 - (alignment - 1)))

def isPowerOfTwo (n : ℕ) : Bool := n == 2 ^ n.log2

/-! ## The parser -/

/-- A little-endian number in a buffer. -/
def uintAt (data : Bytes) (offset width : ℕ) : Option ℕ := (slice data offset width).map ofLe

/-- What is used of a section header. -/
structure SectionHeader where
  name : Bytes
  virtualSize : ℕ
  virtualAddress : ℕ
  sizeOfRawData : ℕ
  pointerToRawData : ℕ
  characteristics : ℕ
  deriving DecidableEq

/-- The widths of the fields; the fifth is for relocations and line numbers. -/
def sectionHeaderWidths : List ℕ := [8, 4, 4, 4, 4, 12, 4]

def SectionHeader.ofBytes (bytes : Bytes) : SectionHeader :=
  let field (i : ℕ) := (fields sectionHeaderWidths bytes).getD i []
  ⟨field 0, ofLe (field 1), ofLe (field 2), ofLe (field 3), ofLe (field 4), ofLe (field 6)⟩

def sectionHeaderSize : ℕ := 40

/-- What is used of a 64-bit image. -/
structure PeFile where
  ntHeadersOffset : ℕ
  sizeOfOptionalHeader : ℕ
  sectionAlignment : ℕ
  fileAlignment : ℕ
  sizeOfHeaders : ℕ
  numberOfRvaAndSizes : ℕ
  sections : List SectionHeader
  deriving DecidableEq

/-- The parts of an image that parses. -/
structure PeFile.Parsed (data : Bytes) (pe : PeFile) : Prop where
  magic : uintAt data 0 2 = some 0x5A4D
  ntHeadersOffset : uintAt data 0x3C 4 = some pe.ntHeadersOffset
  ntHeaders : pe.ntHeadersOffset + 136 ≤ data.length
  signature : uintAt data pe.ntHeadersOffset 4 = some 0x4550
  optionalMagic : uintAt data (pe.ntHeadersOffset + 24) 2 = some 0x20B
  numberOfSections : uintAt data (pe.ntHeadersOffset + 6) 2 = some pe.sections.length
  sizeOfOptionalHeader : uintAt data (pe.ntHeadersOffset + 20) 2 = some pe.sizeOfOptionalHeader
  sectionAlignment : uintAt data (pe.ntHeadersOffset + 56) 4 = some pe.sectionAlignment
  fileAlignment : uintAt data (pe.ntHeadersOffset + 60) 4 = some pe.fileAlignment
  sizeOfHeaders : uintAt data (pe.ntHeadersOffset + 84) 4 = some pe.sizeOfHeaders
  numberOfRvaAndSizes : uintAt data (pe.ntHeadersOffset + 132) 4 = some pe.numberOfRvaAndSizes
  dataDirectories : 112 + 8 * pe.numberOfRvaAndSizes ≤ pe.sizeOfOptionalHeader
  sectionTable : ∃ table, slice data (pe.ntHeadersOffset + 24 + pe.sizeOfOptionalHeader)
      (pe.sections.length * sectionHeaderSize) = some table ∧
    pe.sections = (chunks sectionHeaderSize pe.sections.length table).map SectionHeader.ofBytes

/-- `PeFile64::parse` of the `object` crate: it gives the parts of every 64-bit image, and nothing
for other bytes. -/
class PeParser where
  parse : Bytes → Option PeFile
  parse_eq_some_iff : ∀ {data pe}, parse data = some pe ↔ PeFile.Parsed data pe

/-! ## Metadata -/

/-- Every offset is a 32-bit number plus a few small ones, which a `usize` holds. -/
structure Metadata where
  fileHeaderOffset : ℕ
  optionalHeaderOffset : ℕ
  sectionTableOffset : ℕ
  sizeOfHeaders : ℕ
  sectionAlignment : ℕ
  fileAlignment : ℕ
  lastSectionFileEnd : ℕ
  lastSectionVirtualEnd : ℕ
  existingSectionCount : ℕ
  numDataDirectories : ℕ
  deriving DecidableEq

/-- The size of the headers, before they are parsed. -/
def peekSizeOfHeaders (data : Bytes) : Result ℕ := do
  let peOffset ← okOr (uintAt data 0x3C 4) (.invalidPe "missing e_lfanew")
  okOr (uintAt data (peOffset + 84) 4) (.invalidPe "size_of_headers out of range")

/-- The ends of the last section, in the file and in memory. -/
structure SectionEnds where
  file : ℕ
  virtual : ℕ

/-- The end of the data of a section; there is none without an offset or a size. -/
def SectionHeader.fileEnd (section_ : SectionHeader) : ℕ :=
  if section_.pointerToRawData ≠ 0 ∧ section_.sizeOfRawData ≠ 0 then
    section_.pointerToRawData + section_.sizeOfRawData
  else 0

/-- The loop over the section table. -/
def sectionEnds (sectionAlignment : ℕ) : List SectionHeader → SectionEnds → Result SectionEnds
  | [], ends => .ok ends
  | header :: headers, ends =>
    if 2 ^ 32 ≤ header.fileEnd then .error (.overflow "section file end")
    else if 2 ^ 32 ≤ header.virtualAddress + alignTo header.virtualSize sectionAlignment then
      .error (.overflow "section virtual end")
    else sectionEnds sectionAlignment headers ⟨max ends.file header.fileEnd,
      max ends.virtual (header.virtualAddress + alignTo header.virtualSize sectionAlignment)⟩

/-- The checks on the alignments and on the size of the headers. -/
def checkAlignments (pe : PeFile) : Result Unit :=
  if pe.sectionAlignment = 0 ∨ !isPowerOfTwo pe.sectionAlignment then
    .error (.invalidPe "invalid section alignment")
  else if pe.fileAlignment = 0 ∨ !isPowerOfTwo pe.fileAlignment then
    .error (.invalidPe "invalid file alignment")
  else if pe.sizeOfHeaders = 0 then .error (.invalidPe "invalid size of headers 0")
  else .ok ()

/-- What is needed of the headers of an image. -/
def parse [PeParser] (data : Bytes) : Result Metadata :=
  if data.length < 0x40 then .error (.invalidPe "file too small")
  else do
    let pe ← okOr (PeParser.parse data) (.invalidPe "invalid PE format")
    checkAlignments pe
    let ends ← sectionEnds pe.sectionAlignment pe.sections ⟨pe.sizeOfHeaders, pe.sizeOfHeaders⟩
    .ok {
      fileHeaderOffset := pe.ntHeadersOffset + 4
      optionalHeaderOffset := pe.ntHeadersOffset + 24
      sectionTableOffset := pe.ntHeadersOffset + 24 + pe.sizeOfOptionalHeader
      sizeOfHeaders := pe.sizeOfHeaders
      sectionAlignment := pe.sectionAlignment
      fileAlignment := pe.fileAlignment
      lastSectionFileEnd := ends.file
      lastSectionVirtualEnd := ends.virtual
      existingSectionCount := pe.sections.length
      numDataDirectories := pe.numberOfRvaAndSizes }

/-- What `extract` leaves behind. -/
structure Extracted where
  header : Bytes
  metadata : Metadata
  rest : Reader

/-- The bytes of the headers. At least 512 bytes are read, whatever the size of the headers is. -/
def readHeaders (reader : Reader) : Result (Bytes × Reader) := do
  let first ← okOr (reader.readExact 512) (.io "failed to fill whole buffer")
  let sizeOfHeaders ← peekSizeOfHeaders first.1
  if 512 < sizeOfHeaders then
    let tail ← okOr (first.2.readExact (sizeOfHeaders - 512)) (.io "failed to fill whole buffer")
    .ok (first.1 ++ tail.1, tail.2)
  else if 0 < sizeOfHeaders then .ok (first.1.take sizeOfHeaders, first.2)
  else .ok first

/-- The headers of a stream, with what was read of it. -/
def extract [PeParser] (reader : Reader) : Result Extracted := do
  let headers ← readHeaders reader
  let metadata ← parse headers.1
  .ok ⟨headers.1, metadata, headers.2⟩

/-! ## What was parsed -/

section

variable {data before : Bytes} {offset width n : ℕ}

theorem uintAt_of_isPrefix (hd : before <+: data) (h : uintAt before offset width = some n) :
    uintAt data offset width = some n := by
  obtain ⟨bytes, hb, rfl⟩ := map_eq_some_iff.1 h
  rw [uintAt, slice_of_isPrefix hd hb, map_some]

theorem uintAt_lt (h : uintAt data offset width = some n) : n < 256 ^ width := by
  obtain ⟨bytes, hb, rfl⟩ := map_eq_some_iff.1 h
  rw [← (slice_eq_some_iff.1 hb).2.1]
  exact ofLe_lt bytes

/-- All of it is within the headers. -/
theorem PeFile.Parsed.of_isPrefix {pe : PeFile} (h : pe.Parsed before) (hd : before <+: data) :
    pe.Parsed data where
  magic := uintAt_of_isPrefix hd h.magic
  ntHeadersOffset := uintAt_of_isPrefix hd h.ntHeadersOffset
  ntHeaders := h.ntHeaders.trans hd.length_le
  signature := uintAt_of_isPrefix hd h.signature
  optionalMagic := uintAt_of_isPrefix hd h.optionalMagic
  numberOfSections := uintAt_of_isPrefix hd h.numberOfSections
  sizeOfOptionalHeader := uintAt_of_isPrefix hd h.sizeOfOptionalHeader
  sectionAlignment := uintAt_of_isPrefix hd h.sectionAlignment
  fileAlignment := uintAt_of_isPrefix hd h.fileAlignment
  sizeOfHeaders := uintAt_of_isPrefix hd h.sizeOfHeaders
  numberOfRvaAndSizes := uintAt_of_isPrefix hd h.numberOfRvaAndSizes
  dataDirectories := h.dataDirectories
  sectionTable := by
    obtain ⟨table, ht, hs⟩ := h.sectionTable
    exact ⟨table, slice_of_isPrefix hd ht, hs⟩

/-- An alignment is a power of two, and a 32-bit number. -/
def Alignment (n : ℕ) : Prop := ∃ k ≤ 31, n = 2 ^ k

theorem alignment_of_isPowerOfTwo (h : isPowerOfTwo n = true) (hn : n < 2 ^ 32) : Alignment n := by
  have hp : n = 2 ^ n.log2 := eq_of_beq h
  rw [hp] at hn
  exact ⟨n.log2, Nat.le_of_lt_succ ((Nat.pow_lt_pow_iff_right (by decide)).1 hn), hp⟩

section

variable {x a : ℕ} (ha : Alignment a)

include ha

theorem Alignment.alignTo_eq (x : ℕ) :
    ∃ k ≤ 32, a = 2 ^ k ∧ alignTo x a = Align.saturatingAlign 32 x a := by
  obtain ⟨k, hk, rfl⟩ := ha
  exact ⟨k, by omega, rfl, by rw [alignTo, if_neg (Nat.two_pow_pos k).ne']⟩

theorem Alignment.pos : 0 < a := by
  obtain ⟨k, -, rfl⟩ := ha
  exact Nat.two_pow_pos k

theorem Alignment.dvd_alignTo : a ∣ alignTo x a := by
  obtain ⟨k, hk, rfl, hal⟩ := ha.alignTo_eq x
  exact hal ▸ Align.dvd_saturatingAlign hk

theorem Alignment.alignTo_add_le : alignTo x a + a ≤ 2 ^ 32 := by
  obtain ⟨k, hk, rfl, hal⟩ := ha.alignTo_eq x
  exact hal ▸ Align.saturatingAlign_add_le hk

theorem Alignment.le_alignTo_iff : x ≤ alignTo x a ↔ x + a ≤ 2 ^ 32 := by
  obtain ⟨k, hk, rfl, hal⟩ := ha.alignTo_eq x
  exact hal ▸ Align.le_saturatingAlign_iff hk

theorem Alignment.alignTo_of_lt (h : 2 ^ 32 < x + a) : alignTo x a + a = 2 ^ 32 := by
  obtain ⟨k, hk, rfl, hal⟩ := ha.alignTo_eq x
  exact hal ▸ Align.saturatingAlign_of_lt hk h

theorem Alignment.alignTo_of_dvd (hd : a ∣ x) (hx : x < 2 ^ 32) : alignTo x a = x := by
  obtain ⟨k, hk, rfl, hal⟩ := ha.alignTo_eq x
  exact hal ▸ Align.saturatingAlign_of_dvd hk hd hx

theorem Alignment.le_alignTo (hx : 0 < x) : a ≤ alignTo x a := by
  by_cases hl : x + a ≤ 2 ^ 32
  · have hle := ha.le_alignTo_iff.2 hl
    exact Nat.le_of_dvd (by omega) ha.dvd_alignTo
  · have hls := ha.alignTo_of_lt (Nat.lt_of_not_le hl)
    obtain ⟨k, hk, rfl⟩ := ha
    have hp := Nat.pow_le_pow_right (show 0 < 2 by decide) hk
    omega

/-- Room for what was rounded up shows that it was not cut. -/
theorem Alignment.le_alignTo_of_add_lt {base : ℕ} (hb : a ≤ base)
    (h : base + alignTo x a < 2 ^ 32) : x ≤ alignTo x a := by
  refine ha.le_alignTo_iff.2 ?_
  by_contra hl
  have := ha.alignTo_of_lt (Nat.lt_of_not_le hl)
  omega

end

theorem sectionEnds_spec {alignment : ℕ} {headers : List SectionHeader} {ends result : SectionEnds}
    (h : sectionEnds alignment headers ends = .ok result) :
    ends.file ≤ result.file ∧ ends.virtual ≤ result.virtual ∧
      (ends.file < 2 ^ 32 → result.file < 2 ^ 32) ∧
      (ends.virtual < 2 ^ 32 → result.virtual < 2 ^ 32) ∧
      ∀ header ∈ headers, header.fileEnd ≤ result.file ∧
        header.virtualAddress + alignTo header.virtualSize alignment ≤ result.virtual := by
  induction headers generalizing ends with
  | nil =>
    cases h
    exact ⟨le_rfl, le_rfl, id, id, nofun⟩
  | cons header headers ih =>
    rw [sectionEnds] at h
    split_ifs at h with hfi hvi
    obtain ⟨hf, hv, hfl, hvr, hal⟩ := ih h
    dsimp only at hf hv hfl hvr
    refine ⟨by omega, by omega, by omega, by omega, forall_mem_cons.2 ⟨⟨by omega, by omega⟩, hal⟩⟩

/-- The metadata of an image that parses. -/
structure Metadata.Of (metadata : Metadata) (pe : PeFile) : Prop where
  fileHeaderOffset : metadata.fileHeaderOffset = pe.ntHeadersOffset + 4
  optionalHeaderOffset : metadata.optionalHeaderOffset = pe.ntHeadersOffset + 24
  sectionTableOffset :
    metadata.sectionTableOffset = pe.ntHeadersOffset + 24 + pe.sizeOfOptionalHeader
  sizeOfHeaders : metadata.sizeOfHeaders = pe.sizeOfHeaders
  sizeOfHeaders_pos : 0 < pe.sizeOfHeaders
  sectionAlignment : metadata.sectionAlignment = pe.sectionAlignment
  fileAlignment : metadata.fileAlignment = pe.fileAlignment
  alignment_section : Alignment metadata.sectionAlignment
  alignment_file : Alignment metadata.fileAlignment
  existingSectionCount : metadata.existingSectionCount = pe.sections.length
  numDataDirectories : metadata.numDataDirectories = pe.numberOfRvaAndSizes
  ends : sectionEnds pe.sectionAlignment pe.sections ⟨pe.sizeOfHeaders, pe.sizeOfHeaders⟩ =
    .ok ⟨metadata.lastSectionFileEnd, metadata.lastSectionVirtualEnd⟩

theorem parse_eq_ok [PeParser] {metadata : Metadata} (h : parse data = .ok metadata) :
    ∃ pe : PeFile, pe.Parsed data ∧ metadata.Of pe := by
  unfold parse at h
  split_ifs at h with hsz
  obtain ⟨pe, hpe, h⟩ := of_bind h
  obtain ⟨_, hc, h⟩ := of_bind h
  obtain ⟨ends, he, h⟩ := of_bind h
  cases h
  have hp := PeParser.parse_eq_some_iff.1 (okOr_eq_ok_iff.1 hpe)
  unfold checkAlignments at hc
  split_ifs at hc with hs hf hh
  simp only [not_or, Bool.not_eq_true', Bool.not_eq_false] at hs hf
  have hw := (by decide : 256 ^ 4 = 2 ^ 32)
  exact ⟨pe, hp, rfl, rfl, rfl, rfl, pos_of_ne_zero hh, rfl, rfl,
    alignment_of_isPowerOfTwo hs.2 (hw ▸ uintAt_lt hp.sectionAlignment),
    alignment_of_isPowerOfTwo hf.2 (hw ▸ uintAt_lt hp.fileAlignment), rfl, rfl, he⟩

/-- The bytes that were read are the headers, or more than them. -/
theorem readHeaders_eq_ok {reader rest : Reader} {header : Bytes}
    (h : readHeaders reader = .ok (header, rest)) :
    512 ≤ reader.data.length ∧ header <+: reader.data ∧ ∃ peOffset sizeOfHeaders,
      uintAt reader.data 0x3C 4 = some peOffset ∧
      uintAt reader.data (peOffset + 84) 4 = some sizeOfHeaders ∧
      (0 < sizeOfHeaders → header = reader.data.take sizeOfHeaders ∧
        header.length = sizeOfHeaders ∧ rest.data = reader.data.drop (max 512 sizeOfHeaders)) := by
  obtain ⟨⟨first, next⟩, hfr, h⟩ := of_bind h
  obtain ⟨hlen, hd⟩ := Reader.readExact_eq_some (okOr_eq_ok_iff.1 hfr)
  obtain ⟨sizeOfHeaders, hp, h⟩ := of_bind h
  obtain ⟨peOffset, hpe, hp⟩ := of_bind hp
  have htk : reader.data.take 512 = first := by rw [← hd, take_left' hlen]
  have hdr : reader.data.drop 512 = next.data := by rw [← hd, drop_left' hlen]
  have hf : first <+: reader.data := ⟨next.data, hd⟩
  have hle : 512 ≤ reader.data.length := by
    rw [← hd, length_append]
    omega
  suffices hr : header <+: reader.data ∧ (0 < sizeOfHeaders →
      header = reader.data.take sizeOfHeaders ∧ header.length = sizeOfHeaders ∧
        rest.data = reader.data.drop (max 512 sizeOfHeaders)) from
    ⟨hle, hr.1, peOffset, sizeOfHeaders, uintAt_of_isPrefix hf (okOr_eq_ok_iff.1 hpe),
      uintAt_of_isPrefix hf (okOr_eq_ok_iff.1 hp), hr.2⟩
  by_cases hl : 512 < sizeOfHeaders
  · rw [if_pos hl] at h
    obtain ⟨⟨tail, last⟩, hta, h⟩ := of_bind h
    cases h
    obtain ⟨htl, ht⟩ := Reader.readExact_eq_some (okOr_eq_ok_iff.1 hta)
    have hal : (first ++ tail) ++ last.data = reader.data := by
      rw [append_assoc, ht, hd]
    have hs : (first ++ tail).length = sizeOfHeaders := by
      rw [length_append]
      omega
    refine ⟨⟨last.data, hal⟩, fun _ => ?_⟩
    rw [max_eq_right (by omega), ← hal, take_left' hs, drop_left' hs]
    exact ⟨rfl, hs, rfl⟩
  rw [if_neg hl] at h
  by_cases hps : 0 < sizeOfHeaders
  · rw [if_pos hps] at h
    cases h
    refine ⟨IsPrefix.trans ⟨_, take_append_drop _ _⟩ hf, fun _ => ?_⟩
    rw [max_eq_left (by omega), hdr, ← htk, take_take, min_eq_left (by omega)]
    exact ⟨rfl, by rw [length_take]; omega, rfl⟩
  · rw [if_neg hps] at h
    cases h
    exact ⟨hf, fun h => absurd h hps⟩

/-- The headers are returned as they are, and the stream goes on after 512 bytes at least. -/
theorem extract_eq_ok [PeParser] {reader : Reader} {extracted : Extracted}
    (h : extract reader = .ok extracted) :
    512 ≤ reader.data.length ∧ parse extracted.header = .ok extracted.metadata ∧
      extracted.header = reader.data.take extracted.metadata.sizeOfHeaders ∧
      extracted.header.length = extracted.metadata.sizeOfHeaders ∧
      extracted.rest.data = reader.data.drop (max 512 extracted.metadata.sizeOfHeaders) := by
  obtain ⟨⟨header, rest⟩, hh, h⟩ := of_bind h
  obtain ⟨metadata, hpa, h⟩ := of_bind h
  cases h
  obtain ⟨hlen, hpr, peOffset, sizeOfHeaders, hpe, hs, hr⟩ := readHeaders_eq_ok hh
  obtain ⟨pe, hp, hof⟩ := parse_eq_ok hpa
  -- the size is read twice, from the same field
  have ho : peOffset = pe.ntHeadersOffset := some.inj
    (hpe.symm.trans (uintAt_of_isPrefix hpr hp.ntHeadersOffset))
  have hf := uintAt_of_isPrefix hpr hp.sizeOfHeaders
  rw [← ho, hs] at hf
  obtain rfl : sizeOfHeaders = metadata.sizeOfHeaders := (some.inj hf).trans hof.sizeOfHeaders.symm
  exact ⟨hlen, hpa, hr (hof.sizeOfHeaders ▸ hof.sizeOfHeaders_pos)⟩

end

/-! ## A parser -/

/-- A parser: a DOS header, the signature and the two headers behind it, the data directories within
the optional header, and the section table after it. -/
def PeFile.read (data : Bytes) : Option PeFile := do
  guard (64 ≤ data.length ∧ uintAt data 0 2 = some 0x5A4D)
  let nt ← uintAt data 0x3C 4
  guard (nt + 136 ≤ data.length ∧ uintAt data nt 4 = some 0x4550 ∧
    uintAt data (nt + 24) 2 = some 0x20B)
  let numberOfSections ← uintAt data (nt + 6) 2
  let sizeOfOptionalHeader ← uintAt data (nt + 20) 2
  let sectionAlignment ← uintAt data (nt + 56) 4
  let fileAlignment ← uintAt data (nt + 60) 4
  let sizeOfHeaders ← uintAt data (nt + 84) 4
  let numberOfRvaAndSizes ← uintAt data (nt + 132) 4
  guard (112 + 8 * numberOfRvaAndSizes ≤ sizeOfOptionalHeader ∧
    nt + 24 + sizeOfOptionalHeader ≤ data.length)
  let table ← slice data (nt + 24 + sizeOfOptionalHeader) (numberOfSections * sectionHeaderSize)
  some ⟨nt, sizeOfOptionalHeader, sectionAlignment, fileAlignment, sizeOfHeaders,
    numberOfRvaAndSizes,
      (chunks sectionHeaderSize numberOfSections table).map SectionHeader.ofBytes⟩

theorem PeFile.read_eq_some_iff {data : Bytes} {pe : PeFile} :
    PeFile.read data = some pe ↔ pe.Parsed data := by
  constructor
  · intro h
    simp only [PeFile.read, bind_eq_bind, bind_eq_some_iff, guard_eq_some',
      exists_const, some.injEq] at h
    obtain ⟨⟨-, hm⟩, nt, hnt, ⟨hh, hsg, ho⟩, count, hc, size, hsz,
      sectionAlignment, hsc, fileAlignment, hf, headers, hs, directories,
      hd, ⟨hft, -⟩, table, ht, rfl⟩ := h
    have hlen : ((chunks sectionHeaderSize count table).map SectionHeader.ofBytes).length =
        count := by rw [length_map, length_chunks]
    exact ⟨hm, hnt, hh, hsg, ho, by rw [hlen]; exact hc, hsz,
      hsc, hf, hs, hd, hft, table, by rw [hlen]; exact ht,
      by rw [hlen]⟩
  · rintro ⟨hm, hnt, hh, hsg, ho, hc, hsz, hsc, hf, hs, hd, hft, table, ht, hse⟩
    have he := (slice_eq_some_iff.1 ht).1
    simp only [PeFile.read, bind_eq_bind, bind_eq_some_iff, guard_eq_some', exists_const]
    refine ⟨⟨by omega, hm⟩, _, hnt, ⟨hh, hsg, ho⟩, _, hc, _, hsz, _,
      hsc, _, hf, _, hs, _, hd, ⟨hft, by omega⟩, table, ht, ?_⟩
    rw [← hse]

/-- A parser that reads the fields where they are. -/
@[reducible] def plainParser : PeParser := ⟨PeFile.read, PeFile.read_eq_some_iff⟩

/-- The headers of an image without sections. -/
def emptyImage : Bytes :=
  [(0, 2, 0x5A4D), (0x3C, 4, 64), (64, 4, 0x4550), (84, 2, 152), (88, 2, 0x20B), (120, 4, 4096),
    (124, 4, 512), (148, 4, 512), (196, 4, 5)].foldl
      (fun bytes (offset, width, value) => put bytes offset (leBytes width value)) (zeros 512)

end Muak.Uki
