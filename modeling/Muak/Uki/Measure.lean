import Muak.Uki.Section

/-!
# Measuring an image file

`libs/uki/src/measure.rs`: the sections of a unified kernel image are read from its file in one
forward pass.

* `fromFile`: the pass; a file is the list of the bytes that are still to be read.
* `fromFile_of_parsed`: what is left of it for an image that parses.
* `walk_append`: sections of other kinds only have to be in order.
-/

namespace Muak.Uki

open Bytes List Nat

/-! ## The source -/

/-- `read_exact` on a file. -/
def readExact (file : Bytes) (n : ℕ) : Result (Bytes × Bytes) :=
  if file.length < n then .error (.io "failed to fill whole buffer")
  else .ok (file.take n, file.drop n)

def skip (file : Bytes) (n : ℕ) : Result Bytes :=
  if file.length < n then .error (.invalidPe "truncated PE image") else .ok (file.drop n)

/-- The bytes to come, and their position in the file. -/
structure Cursor where
  file : Bytes
  position : ℕ

def advance (position bytes : ℕ) : Result ℕ :=
  if 2 ^ 64 ≤ position + bytes then .error (.overflow "file position") else .ok (position + bytes)

/-- The loop of `hash_content`, with the bytes that are hashed. -/
def readContent (file : Bytes) (limit : ℕ) : Result (Bytes × Bytes) :=
  if 0 < limit then do
    let chunk ← readExact file (min limit 4096)
    let rest ← readContent chunk.2 (limit - min limit 4096)
    .ok (chunk.1 ++ rest.1, rest.2)
  else .ok ([], file)
termination_by limit

/-- A measured section and its digest. -/
abbrev MeasuredSection := SectionName × Bytes

section

variable (sha256 : Bytes → Bytes) (records : List MeasuredSection)

/-- `push_record`: a section that was not measured yet. -/
def pushRecord (cursor : Cursor) (name : SectionName) (size : ℕ) :
    Result (List MeasuredSection × Cursor) :=
  if records.any (·.1 = name) then .error (.invalidPe "duplicate UKI section")
  else do
    let content ← readContent cursor.file size
    let position ← advance cursor.position size
    .ok (records ++ [(name, sha256 content.1)], ⟨content.2, position⟩)

/-- One section header. -/
def visit (cursor : Cursor) (header : SectionHeader) : Result (List MeasuredSection × Cursor) :=
  if header.pointerToRawData < cursor.position then
    .error (.invalidPe "section data precedes the current position")
  else do
    let file ← skip cursor.file (header.pointerToRawData - cursor.position)
    match ← canonicalName header.name with
    | some name =>
      if 0 < header.virtualSize then
        pushRecord sha256 records ⟨file, header.pointerToRawData⟩ name header.virtualSize
      else .ok (records, ⟨file, header.pointerToRawData⟩)
    | none => .ok (records, ⟨file, header.pointerToRawData⟩)

/-- The loop over the section table. -/
def walk : List SectionHeader → List MeasuredSection → Cursor → Result (List MeasuredSection)
  | [], records, _ => .ok records
  | header :: headers, records, cursor => do
    let next ← visit sha256 records cursor header
    walk headers next.1 next.2

/-- The headers up to the section table. -/
structure Start where
  count : ℕ
  cursor : Cursor

def readCount (coff : Bytes) : Result ℕ := do
  let count ← okOr (uintAt coff 2 2) (.invalidPe "truncated PE header")
  if 96 < count then .error (.invalidPe "too many PE sections for a UKI") else .ok count

def checkSignature (signature : Bytes) : Result Unit :=
  if signature ≠ [0x50, 0x45, 0, 0] then .error (.invalidPe "missing PE signature") else .ok ()

/-- The bytes between the two headers. -/
def headerGap (peOffset : ℕ) : Result ℕ :=
  if peOffset < 64 then .error (.invalidPe "PE header overlaps the DOS header")
  else .ok (peOffset - 64)

/-- Everything up to the section table. -/
def readStart (file : Bytes) : Result Start := do
  let dos ← readExact file 64
  let peOffset ← okOr (uintAt dos.1 0x3C 4) (.invalidPe "truncated PE header")
  let gap ← headerGap peOffset
  let file ← skip dos.2 gap
  let signature ← readExact file 4
  checkSignature signature.1
  let position ← advance peOffset 4
  let coff ← readExact signature.2 20
  let position ← advance position 20
  let count ← readCount coff.1
  let optionalLen ← okOr (uintAt coff.1 16 2) (.invalidPe "truncated PE header")
  let file ← skip coff.2 optionalLen
  let position ← advance position optionalLen
  .ok ⟨count, ⟨file, position⟩⟩

def checkKernel : Result (List MeasuredSection) :=
  if records.any (·.1 = .kernel) then .ok records
  else .error (.invalidPe "missing .kernel section")

/-- `measure::from_file`. -/
def fromFile (file : Bytes) : Result (List MeasuredSection) := do
  let start ← readStart file
  let table ← readExact start.cursor.file (start.count * sectionHeaderSize)
  let position ← advance start.cursor.position (start.count * sectionHeaderSize)
  let headers := (chunks sectionHeaderSize start.count table.1).map SectionHeader.ofBytes
  let records ← walk sha256 headers [] ⟨table.2, position⟩
  checkKernel records

end

/-! ## Reading -/

theorem readContent_eq {file : Bytes} {limit : ℕ} (h : limit ≤ file.length) :
    readContent file limit = .ok (file.take limit, file.drop limit) := by
  induction file, limit using readContent.induct with
  | case1 file limit hp ih =>
    have hc : readExact file (min limit 4096) =
        .ok (file.take (min limit 4096), file.drop (min limit 4096)) := by
      rw [readExact, if_neg (by omega)]
    have hs : min limit 4096 + (limit - min limit 4096) = limit := by omega
    rw [readContent, if_pos hp, hc, ok_bind]
    rw [ih _ (by rw [length_drop]; omega), ok_bind, ← take_add, drop_drop, hs]
  | case2 file limit hz =>
    obtain rfl : limit = 0 := by omega
    rw [readContent]
    rfl

/-- The cursor at a position of an image. -/
def cursorAt (image : Bytes) (position : ℕ) : Cursor := ⟨image.drop position, position⟩

section

variable {image : Bytes} {p n : ℕ}

theorem readExact_drop (h : p + n ≤ image.length) :
    readExact (image.drop p) n = .ok ((image.drop p).take n, image.drop (p + n)) := by
  rw [readExact, if_neg (by rw [length_drop]; omega), drop_drop]

theorem skip_drop (h : p + n ≤ image.length) :
    skip (image.drop p) n = .ok (image.drop (p + n)) := by
  rw [skip, if_neg (by rw [length_drop]; omega), drop_drop]

theorem uintAt_take_drop {offset width : ℕ} (hw : offset + width ≤ n) (h : p + n ≤ image.length) :
    uintAt ((image.drop p).take n) offset width = uintAt image (p + offset) width := by
  have hs : slice ((image.drop p).take n) offset width = slice image (p + offset) width := by
    rw [slice, slice, length_take, length_drop, if_pos (by omega), if_pos (by omega), drop_take,
      drop_drop, take_take, min_eq_left (by omega)]
  rw [uintAt, hs, uintAt]

end

theorem readStart_of_parsed {image : Bytes} {pe : PeFile} (hp : pe.Parsed image) : readStart image =
      if pe.ntHeadersOffset < 64 then .error (.invalidPe "PE header overlaps the DOS header")
      else if 96 < pe.sections.length then .error (.invalidPe "too many PE sections for a UKI")
      else .ok ⟨pe.sections.length,
        cursorAt image (pe.ntHeadersOffset + 24 + pe.sizeOfOptionalHeader)⟩ := by
  have hh := hp.ntHeaders
  obtain ⟨table, ht, -⟩ := hp.sectionTable
  have he := (slice_eq_some_iff.1 ht).1
  have hof := uintAt_lt hp.ntHeadersOffset
  have ho := uintAt_lt hp.sizeOfOptionalHeader
  have hd : readExact image 64 = .ok (image.take 64, image.drop 64) := by
    rw [readExact, if_neg (by omega)]
  have hpe : uintAt (image.take 64) 0x3C 4 = some pe.ntHeadersOffset := by
    have htk := @uintAt_take_drop image 0 64 0x3C 4 (by decide) (by omega)
    rw [drop_zero] at htk
    rw [htk, hp.ntHeadersOffset]
  rw [readStart, hd, ok_bind, hpe, okOr_some, ok_bind, headerGap]
  by_cases hsm : pe.ntHeadersOffset < 64
  · rw [if_pos hsm, if_pos hsm]
    rfl
  have hs : (image.drop pe.ntHeadersOffset).take 4 = [0x50, 0x45, 0, 0] := by
    obtain ⟨bytes, hsl, hv⟩ := Option.map_eq_some_iff.1 hp.signature
    have hb := leBytes_ofLe bytes
    rw [hv, (slice_eq_some_iff.1 hsl).2.1] at hb
    rw [slice, if_pos (by omega)] at hsl
    rw [Option.some.inj hsl, ← hb]
    decide
  have hc : uintAt ((image.drop (pe.ntHeadersOffset + 4)).take 20) 2 2 =
      some pe.sections.length := by
    rw [uintAt_take_drop (by decide) (by omega), hp.numberOfSections]
  have hlen : uintAt ((image.drop (pe.ntHeadersOffset + 4)).take 20) 16 2 =
      some pe.sizeOfOptionalHeader := by
    rw [uintAt_take_drop (by decide) (by omega), hp.sizeOfOptionalHeader]
  rw [if_neg hsm, if_neg hsm, ok_bind, skip_drop (by omega),
    Nat.add_sub_cancel' (Nat.le_of_not_lt hsm), ok_bind, readExact_drop (by omega), ok_bind,
    hs, checkSignature, if_neg (not_not.2 rfl), ok_bind, advance, if_neg (by omega), ok_bind,
    readExact_drop (by omega), ok_bind, advance, if_neg (by omega), ok_bind, readCount, hc,
    okOr_some, ok_bind]
  by_cases hm : 96 < pe.sections.length
  · rw [if_pos hm, if_pos hm]
    rfl
  rw [if_neg hm, if_neg hm, ok_bind, hlen, okOr_some, ok_bind, skip_drop (by omega), advance,
    if_neg (by omega)]
  rfl

section

variable {sha256 : Bytes → Bytes} {image : Bytes}

/-- After the headers, the sections of the table are visited. -/
theorem fromFile_of_parsed {pe : PeFile} (hp : pe.Parsed image) : fromFile sha256 image =
      if pe.ntHeadersOffset < 64 then .error (.invalidPe "PE header overlaps the DOS header")
      else if 96 < pe.sections.length then .error (.invalidPe "too many PE sections for a UKI")
      else (walk sha256 pe.sections [] (cursorAt image (pe.ntHeadersOffset + 24 +
        pe.sizeOfOptionalHeader + pe.sections.length * sectionHeaderSize)) >>= checkKernel) := by
  obtain ⟨table, ht, hs⟩ := hp.sectionTable
  have he := (slice_eq_some_iff.1 ht).1
  have hof := uintAt_lt hp.ntHeadersOffset
  have ho := uintAt_lt hp.sizeOfOptionalHeader
  have hc := uintAt_lt hp.numberOfSections
  have hw : 256 ^ 4 + 256 ^ 2 + 2 ^ 10 + 256 ^ 2 * sectionHeaderSize < 2 ^ 64 := by decide
  rw [fromFile, readStart_of_parsed hp]
  split_ifs
  · rfl
  · rfl
  rw [slice, if_pos he] at ht
  have hsz := mul_le_mul_right sectionHeaderSize hc.le
  rw [ok_bind]
  dsimp only [cursorAt]
  rw [readExact_drop he, ok_bind, advance, if_neg (by omega), ok_bind, Option.some.inj ht, ← hs]

/-- Sections in the order of their data. -/
def Ascending : ℕ → List SectionHeader → Prop
  | _, [] => True
  | position, header :: headers =>
    position ≤ header.pointerToRawData ∧ Ascending header.pointerToRawData headers

/-- Where the last section begins. -/
def lastPointer : ℕ → List SectionHeader → ℕ
  | position, [] => position
  | _, header :: headers => lastPointer header.pointerToRawData headers

variable {position : ℕ}

theorem le_lastPointer {headers : List SectionHeader} (h : Ascending position headers) :
    position ≤ lastPointer position headers := by
  induction headers generalizing position with
  | nil => exact le_rfl
  | cons header headers ih => exact h.1.trans (ih h.2)

variable {records : List MeasuredSection} {header : SectionHeader}

theorem visit_eq_ok_iff {next : List MeasuredSection × Cursor}
    (hk : ∀ name, canonicalName header.name ≠ .ok (some name)) (hp : position ≤ image.length) :
    visit sha256 records (cursorAt image position) header = .ok next ↔
      canonicalName header.name = .ok none ∧ position ≤ header.pointerToRawData ∧
        header.pointerToRawData ≤ image.length ∧
        next = (records, cursorAt image header.pointerToRawData) := by
  unfold visit
  by_cases hb : header.pointerToRawData < (cursorAt image position).position
  · rw [if_pos hb]
    exact ⟨fun h => (by cases h), fun h => absurd hb (not_lt.2 h.2.1)⟩
  rw [if_neg hb]
  dsimp only [cursorAt] at hb ⊢
  rw [skip, length_drop]
  by_cases he : image.length < header.pointerToRawData
  · rw [if_pos (by omega)]
    exact ⟨fun h => (by cases h), fun h => absurd he (Nat.not_lt.2 h.2.2.1)⟩
  rw [if_neg (by omega), drop_drop, Nat.add_sub_cancel' (Nat.le_of_not_lt hb)]
  cases hn : canonicalName header.name with
  | error e => exact ⟨fun h => (by cases h), fun h => (by cases h.1)⟩
  | ok name =>
    cases name with
    | some name => exact absurd hn (hk name)
    | none =>
      exact ⟨fun h => ⟨rfl, Nat.le_of_not_lt hb, Nat.le_of_not_lt he,
        (Except.ok.inj h).symm⟩, fun h => by rw [h.2.2.2]; rfl⟩

theorem walk_append {headers rest : List SectionHeader} {records result : List MeasuredSection}
    (hk : ∀ header ∈ headers, ∀ name, canonicalName header.name ≠ .ok (some name))
    (hp : position ≤ image.length) :
    walk sha256 (headers ++ rest) records (cursorAt image position) = .ok result ↔
      (∀ header ∈ headers, canonicalName header.name = .ok none) ∧ Ascending position headers ∧
        lastPointer position headers ≤ image.length ∧
        walk sha256 rest records (cursorAt image (lastPointer position headers)) = .ok result := by
  induction headers generalizing position with
  | nil => exact ⟨fun h => ⟨nofun, trivial, hp, h⟩, fun h => h.2.2.2⟩
  | cons header headers ih =>
    obtain ⟨hhd, hh⟩ := forall_mem_cons.1 hk
    rw [cons_append, walk, bind_eq_ok_iff]
    constructor
    · rintro ⟨next, hv, hw⟩
      obtain ⟨hnm, hle, he, rfl⟩ := (visit_eq_ok_iff hhd hp).1 hv
      obtain ⟨hn, ha, hl, hrest⟩ := (ih hh he).1 hw
      exact ⟨forall_mem_cons.2 ⟨hnm, hn⟩, ⟨hle, ha⟩, hl, hrest⟩
    · rintro ⟨hn, ⟨hle, ha⟩, hl, hrest⟩
      obtain ⟨hnm, hn⟩ := forall_mem_cons.1 hn
      have he := (le_lastPointer ha).trans hl
      exact ⟨_, (visit_eq_ok_iff hhd hp).2 ⟨hnm, hle, he, rfl⟩, (ih hh he).2 ⟨hn, ha, hl, hrest⟩⟩

theorem visit_eq {name : SectionName} {content : Bytes} (hn : header.name = name.bytes)
    (hp : position ≤ header.pointerToRawData)
    (hc : slice image header.pointerToRawData header.virtualSize = some content)
    (hr : name ∉ records.map Prod.fst) (hlen : image.length < 2 ^ 64) :
    ∃ next, next ≤ header.pointerToRawData + header.virtualSize ∧
      visit sha256 records (cursorAt image position) header =
        .ok (records ++ if 0 < header.virtualSize then [(name, sha256 content)] else [],
          cursorAt image next) := by
  have hen := (slice_eq_some_iff.1 hc).1
  have ha : records.any (·.1 = name) = false := by
    rw [any_eq_false]
    intro record hrc he
    exact hr (mem_map.2 ⟨record, hrc, of_decide_eq_true he⟩)
  rw [slice, if_pos hen] at hc
  rw [visit, if_neg (show ¬header.pointerToRawData < (cursorAt image position).position from
    not_lt.2 hp)]
  dsimp only [cursorAt]
  rw [skip_drop (by omega), ok_bind, Nat.add_sub_cancel' hp, hn, canonicalName_bytes, ok_bind]
  dsimp only
  split_ifs with hps
  · refine ⟨header.pointerToRawData + header.virtualSize, le_rfl, ?_⟩
    rw [pushRecord, ha, if_neg Bool.false_ne_true, readContent_eq (by rw [length_drop]; omega),
      ok_bind, advance,
      if_neg (by dsimp only; omega), ok_bind, drop_drop, Option.some.inj hc]
  · exact ⟨header.pointerToRawData, le_add_right _ _, by rw [append_nil]⟩

end

end Muak.Uki
