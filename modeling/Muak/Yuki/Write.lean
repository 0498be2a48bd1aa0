import Muak.Yuki.Prepare

/-!
# Writing an image

`toolchain/yuki/src/io.rs` and `write.rs`: an image is written in one pass, the patched headers
first, then the rest of the stub, then the components at their places.

* `write`: the pass over the streams of the stub and of the components.
* `writeSections_eq`: sections that follow each other are written without gaps, if the streams are
  long enough.
* `Build`: a stub and components for which there is a plan, with `HasTable.write_eq`.
-/

namespace Muak.Yuki

open Bytes Uki List Nat

/-! ## The source -/

/-- A stream and its declared size. -/
structure Input where
  reader : Reader
  size : ℕ

/-- The streams of the components. -/
structure Inputs where
  cmdline : Input
  kernel : Input
  initramfs : Input
  osrel : Input

def Inputs.get (inputs : Inputs) : SectionName → Input
  | .cmdline => inputs.cmdline
  | .kernel => inputs.kernel
  | .initrd => inputs.initramfs
  | .osrel => inputs.osrel

/-- `io::copy_exact`. -/
def copyExact (reader : Reader) (len : ℕ) (name : String) : Result Bytes :=
  let copied := (reader.copy 0x4000 len).1
  if copied.length ≠ len then
    .error (.invalidPeStructure
      ("section '" ++ name ++ "' ended early: expected " ++ toString len ++
      " bytes, copied " ++ toString copied.length))
  else .ok copied

/-- `io::write_gap`: zeros, at most 8192 at a time. -/
def writeGap (size : ℕ) : Bytes :=
  if 0 < size then zeros (min size 8192) ++ writeGap (size - min size 8192) else []

/-- The error of a size that was not planned. -/
def inputMismatch (name : SectionName) (input planned : ℕ) : YukiError :=
  quoted "section " name (" input size " ++ toString input ++ " does not match planned " ++
    toString planned)

/-- The loop of `validate_inputs`. -/
def validateSections (inputs : Inputs) : List Section → Result Unit
  | [] => .ok ()
  | planned :: sections =>
    if planned.size ≠ (inputs.get planned.name).size then
      .error (inputMismatch planned.name (inputs.get planned.name).size planned.size)
    else validateSections inputs sections

/-- All streams have the planned sizes. -/
def validateInputs (manifest : Manifest) (inputs : Inputs) : Result Unit := do
  validateSections inputs manifest.assembly.sections
  if !manifest.assembly.sections.any (·.name = .osrel) ∧ inputs.osrel.size ≠ 0 then
    .error (inputMismatch .osrel inputs.osrel.size 0)
  else .ok ()

/-- What the loop over the sections has written, and where it stands. -/
structure Progress where
  bytes : Bytes
  sections : List Section
  pos : ℕ

/-- A section does not begin before the one before it ends. -/
def checkPlanned (planned : Section) (pos : ℕ) : Result Unit :=
  if planned.fileOffset < pos then
    .error (quoted "section " planned.name " precedes current write position")
  else .ok ()

/-- The size of a section fits. -/
def checkSize (planned : Section) : Result Unit :=
  if 2 ^ 32 ≤ planned.size then .error (quoted "section " planned.name " size exceeds u32")
  else .ok ()

section

variable (sha256 : Bytes → Bytes)

/-- The loop over the sections, from a position in the output. -/
def writeSections (inputs : Inputs) (fileAlignment : ℕ) : ℕ → List Section → Result Progress
  | pos, [] => .ok ⟨[], [], pos⟩
  | pos, planned :: sections => do
    checkPlanned planned pos
    let data ← copyExact (inputs.get planned.name).reader planned.size planned.name.text
    checkSize planned
    let aligned := alignTo planned.size fileAlignment
    let rest ← writeSections inputs fileAlignment (planned.fileOffset + aligned) sections
    .ok ⟨writeGap (planned.fileOffset - pos) ++ data ++ writeGap (aligned - planned.size) ++
      rest.bytes, { planned with checksum := sha256 data } :: rest.sections, rest.pos⟩

/-- The whole image was written. -/
def checkPos (layout : Layout) (pos : ℕ) : Result Unit :=
  if pos ≠ layout.totalSize then
    .error (.invalidPeStructure ("output length mismatch: wrote " ++ toString pos ++
      " bytes, expected " ++ toString layout.totalSize))
  else .ok ()

/-- The bytes of the image, and its sections with their digests. -/
structure Output where
  bytes : Bytes
  sections : List Section

def write (manifest : Manifest) (stub : Reader) (inputs : Inputs) : Result Output := do
  validateInputs manifest inputs
  let stubBytes ← copyExact stub manifest.assembly.stubRemainder "stub"
  let written ← writeSections sha256 inputs manifest.assembly.fileAlignment manifest.layout.stubSize
    manifest.assembly.sections
  checkPos manifest.layout written.pos
  .ok ⟨manifest.assembly.patchedPrefix ++ stubBytes ++ written.bytes, written.sections⟩

end

/-! ## The loop -/

theorem writeGap_eq (size : ℕ) : writeGap size = zeros size := by
  induction size using writeGap.induct with
  | case1 size hp ih =>
    rw [writeGap, if_pos hp, ih, ← zeros_add, Nat.add_sub_cancel' (Nat.min_le_left _ _)]
  | case2 size hz =>
    rw [writeGap]
    obtain rfl : size = 0 := by omega
    rfl

theorem copyExact_eq_ok_iff {reader : Reader} {len : ℕ} {name : String} {data : Bytes} :
    copyExact reader len name = .ok data ↔
      len ≤ reader.data.length ∧ data = reader.data.take len := by
  have hc := (Reader.copy_eq (show 0 < 0x4000 by decide) len reader).1
  unfold copyExact
  dsimp only
  rw [hc, length_take]
  constructor
  · intro h
    split_ifs at h with hlen
    exact ⟨by omega, (Except.ok.inj h).symm⟩
  · rintro ⟨hlen, rfl⟩
    rw [if_neg (by omega)]

section

variable {sha256 : Bytes → Bytes} {inputs : Inputs} {fileAlignment : ℕ}

/-- The data of a section. -/
def Inputs.content (inputs : Inputs) (entry : Section) : Bytes :=
  (inputs.get entry.name).reader.data.take entry.size

/-- The data, with the zeros behind it. -/
def Inputs.block (inputs : Inputs) (fileAlignment : ℕ) (entry : Section) : Bytes :=
  inputs.content entry ++ zeros (alignTo entry.size fileAlignment - entry.size)

/-- A section can be written. -/
structure Writable (inputs : Inputs) (fileAlignment : ℕ) (entry : Section) : Prop where
  size_lt : entry.size < 2 ^ 32
  size_le : entry.size ≤ alignTo entry.size fileAlignment
  available : entry.size ≤ (inputs.get entry.name).reader.data.length

variable {entry : Section}

theorem Writable.length_content (h : Writable inputs fileAlignment entry) :
    (inputs.content entry).length = entry.size := by
  rw [Inputs.content, length_take, min_eq_left h.available]

theorem Writable.length_block (h : Writable inputs fileAlignment entry) :
    (inputs.block fileAlignment entry).length = alignTo entry.size fileAlignment := by
  rw [Inputs.block, length_append, h.length_content, length_zeros, Nat.add_sub_cancel' h.size_le]

theorem writeSections_cons {pos : ℕ} {sections : List Section} {rest : Progress}
    (hwritable : Writable inputs fileAlignment entry) (hp : pos ≤ entry.fileOffset)
    (hrest : writeSections sha256 inputs fileAlignment
      (entry.fileOffset + alignTo entry.size fileAlignment) sections = .ok rest) :
    writeSections sha256 inputs fileAlignment pos (entry :: sections) =
      .ok ⟨zeros (entry.fileOffset - pos) ++ inputs.block fileAlignment entry ++ rest.bytes,
        { entry with checksum := sha256 (inputs.content entry) } :: rest.sections, rest.pos⟩ := by
  have hc : copyExact (inputs.get entry.name).reader entry.size entry.name.text =
      .ok (inputs.content entry) := copyExact_eq_ok_iff.2 ⟨hwritable.available, rfl⟩
  have hs := hwritable.size_lt
  rw [writeSections, checkPlanned, if_neg (by omega), hc, checkSize, if_neg (by omega)]
  dsimp only [ok_bind]
  rw [hrest, writeGap_eq, writeGap_eq]
  simp [Inputs.block]

variable {sections : List Section}

section

variable {first last : ℕ} (hcontiguous : Contiguous fileAlignment first sections last)
  (hwritable : ∀ entry ∈ sections, Writable inputs fileAlignment entry)

include hcontiguous hwritable

/-- Contiguous sections are written without gaps. -/
theorem writeSections_eq : writeSections sha256 inputs fileAlignment first sections =
      .ok ⟨(sections.map (inputs.block fileAlignment)).flatten,
        sections.map fun entry => { entry with checksum := sha256 (inputs.content entry) },
        last⟩ := by
  induction hcontiguous with
  | nil offset => rfl
  | cons _ ih =>
    obtain ⟨he, hs⟩ := forall_mem_cons.1 hwritable
    rw [writeSections_cons he le_rfl (ih hs), Nat.sub_self]
    rfl

theorem length_flatten_blocks :
    first + (sections.map (inputs.block fileAlignment)).flatten.length = last := by
  induction hcontiguous with
  | nil offset => rfl
  | cons _ ih =>
    obtain ⟨he, hs⟩ := forall_mem_cons.1 hwritable
    rw [map_cons, flatten_cons, length_append, he.length_block, ← ih hs, add_assoc]

/-- The block of a section is at its offset. -/
theorem exists_append_block (he : entry ∈ sections) :
    ∃ before after, (sections.map (inputs.block fileAlignment)).flatten =
      before ++ inputs.block fileAlignment entry ++ after ∧
        entry.fileOffset = first + before.length := by
  induction hcontiguous with
  | nil offset => cases he
  | @cons next sections last _ ih =>
    obtain ⟨hn, hs⟩ := forall_mem_cons.1 hwritable
    rw [map_cons, flatten_cons]
    obtain rfl | hm := mem_cons.1 he
    · exact ⟨[], _, rfl, rfl⟩
    · obtain ⟨before, after, hf, ho⟩ := ih hs hm
      refine ⟨inputs.block fileAlignment next ++ before, after, ?_, ?_⟩
      · rw [hf]
        simp
      · rw [ho, length_append, hn.length_block, add_assoc]

end

/-- Before the first section there may be a gap. -/
theorem writeSections_eq_of_le {first last pos : ℕ}
    (hcontiguous : Contiguous fileAlignment first sections last)
    (hwritable : ∀ entry ∈ sections, Writable inputs fileAlignment entry)
    (hs : sections ≠ []) (hp : pos ≤ first) :
    writeSections sha256 inputs fileAlignment pos sections =
      .ok ⟨zeros (first - pos) ++ (sections.map (inputs.block fileAlignment)).flatten,
        sections.map fun entry => { entry with checksum := sha256 (inputs.content entry) },
        last⟩ := by
  cases hcontiguous with
  | nil => exact absurd rfl hs
  | cons hrest =>
    obtain ⟨he, hr⟩ := forall_mem_cons.1 hwritable
    rw [writeSections_cons he hp (writeSections_eq hrest hr), map_cons, map_cons, flatten_cons,
      append_assoc]

end

/-! ## The pass -/

def Inputs.sizes (inputs : Inputs) : Components :=
  ⟨inputs.cmdline.size, inputs.kernel.size, inputs.initramfs.size, inputs.osrel.size⟩

/-- A stub and components for which there is a plan; the streams have the declared sizes. -/
structure Build [PeParser] where
  stub : Reader
  stubSize : ℕ
  inputs : Inputs
  probed : Probe
  rest : Reader
  manifest : Manifest
  probe_eq : probe stub = .ok (probed, rest)
  prepare_eq : prepare probed stubSize inputs.sizes = .ok manifest
  stub_available : stubSize ≤ stub.data.length
  inputs_available : ∀ name, (inputs.get name).size ≤ (inputs.get name).reader.data.length

namespace Build

variable [PeParser] (b : Build)

/-- What is known of the stub. -/
abbrev metadata : Metadata := b.probed.metadata

/-- The headers of the image. -/
abbrev headerBytes (table : Table) : Bytes :=
  patched b.probed.prefixBytes b.metadata table

/-- The table that the plan was made from. -/
structure HasTable (table : Table) : Prop where
  built : Built b.metadata b.stubSize b.inputs.sizes.sizes table
  parse : parse b.probed.prefixBytes = .ok b.metadata
  length_prefixBytes : b.probed.prefixBytes.length = b.metadata.sizeOfHeaders
  stub : b.probed.prefixBytes ++ b.rest.data = b.stub.data
  headers_le : b.metadata.sizeOfHeaders ≤ b.stubSize
  last_le : b.metadata.lastSectionFileEnd ≤ b.stubSize
  stubSize : b.manifest.layout.stubSize = b.stubSize
  totalSize : b.manifest.layout.totalSize = table.currentFileOffset
  assembly : b.manifest.assembly = ⟨b.headerBytes table,
    b.stubSize - b.metadata.sizeOfHeaders, b.metadata.fileAlignment, table.sections⟩

theorem exists_table : ∃ table, b.HasTable table := by
  obtain ⟨hp, hc, hlen, hst⟩ := probe_eq_ok b.probe_eq
  obtain ⟨table, hb, hh, hl, hs, ht, ha⟩ := prepare_eq_ok hp (hlen.trans hc.symm) b.prepare_eq
  rw [← hc] at hh ha
  exact ⟨table, hb, hp, hlen.trans hc.symm, hst, hh, hl, hs, ht, ha⟩

variable {b} {table : Table}

theorem HasTable.size_eq (h : b.HasTable table) {entry : Section} (he : entry ∈ table.sections) :
    entry.size = (b.inputs.get entry.name).size := by
  have hm : (entry.name, entry.size) ∈ table.sections.map fun entry => (entry.name, entry.size) :=
    mem_map_of_mem he
  rw [h.built.sections, Components.filterMap_sizes] at hm
  split_ifs at hm with ho
  all_goals
    simp only [cons_append, nil_append, mem_cons, Prod.mk.injEq, not_mem_nil, or_false] at hm
  · obtain ⟨hn, hs⟩ | ⟨hn, hs⟩ | ⟨hn, hs⟩ | ⟨hn, hs⟩ := hm
    all_goals rw [hn, hs]; rfl
  · obtain ⟨hn, hs⟩ | ⟨hn, hs⟩ | ⟨hn, hs⟩ := hm
    all_goals rw [hn, hs]; rfl

omit [PeParser] in
theorem validateSections_eq {inputs : Inputs} {sections : List Section}
    (h : ∀ entry ∈ sections, entry.size = (inputs.get entry.name).size) :
    validateSections inputs sections = .ok () := by
  induction sections with
  | nil => rfl
  | cons entry sections ih =>
    obtain ⟨he, hs⟩ := forall_mem_cons.1 h
    rw [validateSections, if_neg (not_not.2 he), ih hs]

theorem HasTable.validateInputs_eq (h : b.HasTable table) :
    validateInputs b.manifest b.inputs = .ok () := by
  have ho : ¬(!(table.sections.any (·.name = .osrel)) ∧ b.inputs.osrel.size ≠ 0) := by
    rintro ⟨ha, hs⟩
    have hm : (SectionName.osrel, b.inputs.osrel.size) ∈
        table.sections.map fun entry => (entry.name, entry.size) := by
      rw [h.built.sections, Components.filterMap_sizes, if_pos
        (show 0 < b.inputs.sizes.osrel from pos_of_ne_zero hs)]
      exact mem_append_right _ (mem_singleton_self _)
    obtain ⟨entry, he, heq⟩ := mem_map.1 hm
    have : table.sections.any (·.name = .osrel) = true :=
      any_eq_true.2 ⟨entry, he, decide_eq_true (congrArg Prod.fst heq)⟩
    rw [this] at ha
    cases ha
  rw [validateInputs, h.assembly]
  rw [validateSections_eq fun entry he => h.size_eq he, ok_bind, if_neg ho]

theorem HasTable.writable (h : b.HasTable table) :
    ∀ entry ∈ table.sections, Writable b.inputs b.metadata.fileAlignment entry := by
  intro entry he
  obtain ⟨header, hhd, hof⟩ := exists_mem_of_forall₂_right h.built.placed.sections.flip he
  have hp := (h.built.placed.headers header hhd).size_le
  obtain ⟨hh, -, hr⟩ := hof
  rw [hh] at hp hr
  have hle : entry.size ≤ alignTo entry.size b.metadata.fileAlignment := hp
  exact ⟨lt_of_le_of_lt hle hr, hle, h.size_eq he ▸ b.inputs_available _⟩

theorem HasTable.sections_ne_nil (h : b.HasTable table) : table.sections ≠ [] := by
  intro hn
  have hs := h.built.sections
  rw [hn] at hs
  cases hs

theorem stubSize_le (b : Build) : b.stubSize ≤ firstOffset b.metadata b.stubSize := le_max_right _ _

/-- The image: the patched headers, the rest of the stub, and the components. -/
def image (b : Build) (table : Table) : Bytes :=
  b.headerBytes table ++ b.rest.data.take (b.stubSize - b.metadata.sizeOfHeaders) ++
    (zeros (firstOffset b.metadata b.stubSize - b.stubSize) ++
      (table.sections.map (b.inputs.block b.metadata.fileAlignment)).flatten)

section

variable (h : b.HasTable table)

include h

theorem HasTable.length_rest : b.stubSize - b.metadata.sizeOfHeaders ≤ b.rest.data.length := by
  have hs := congrArg length h.stub
  have ha := b.stub_available
  have hlen := h.length_prefixBytes
  rw [length_append] at hs
  omega

theorem HasTable.write_eq (sha256 : Bytes → Bytes) :
    write sha256 b.manifest b.rest b.inputs = .ok ⟨b.image table, table.sections.map fun entry =>
      { entry with checksum := sha256 (b.inputs.content entry) }⟩ := by
  have hc : copyExact b.rest (b.stubSize - b.metadata.sizeOfHeaders) "stub" =
      .ok (b.rest.data.take (b.stubSize - b.metadata.sizeOfHeaders)) :=
    copyExact_eq_ok_iff.2 ⟨h.length_rest, rfl⟩
  rw [write, h.validateInputs_eq, ok_bind, h.assembly]
  rw [hc, ok_bind, h.stubSize, writeSections_eq_of_le h.built.contiguous h.writable
    h.sections_ne_nil b.stubSize_le, ok_bind, checkPos, h.totalSize, if_neg (not_not.2 rfl),
    ok_bind, image]

theorem HasTable.length_patched : (b.headerBytes table).length = b.metadata.sizeOfHeaders := by
  rw [headerBytes, patched, length_put, length_put, length_put, h.length_prefixBytes]

theorem HasTable.length_head : (b.headerBytes table ++
      b.rest.data.take (b.stubSize - b.metadata.sizeOfHeaders)).length = b.stubSize := by
  rw [length_append, h.length_patched, length_take, Nat.min_eq_left h.length_rest,
    Nat.add_sub_cancel' h.headers_le]

theorem HasTable.length_image : (b.image table).length = table.currentFileOffset := by
  have hb := length_flatten_blocks h.built.contiguous h.writable
  have hf := b.stubSize_le
  rw [image, length_append, h.length_head, length_append, length_zeros]
  omega

theorem HasTable.slice_image {entry : Section} (he : entry ∈ table.sections) :
    slice (b.image table) entry.fileOffset (alignTo entry.size b.metadata.fileAlignment) =
        some (b.inputs.block b.metadata.fileAlignment entry) := by
  obtain ⟨before, after, hf, ho⟩ := exists_append_block h.built.contiguous h.writable he
  have hfr := b.stubSize_le
  rw [image, hf, ← append_assoc (zeros _), ← append_assoc (zeros _), ← append_assoc, ← append_assoc]
  refine slice_append ?_ (h.writable entry he).length_block
  rw [length_append, h.length_head, length_append, length_zeros]
  omega

end

end Build

end Muak.Yuki
