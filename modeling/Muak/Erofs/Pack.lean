import Muak.Erofs.Index
import Muak.Foundations.BitField

/-!
# Compact packs

`layout/assign/compact.rs` and the writer of `writer/compressed.rs` in `libs/erofs/src`: the index
entries of a file are written in packs of two or of sixteen entries. A pack holds the entries as bit
fields, and in its last four bytes a block address that the addresses of its heads are counted from.

* `scan`: what the state of the writer becomes over the entries of a pack, and the numbers written.
* `packFields_spec`: the bits of a pack.
* `writePack_eq`: a pack is the fields of its entries and the address, at the current offset.

The debug assertions of `head_offset` and the argument that only they read are left out.
-/

namespace Muak.Erofs

open Muak.Bytes Muak.BitField Nat

/-! ## Regions -/

/-- How many entries are in packs of two at first, in packs of sixteen, and in packs of two at the
end. -/
def indexLayout (totalidx ebase : ℕ) : ℕ × ℕ × ℕ :=
  let compacted4bInitial := (32 - ebase % 32) / 4 % 8
  if compacted4bInitial < totalidx then
    let compacted2b := (totalidx - compacted4bInitial) / 16 * 16
    (compacted4bInitial, compacted2b, totalidx - compacted4bInitial - compacted2b)
  else (0, 0, totalidx)

def indexBytes (totalidx ebase : ℕ) : ℕ :=
  let (c4i, c2b, c4e) := indexLayout totalidx ebase
  (c4i + 1) / 2 * 8 + c2b / 16 * 32 + (c4e + 1) / 2 * 8

/-! ## The entries of a pack -/

/-- What is carried from pack to pack. -/
structure CompactWriteState where
  outOff : ℕ
  blkaddrRet : ℕ
  dummyHead : Bool
  blkaddr : ℕ
  updateBlkaddrInPack : Bool

variable (entry : LegacyIndexEntry) (valueCount index : ℕ) (state : CompactWriteState)
  (entries : List LegacyIndexEntry) (buf : Bytes)

/-- A head: the one before had no entry with a number of blocks, so it is counted now. -/
def headOffset : ℕ × CompactWriteState :=
  let blkaddr := if state.dummyHead then blockAddr (state.blkaddr + 1) else state.blkaddr
  let blkaddrRet :=
    if state.dummyHead ∧ state.updateBlkaddrInPack then blkaddr else state.blkaddrRet
  (entry.clusterofs, { state with
    blkaddr := blkaddr, blkaddrRet := blkaddrRet, dummyHead := true, updateBlkaddrInPack := false })

/-- The last entry of a pack has the distance to the next head in place of the one to its own. -/
def nonheadOffset (index valueCount : ℕ) (state : CompactWriteState) : ℕ × CompactWriteState :=
  if entry.delta0 &&& cblkcnt ≠ 0 then
    (entry.delta0, { state with
      blkaddr := blockAddr (state.blkaddr + (entry.delta0 - cblkcnt)), dummyHead := false })
  else if index + 1 = valueCount then (min entry.delta1 (cblkcnt - 1), state)
  else (entry.delta0, state)

def entryOffset (index valueCount : ℕ) (state : CompactWriteState) : ℕ × CompactWriteState :=
  match entry.clustertype with
  | .nonhead => nonheadOffset entry index valueCount state
  | .plain => (entry.clusterofs, state)
  | .head1 => headOffset entry state

/-- Set one bit, if it is set in the value. -/
def packBitLe (bitOffset value : ℕ) (buf : Bytes) (bitIndex : ℕ) : Result Bytes :=
  if value.testBit bitIndex then
    if (bitOffset + bitIndex) / 8 < buf.length then .ok (setBit buf (bitOffset + bitIndex))
    else .error (.internal "packed bit write out of bounds")
  else .ok buf

/-- The lowest bits of a number, set in a buffer. -/
def packBitsLe (bitOffset value nbits : ℕ) : Result Bytes :=
  (List.range nbits).foldlM (packBitLe bitOffset value) buf

/-- `LOBITS`: the type stands above the offset. -/
def encoded (clustertype : ClusterType) (offset : ℕ) : ℕ := clustertype.code <<< 12 ||| offset

/-- The loop of `write_pack`. -/
def packEntries (valueCount encodebits : ℕ) : ℕ → CompactWriteState → Bytes →
    List LegacyIndexEntry → Result (Bytes × CompactWriteState)
  | _, state, out, [] => .ok (out, state)
  | index, state, out, entry :: entries => do
    let (offset, state) := entryOffset entry index valueCount state
    let out ← packBitsLe out (index * encodebits) (encoded entry.clustertype offset) encodebits
    packEntries valueCount encodebits (index + 1) state out entries

/-- What a pack holds of each entry, and the state after it. -/
def scan (valueCount : ℕ) : ℕ → CompactWriteState → List LegacyIndexEntry →
    List (ClusterType × ℕ) × CompactWriteState
  | _, state, [] => ([], state)
  | index, state, entry :: entries =>
    let (offset, state) := entryOffset entry index valueCount state
    let (fields, state) := scan valueCount (index + 1) state entries
    ((entry.clustertype, offset) :: fields, state)

/-- Numbers of `nbits` bits, one after another. -/
def packFields (nbits : ℕ) : ℕ → Bytes → List (ClusterType × ℕ) → Result Bytes
  | _, out, [] => .ok out
  | index, out, field :: fields => do
    let out ← packBitsLe out (index * nbits) (encoded field.1 field.2) nbits
    packFields nbits (index + 1) out fields

/-- The state does not depend on what is packed. -/
theorem packEntries_eq (valueCount encodebits index : ℕ) (state : CompactWriteState)
    (out : Bytes) (entries : List LegacyIndexEntry) :
    packEntries valueCount encodebits index state out entries =
      (packFields encodebits index out (scan valueCount index state entries).1).map
        fun out => (out, (scan valueCount index state entries).2) := by
  induction entries generalizing index state out with
  | nil => rfl
  | cons entry entries ih =>
    obtain ⟨⟨offset, state'⟩, ho⟩ :
      ∃ result, entryOffset entry index valueCount state = result := ⟨_, rfl⟩
    simp only [packEntries, scan, packFields, ho]
    cases packBitsLe out (index * encodebits) (encoded entry.clustertype offset) encodebits with
    | error e => rfl
    | ok out => exact ih _ _ _

theorem length_scan : (scan valueCount index state entries).1.length = entries.length := by
  induction entries generalizing index state with
  | nil => rfl
  | cons entry entries ih => exact congrArg succ (ih _ _)

section

variable {out : Bytes} {bitOffset value nbits index : ℕ}

theorem packBitsLe_spec (h : bitOffset + nbits ≤ 8 * out.length) :
    ∃ out', packBitsLe out bitOffset value nbits = .ok out' ∧ out'.length = out.length ∧
      ∀ pos, bit out' pos = (bit out pos || (decide (bitOffset ≤ pos ∧ pos < bitOffset + nbits) &&
        value.testBit (pos - bitOffset))) := by
  induction nbits with
  | zero =>
    refine ⟨out, rfl, rfl, fun pos => ?_⟩
    rw [decide_eq_false (by omega), Bool.false_and, Bool.or_false]
  | succ nbits ih =>
    obtain ⟨out', ho', hlen, hb⟩ := ih (by omega)
    have hp : packBitsLe out bitOffset value (nbits + 1) =
        packBitLe bitOffset value out' nbits := by
      rw [packBitsLe] at ho'
      rw [packBitsLe, List.range_succ, List.foldlM_append, ho', ok_bind]
      exact bind_pure _
    rw [hp, packBitLe]
    split_ifs with hbt hby
    · refine ⟨_, rfl, by rw [length_setBit, hlen], fun pos => ?_⟩
      rw [bit_setBit (by omega), hb]
      by_cases hps : bitOffset + nbits = pos
      · subst hps
        simp [hbt]
      · rw [decide_eq_false hps, Bool.or_false]
        congr 2
        exact decide_eq_decide.2 (by omega)
    · omega
    · refine ⟨_, rfl, hlen, fun pos => ?_⟩
      rw [hb]
      by_cases hps : bitOffset + nbits = pos
      · subst hps
        simp [hbt]
      · congr 2
        exact decide_eq_decide.2 (by omega)

/-- **The bits of a pack**: each field holds its number. -/
theorem packFields_spec {fields : List (ClusterType × ℕ)}
    (h : (index + fields.length) * nbits ≤ 8 * out.length)
    (hz : ∀ pos, index * nbits ≤ pos → bit out pos = false) :
    ∃ out', packFields nbits index out fields = .ok out' ∧ out'.length = out.length ∧
      (∀ pos < index * nbits, bit out' pos = bit out pos) ∧
      ∀ j (hj : j < fields.length), ∀ k < nbits, bit out' ((index + j) * nbits + k) =
        (encoded fields[j].1 fields[j].2).testBit k := by
  induction fields generalizing index out with
  | nil => exact ⟨out, rfl, rfl, fun _ _ => rfl, fun j hj => absurd hj (not_lt_zero j)⟩
  | cons field fields ih =>
    have hn : (index + 1) * nbits = index * nbits + nbits := succ_mul ..
    have hle : (index + 1) * nbits ≤ (index + (field :: fields).length) * nbits :=
      mul_le_mul_right _ (by rw [List.length_cons]; omega)
    obtain ⟨out₁, ho₁, hlen₁, hb₁⟩ :=
      @packBitsLe_spec out (index * nbits) (encoded field.1 field.2) nbits (by omega)
    obtain ⟨out', ho', hlen, hkp, hf⟩ := @ih out₁ (index + 1)
      (by rw [hlen₁, add_assoc, add_comm 1]; exact h)
      (fun pos hp => by
        rw [hb₁, hz pos (by omega), decide_eq_false (by omega)]; rfl)
    refine ⟨out', by rw [packFields, ho₁, ok_bind, ho'], hlen.trans hlen₁,
      fun pos hp => ?_, fun j hj k hk => ?_⟩
    · rw [hkp pos (by omega), hb₁, decide_eq_false (by omega), Bool.false_and, Bool.or_false]
    · cases j with
      | zero =>
        rw [Nat.add_zero, hkp _ (by omega), hb₁, hz _ (by omega), decide_eq_true (by omega),
          Nat.add_sub_cancel_left]
        rfl
      | succ j =>
        have hfl := hf j (lt_of_succ_lt_succ hj) k hk
        rwa [add_assoc, add_comm 1 j] at hfl

end

/-! ## Writing -/

/-- Write bytes, if they are within the buffer. -/
def writeBytes (offset : ℕ) (value : Bytes) : Option Bytes := do
  let end_ ← add offset value.length
  if end_ ≤ buf.length then some (put buf offset value) else none

/-- A pack of `destsize` bytes for every entry. -/
def writePack (state : CompactWriteState) (pack : List LegacyIndexEntry) (destsize : ℕ)
    (updateBlkaddr : Bool) : Result (Bytes × CompactWriteState) :=
  let valueCount := pack.length
  if valueCount = 0 then .error (.internal "compact pack encoding width overflow")
  else do
    let encodebits := (valueCount * destsize * 8 - 32) / valueCount
    let outLen := destsize * valueCount
    if 32 < outLen then .error (.internal "compact pack buffer out of bounds")
    else do
      let (out, state) ← packEntries valueCount encodebits 0
        { state with blkaddr := state.blkaddrRet, updateBlkaddrInPack := updateBlkaddr }
        (zeros outLen) pack
      let packBytes := put out (outLen - 4) (leBytes 4 state.blkaddrRet)
      let buf ← okOr (writeBytes buf state.outOff packBytes)
        (.internal "compact pack write out of bounds")
      .ok (buf, { state with blkaddrRet := state.blkaddr, outOff := state.outOff + outLen })

/-- The entries of a pack. -/
def packAt (count : ℕ) (message : String) (entries : List LegacyIndexEntry) (index : ℕ) :
    Result (List LegacyIndexEntry) :=
  if index + count ≤ entries.length then .ok ((entries.drop index).take count)
  else .error (.internal message)

def twoEntryPack := packAt 2 "missing compact index entry"

def sixteenEntryPack := packAt 16 "missing 16-entry compact index pack"

/-- A loop of `write_indexes`: so many packs of `count` entries, from an entry on. -/
def writePacks (pack : ℕ → Result (List LegacyIndexEntry)) (count destsize : ℕ) :
    ℕ → ℕ → Bytes → CompactWriteState → Result (Bytes × CompactWriteState)
  | 0, _, buf, state => .ok (buf, state)
  | packs + 1, entryIndex, buf, state => do
    let entries ← pack entryIndex
    let (buf, state) ← writePack buf state entries destsize true
    writePacks pack count destsize packs (entryIndex + count) buf state

/-- The packs of two, of sixteen and again of two entries. -/
def writeIndexes (entries : List LegacyIndexEntry) (state : CompactWriteState) (c4i c2b c4e : ℕ) :
    Result Bytes := do
  let (buf, state) ← writePacks (twoEntryPack entries) 2 4 ((c4i + 1) / 2) 0 buf state
  let entryIndex := (c4i + 1) / 2 * 2
  let (buf, state) ← writePacks (sixteenEntryPack entries) 16 2 (c2b / 16) entryIndex buf state
  let entryIndex := entryIndex + c2b / 16 * 16
  let (buf, state) ← writePacks (twoEntryPack entries) 2 4 (c4e / 2) entryIndex buf state
  let entryIndex := entryIndex + c4e / 2 * 2
  if c4e % 2 = 1 then do
    let firstEntry ← okOr entries[entryIndex]? (.internal "missing final compact index entry")
    let (buf, _) ← writePack buf state [firstEntry, .zero] 4 true
    .ok buf
  else .ok buf

/-! ## The metadata of an inode -/

def compactInodeSize : ℕ := 32

def zErofsMapHeaderSize : ℕ := 8

/-- The flags of the map header: packs of sixteen entries, and numbers of blocks. -/
def hAdvise : ℕ := 7

def zErofsCompressionZstd : UInt8 := 3

/-- What the writer reads of an inode. -/
structure InodeLayout where
  compressed : Option CompressedLayout
  xattrPayload : Bytes
  dataBlkaddr : ℕ

def align8 (value : ℕ) : ℕ := ((add value 7).map (· / 8 * 8)).getD value

def writeMapHeader (offset : ℕ) : Result Bytes :=
  okOr (do
    let buf ← writeBytes buf offset (leBytes 4 0)
    let buf ← writeBytes buf (offset + 4) (leBytes 2 hAdvise)
    let buf ← writeBytes buf (offset + 6) [zErofsCompressionZstd]
    writeBytes buf (offset + 7) [0]) (.internal "compressed map header write out of bounds")

/-- The header and the indexes behind an inode. -/
def writeMetadata (inode : InodeLayout) (slotOffset : ℕ) : Result Bytes := do
  let compressedFile ← okOr inode.compressed (.internal "compressed data present")
  let inodeHeaderEnd ← okOr ((add slotOffset compactInodeSize).bind
    (add · inode.xattrPayload.length)) (.internal "compressed inode header offset overflow")
  let mapHeaderOff := align8 inodeHeaderEnd
  let buf ← writeMapHeader buf mapHeaderOff
  let entryBase ← okOr (add mapHeaderOff zErofsMapHeaderSize)
    (.internal "compact index base overflow")
  let totalidx := lclusterCount compressedFile
  let (compact4bInitial, compact2b, compact4bEnd) := indexLayout totalidx entryBase
  if ¬hasRepresentableCompactIndexes compressedFile then
    .error (.internal "compressed file requires unsupported compact indexes")
  else do
    let entries ← buildLegacyIndexEntries compressedFile inode.dataBlkaddr
    if entries.length ≠ totalidx then .error (.internal "compressed index entry count mismatch")
    else
      let state := ⟨entryBase, inode.dataBlkaddr, false, inode.dataBlkaddr, false⟩
      writeIndexes buf entries state compact4bInitial compact2b compact4bEnd

/-! ## A pack in the buffer -/

/-- The two kinds of packs. -/
inductive PackKind
  | two
  | sixteen
deriving DecidableEq

namespace PackKind

/-- The number of entries in a pack. -/
def count : PackKind → ℕ
  | two => 2
  | sixteen => 16

/-- The bytes of an entry. -/
def destsize : PackKind → ℕ
  | two => 4
  | sixteen => 2

/-- The number of bits of an entry. -/
def encodebits : PackKind → ℕ
  | two => 16
  | sixteen => 14

/-- The number of bytes of a pack. -/
def bytes : PackKind → ℕ
  | two => 8
  | sixteen => 32

theorem two_le_count (kind : PackKind) : 2 ≤ kind.count := by
  cases kind <;> decide

end PackKind

theorem scan_outOff : (scan valueCount index state entries).2.outOff = state.outOff := by
  induction entries generalizing index state with
  | nil => rfl
  | cons entry entries ih =>
    have he : (entryOffset entry index valueCount state).2.outOff = state.outOff := by
      unfold entryOffset nonheadOffset headOffset
      split
      · split_ifs <;> rfl
      · rfl
      · rfl
    exact (ih _ _).trans he

/-- The state with which the entries of a pack are begun. -/
def CompactWriteState.beginPack : CompactWriteState :=
  { state with blkaddr := state.blkaddrRet, updateBlkaddrInPack := true }

/-- **A pack** that is written: its fields, and the address at its end. -/
theorem writePack_eq {kind : PackKind} {buf : Bytes} {state state' : CompactWriteState}
    {pack : List LegacyIndexEntry} {fields : List (ClusterType × ℕ)}
    (hs : scan kind.count 0 state.beginPack pack = (fields, state'))
    (hp : pack.length = kind.count) (hbf : buf.length < 2 ^ 64)
    (hr : state.outOff + kind.bytes ≤ buf.length) :
    ∃ bytes, writePack buf state pack kind.destsize true = .ok (put buf state.outOff bytes,
        { state' with blkaddrRet := state'.blkaddr, outOff := state.outOff + kind.bytes }) ∧
      bytes.length = kind.bytes ∧
      slice bytes (kind.bytes - 4) 4 = some (leBytes 4 state'.blkaddrRet) ∧
      ∀ j (hj : j < fields.length), ∀ k < kind.encodebits,
        bit bytes (j * kind.encodebits + k) = (encoded fields[j].1 fields[j].2).testBit k := by
  have hne : pack.length ≠ 0 := by
    rw [hp]
    exact (zero_lt_of_lt kind.two_le_count).ne'
  have hb : (pack.length * kind.destsize * 8 - 32) / pack.length = kind.encodebits := by
    rw [hp]; cases kind <;> rfl
  have hlen : kind.destsize * pack.length = kind.bytes := by rw [hp]; cases kind <;> rfl
  have hm : ¬32 < kind.bytes := by cases kind <;> decide
  have hfr : 4 ≤ kind.bytes := by cases kind <;> decide
  have ht : kind.count * kind.encodebits = 8 * (kind.bytes - 4) := by cases kind <;> rfl
  have hl := length_scan kind.count 0 state.beginPack pack
  have hof := scan_outOff kind.count 0 state.beginPack pack
  rw [hs] at hl hof
  simp only [CompactWriteState.beginPack] at hl hof
  obtain ⟨out, hot, ho, -, hf⟩ := @packFields_spec (zeros kind.bytes) kind.encodebits 0 fields
    (by rw [hl, hp, zero_add, length_zeros]; omega)
    (fun pos _ => bit_replicate _ pos)
  rw [length_zeros] at ho
  have hpt : kind.bytes - 4 + (leBytes 4 state'.blkaddrRet).length ≤ out.length := by
    rw [length_leBytes]
    omega
  refine ⟨put out (kind.bytes - 4) (leBytes 4 state'.blkaddrRet), ?_, ?_, ?_, fun j hj k hk => ?_⟩
  · have hw : writeBytes buf state'.outOff
        (put out (kind.bytes - 4) (leBytes 4 state'.blkaddrRet)) =
          some (put buf state.outOff (put out (kind.bytes - 4) (leBytes 4 state'.blkaddrRet))) := by
      rw [hof, writeBytes, length_put, ho, add, if_pos (by exact hr.trans_lt hbf)]
      exact if_pos hr
    rw [writePack]
    simp only [hne, if_false, hb, hlen, hm]
    rw [packEntries_eq, hp, ← CompactWriteState.beginPack, hs, hot]
    simp only [Except.map, ok_bind, hw, okOr_some]
    rw [hof]
  · rw [length_put, ho]
  · exact slice_put hpt (length_leBytes _ _)
  · -- the address stands behind the fields
    have hfl : (j + 1) * kind.encodebits ≤ kind.count * kind.encodebits :=
      mul_le_mul_right _ (by omega)
    rw [bit_put_of_lt (by rw [succ_mul] at hfl; omega), ← hf j hj k hk, zero_add]

end Muak.Erofs
