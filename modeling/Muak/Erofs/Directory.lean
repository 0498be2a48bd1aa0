import Muak.Foundations.Blocks
import Muak.Foundations.Loop
import Muak.Foundations.Result
import Muak.Foundations.U64

/-!
# Directory data

`dir.rs` of `libs/erofs/src`: the entries of a directory are written block by block, in each block
first the entries and then their names.

* `sizeFrom_block`: the size is computed as if it were known which entries share a block.
* `readDir`: the directory is read back block by block.
* `directory_round_trip`: what is read are the entries that were written.

A buffer has less than `2 ^ 64` bytes, so an end that overflows is an end behind the buffer.
-/

namespace Muak.Erofs

open Muak.Bytes Muak.U64 List Nat

def blockSize : ℕ := 4096

def direntSize : ℕ := 12

def erofsNameLen : ℕ := 255

/-- `Entry`: a directory entry before it is written. -/
structure Dirent where
  name : Bytes
  nid : ℕ
  fileType : UInt8
deriving DecidableEq

/-- The room of an entry and its name. -/
def Dirent.size (entry : Dirent) : ℕ := direntSize + entry.name.length

/-! ## Writing -/

/-- The size of directory data with one more name. -/
def sizeStep (size : ℕ) (name : Bytes) : ℕ :=
  let entrySize := direntSize + name.length
  let size := if size % blockSize + entrySize > blockSize then divCeil size blockSize * blockSize
    else size
  size + entrySize

/-- `data_size`: no entry crosses the end of a block. -/
def dataSize (entries : List Dirent) : ℕ :=
  entries.foldl (fun size entry => sizeStep size entry.name) 0

/-- `write_bytes`, when there is room. -/
def writeInto (buf : Bytes) (offset : ℕ) (value : Bytes) : Option Bytes :=
  if offset + value.length ≤ buf.length then some (put buf offset value) else none

/-- Writes one after another, until one fails. -/
def writeWhile (buf : Bytes) : List (ℕ × Bytes) → Bytes
  | [] => buf
  | write :: writes =>
    match writeInto buf write.1 write.2 with
    | none => buf
    | some buf => writeWhile buf writes

def u16OrDefault (value : ℕ) : ℕ := if value < 2 ^ 16 then value else 0

/-- The entries of one block, and their names behind them. -/
def writeBlock (blockStart : ℕ) : ℕ → ℕ → List Dirent → Bytes → Bytes
  | _, _, [], buf => buf
  | direntOffset, nameOffset, entry :: entries, buf =>
    let direntStart := blockStart + direntOffset
    let buf := writeWhile buf [(direntStart, leBytes 8 entry.nid),
      (direntStart + 8, leBytes 2 (u16OrDefault nameOffset)),
      (direntStart + 10, [entry.fileType]), (direntStart + 11, [0]),
      (blockStart + nameOffset, entry.name)]
    writeBlock blockStart (direntOffset + direntSize) (nameOffset + entry.name.length) entries buf

/-- `block_end`: how many of the entries fit into the block. -/
def blockEnd : ℕ → List Dirent → ℕ
  | _, [] => 0
  | used, entry :: entries =>
    if used + (direntSize + entry.name.length) > blockSize then 0
    else blockEnd (used + (direntSize + entry.name.length)) entries + 1

/-- The loop of `serialize_entries` between two blocks: the entries that are left, where the next
block starts, and the buffer. -/
structure Serializing where
  entries : List Dirent
  blockStart : ℕ
  buf : Bytes

/-- One block. -/
def serializeBody (totalSize : ℕ) (s : Serializing) : Bytes ⊕ Serializing :=
  if s.entries = [] then .inl s.buf
  else
    let count := blockEnd 0 s.entries
    let buf := writeBlock s.blockStart 0 (count * direntSize) (s.entries.take count) s.buf
    let blockAdvance := if count = s.entries.length then totalSize - s.blockStart else blockSize
    .inr ⟨s.entries.drop count, s.blockStart + blockAdvance, buf⟩

/-- `serialize_entries`, if at most `n` turns of its loop are enough. -/
def serializeLoop (n : ℕ) (entries : List Dirent) : Option Bytes :=
  Muak.loop (serializeBody (dataSize entries)) n ⟨entries, 0, zeros (dataSize entries)⟩

/-- `serialize_entries`: a block holds an entry at least, when the names are not longer than a
block. -/
def serializeEntries (entries : List Dirent) : Bytes :=
  (serializeLoop (entries.length + 1) entries).getD (zeros (dataSize entries))

/-! ## Lengths -/

theorem length_writeWhile (buf : Bytes) (writes : List (ℕ × Bytes)) :
    (writeWhile buf writes).length = buf.length := by
  induction writes generalizing buf with
  | nil => rfl
  | cons write writes ih =>
    rw [writeWhile, writeInto]
    split_ifs
    · simp [ih]
    · rfl

theorem length_writeBlock (blockStart direntOffset nameOffset : ℕ) (entries : List Dirent)
    (buf : Bytes) :
    (writeBlock blockStart direntOffset nameOffset entries buf).length = buf.length := by
  induction entries generalizing direntOffset nameOffset buf with
  | nil => rfl
  | cons entry entries ih => rw [writeBlock, ih, length_writeWhile]

theorem length_of_serializeBody {totalSize size : ℕ} {s s' : Serializing} (hs : s.buf.length = size)
    (h : serializeBody totalSize s = .inr s') : s'.buf.length = size := by
  unfold serializeBody at h
  split_ifs at h
  rw [← Sum.inr.inj h, length_writeBlock, hs]

@[simp] theorem length_serializeEntries (entries : List Dirent) :
    (serializeEntries entries).length = dataSize entries := by
  unfold serializeEntries
  cases h : serializeLoop (entries.length + 1) entries with
  | none => exact length_zeros _
  | some bytes =>
    refine loop_invariant
      (Q := fun bytes => bytes.length = dataSize entries) (fun s bytes hs hb => ?_)
      (fun s s' hs hb => length_of_serializeBody hs hb) (length_zeros _) h
    unfold serializeBody at hb
    split_ifs at hb
    rw [← Sum.inl.inj hb, hs]

/-! ## One block -/

/-- The room of the entries of a block. -/
def used (part : List Dirent) : ℕ := (part.map Dirent.size).sum

@[simp] theorem used_cons (entry : Dirent) (part : List Dirent) :
    used (entry :: part) = direntSize + entry.name.length + used part := rfl

/-- The names, one after another. -/
def names (part : List Dirent) : Bytes := (part.map Dirent.name).flatten

/-- An entry whose name is at an offset. -/
def direntBytes (entry : Dirent) (nameOffset : ℕ) : Bytes :=
  leBytes 8 entry.nid ++ leBytes 2 (u16OrDefault nameOffset) ++ [entry.fileType] ++ [0]

/-- Where the names are, when the first one is at an offset. -/
def nameOffsets (nameOffset : ℕ) (part : List Dirent) : List ℕ :=
  Blocks.starts nameOffset (part.map (·.name.length))

def dirents (nameOffset : ℕ) (part : List Dirent) : List Bytes :=
  zipWith direntBytes part (nameOffsets nameOffset part)

/-- The bytes of a block: the entries, and then the names. -/
def encodeBlock (part : List Dirent) : Bytes :=
  (dirents (part.length * direntSize) part).flatten ++ names part

@[simp] theorem length_direntBytes (entry : Dirent) (nameOffset : ℕ) :
    (direntBytes entry nameOffset).length = direntSize := by
  simp [direntBytes, direntSize]

theorem length_of_mem_dirents {nameOffset : ℕ} {part : List Dirent} :
    ∀ bytes ∈ dirents nameOffset part, bytes.length = direntSize := by
  intro bytes hb
  obtain ⟨i, hi⟩ := mem_iff_getElem?.1 hb
  rw [dirents, getElem?_zipWith_eq_some] at hi
  obtain ⟨entry, offset, -, -, rfl⟩ := hi
  exact length_direntBytes entry offset

@[simp] theorem length_dirents (nameOffset : ℕ) (part : List Dirent) :
    (dirents nameOffset part).length = part.length := by
  simp [dirents, nameOffsets]

theorem length_flatten_dirents (nameOffset : ℕ) (part : List Dirent) :
    (dirents nameOffset part).flatten.length = part.length * direntSize := by
  rw [length_flatten_of_length length_of_mem_dirents, length_dirents]

theorem used_eq (part : List Dirent) :
    used part = part.length * direntSize + (names part).length := by
  induction part with
  | nil => rfl
  | cons entry part ih =>
    rw [used_cons, ih, names, names, map_cons, flatten_cons, length_append, length_cons, succ_mul]
    omega

@[simp] theorem length_encodeBlock (part : List Dirent) :
    (encodeBlock part).length = used part := by
  rw [encodeBlock, length_append, length_flatten_dirents, used_eq]

/-- Writes that all find room. -/
theorem writeWhile_eq_foldl {buf : Bytes} {writes : List (ℕ × Bytes)}
    (h : ∀ write ∈ writes, write.1 + write.2.length ≤ buf.length) :
    writeWhile buf writes = writes.foldl (fun buf write => put buf write.1 write.2) buf := by
  induction writes generalizing buf with
  | nil => rfl
  | cons write writes ih =>
    obtain ⟨hwr, hw⟩ := forall_mem_cons.1 h
    rw [writeWhile, writeInto, if_pos hwr]
    refine ih fun other ho => ?_
    rw [length_put]
    exact hw other ho

/-- The five writes of an entry are two: the fields of the entry follow each other. -/
theorem writeWhile_entry {buf : Bytes} {entry : Dirent} {p q nameOffset : ℕ}
    (hp : p + direntSize ≤ q) (hq : q + entry.name.length ≤ buf.length) :
    writeWhile buf [(p, leBytes 8 entry.nid), (p + 8, leBytes 2 (u16OrDefault nameOffset)),
      (p + 10, [entry.fileType]), (p + 11, [0]), (q, entry.name)] =
        put (put buf p (direntBytes entry nameOffset)) q entry.name := by
  rw [direntSize] at hp
  have hf : put (put (put (put buf p (leBytes 8 entry.nid)) (p + 8)
      (leBytes 2 (u16OrDefault nameOffset))) (p + 10) [entry.fileType]) (p + 11) [0] =
        put buf p (direntBytes entry nameOffset) := by
    have h₁ : (leBytes 8 entry.nid).length = 8 := length_leBytes _ _
    have h₂ : (leBytes 8 entry.nid ++ leBytes 2 (u16OrDefault nameOffset)).length = 10 := by simp
    have h₃ : (leBytes 8 entry.nid ++ leBytes 2 (u16OrDefault nameOffset) ++
      [entry.fileType]).length = 11 := by simp
    have hpt₁ := @put_put_append buf (leBytes 8 entry.nid) p (leBytes 2 (u16OrDefault nameOffset))
      (by simp; omega)
    have hpt₂ := @put_put_append buf (leBytes 8 entry.nid ++ leBytes 2 (u16OrDefault nameOffset)) p
      [entry.fileType] (by simp; omega)
    have hpt₃ := @put_put_append buf (leBytes 8 entry.nid ++ leBytes 2 (u16OrDefault nameOffset) ++
      [entry.fileType]) p [0] (by simp; omega)
    rw [h₁] at hpt₁
    rw [h₂] at hpt₂
    rw [h₃] at hpt₃
    rw [hpt₁, hpt₂, hpt₃, direntBytes]
  rw [writeWhile_eq_foldl]
  · simp [hf]
  · simp only [forall_mem_cons, length_leBytes, length_singleton]
    refine ⟨by omega, by omega, by omega, by omega, hq, nofun⟩

/-- **What is written for the entries of a block**, from offsets on. -/
theorem writeBlock_from {blockStart direntOffset nameOffset : ℕ} {part : List Dirent}
    {buf : Bytes} (hd : direntOffset + part.length * direntSize ≤ nameOffset)
    (hnm : blockStart + nameOffset + (names part).length ≤ buf.length) :
    writeBlock blockStart direntOffset nameOffset part buf =
      put (put buf (blockStart + direntOffset) (dirents nameOffset part).flatten)
        (blockStart + nameOffset) (names part) := by
  induction part generalizing direntOffset nameOffset buf with
  | nil => simp [writeBlock, dirents, names]
  | cons entry part ih =>
    have hc : (dirents nameOffset (entry :: part)).flatten =
        direntBytes entry nameOffset ++ (dirents (nameOffset + entry.name.length) part).flatten :=
      rfl
    have hn : names (entry :: part) = entry.name ++ names part := rfl
    have hlen := length_flatten_dirents (nameOffset + entry.name.length) part
    have hdr := length_direntBytes entry nameOffset
    rw [hn, length_append] at hnm
    rw [length_cons, succ_mul] at hd
    rw [writeBlock, writeWhile_entry (by omega) (by omega),
      ih (by omega) (by rw [length_put, length_put]; omega), hc, hn,
      ← put_put_append (by rw [length_put]; omega),
      ← put_put_append (by rw [hdr]; omega), ← add_assoc, ← add_assoc]
    congr 1
    exact (put_comm (by rw [hlen]; omega)).symm

theorem writeBlock_eq {blockStart : ℕ} {part : List Dirent} {buf : Bytes}
    (h : blockStart + used part ≤ buf.length) :
    writeBlock blockStart 0 (part.length * direntSize) part buf =
      put buf blockStart (encodeBlock part) := by
  have hlen := length_flatten_dirents (part.length * direntSize) part
  rw [used_eq] at h
  rw [writeBlock_from (by omega) (by omega), add_zero, encodeBlock,
    ← put_put_append (by rw [hlen]; omega), hlen]

/-! ## Which entries share a block -/

/-- An entry with a name that a directory may have. -/
structure Dirent.Valid (entry : Dirent) : Prop where
  name_ne : entry.name ≠ []
  nul_free : 0 ∉ entry.name
  name_le : entry.name.length ≤ erofsNameLen
  nid_lt : entry.nid < 2 ^ 64

theorem Dirent.Valid.size_le {entry : Dirent} (h : entry.Valid) :
    direntSize + entry.name.length ≤ blockSize := by
  have hle := h.name_le
  simp only [erofsNameLen, direntSize, blockSize] at *
  omega

/-- `block_end` takes as many entries as fit. -/
theorem blockEnd_spec {u : ℕ} {entries : List Dirent} (hu : u ≤ blockSize) :
    u + used (entries.take (blockEnd u entries)) ≤ blockSize ∧
      ∀ entry rest, entries.drop (blockEnd u entries) = entry :: rest →
        blockSize < u + used (entries.take (blockEnd u entries)) +
          (direntSize + entry.name.length) := by
  induction entries generalizing u with
  | nil => exact ⟨hu, nofun⟩
  | cons first entries ih =>
    rw [blockEnd]
    split_ifs with hf
    · refine ⟨hu, fun entry rest heq => ?_⟩
      obtain ⟨rfl, -⟩ := cons.inj heq
      exact hf
    · obtain ⟨hle, hn⟩ := ih (not_lt.1 hf)
      rw [take_succ_cons, used_cons, ← add_assoc]
      exact ⟨hle, fun entry rest heq => hn entry rest heq⟩

theorem blockEnd_le (u : ℕ) (entries : List Dirent) : blockEnd u entries ≤ entries.length := by
  induction entries generalizing u with
  | nil => exact le_refl 0
  | cons first entries ih =>
    rw [blockEnd]
    split_ifs
    · exact zero_le _
    · exact succ_le_succ (ih _)

theorem blockEnd_pos {entries : List Dirent} (hne : entries ≠ [])
    (hv : ∀ entry ∈ entries, entry.Valid) : 0 < blockEnd 0 entries := by
  cases entries with
  | nil => exact absurd rfl hne
  | cons first entries =>
    have hs := (hv first mem_cons_self).size_le
    rw [blockEnd, if_neg (by omega)]
    exact succ_pos _

/-- The size of directory data from a size on. -/
def sizeFrom (size : ℕ) (entries : List Dirent) : ℕ :=
  entries.foldl (fun size entry => sizeStep size entry.name) size

@[simp] theorem sizeFrom_cons (size : ℕ) (entry : Dirent) (entries : List Dirent) :
    sizeFrom size (entry :: entries) = sizeFrom (sizeStep size entry.name) entries := rfl

theorem sizeFrom_append (size : ℕ) (part rest : List Dirent) :
    sizeFrom size (part ++ rest) = sizeFrom (sizeFrom size part) rest := foldl_append ..

theorem le_sizeStep (size : ℕ) (name : Bytes) : size ≤ sizeStep size name := by
  unfold sizeStep
  simp only
  split_ifs
  · exact le_trans (le_divCeil_mul (show 0 < blockSize by decide)) (le_add_right _ _)
  · exact le_add_right _ _

theorem le_sizeFrom (size : ℕ) (entries : List Dirent) : size ≤ sizeFrom size entries := by
  induction entries generalizing size with
  | nil => exact le_refl size
  | cons entry entries ih => exact le_trans (le_sizeStep size entry.name) (ih _)

theorem sizeStep_of_fits {k u : ℕ} {name : Bytes} (h : u + (direntSize + name.length) ≤ blockSize) :
    sizeStep (k * blockSize + u) name = k * blockSize + (u + (direntSize + name.length)) := by
  unfold sizeStep
  simp only
  split_ifs with hf
  · simp only [blockSize] at *
    omega
  · omega

/-- An entry that does not fit begins the next block, also when the block is full. -/
theorem sizeStep_of_full {k u : ℕ} {name : Bytes} (hu : u ≤ blockSize)
    (hs : direntSize + name.length ≤ blockSize)
    (h : blockSize < u + (direntSize + name.length)) :
    sizeStep (k * blockSize + u) name = sizeStep ((k + 1) * blockSize) name := by
  unfold sizeStep divCeil
  simp only
  split_ifs <;> simp only [blockSize] at * <;> omega

theorem sizeFrom_of_fits {k u : ℕ} {part : List Dirent} (h : u + used part ≤ blockSize) :
    sizeFrom (k * blockSize + u) part = k * blockSize + (u + used part) := by
  induction part generalizing u with
  | nil => rfl
  | cons entry part ih =>
    rw [used_cons] at h
    have hstep := @sizeStep_of_fits k u entry.name (by omega)
    have hrest := @ih (u + (direntSize + entry.name.length)) (by omega)
    rw [sizeFrom_cons, hstep, hrest, used_cons, add_assoc u]

/-- **The size is computed block by block.** -/
theorem sizeFrom_block {k : ℕ} {entries : List Dirent} (hv : ∀ entry ∈ entries, entry.Valid) :
    sizeFrom (k * blockSize) entries =
      if entries.drop (blockEnd 0 entries) = [] then k * blockSize + used entries
      else sizeFrom ((k + 1) * blockSize) (entries.drop (blockEnd 0 entries)) := by
  obtain ⟨hle, hn⟩ := @blockEnd_spec 0 entries (zero_le _)
  rw [zero_add] at hle hn
  have hs := take_append_drop (blockEnd 0 entries) entries
  have hp := @sizeFrom_of_fits k 0 (entries.take (blockEnd 0 entries)) (by omega)
  rw [zero_add, add_zero] at hp
  have ht : sizeFrom (k * blockSize) entries =
      sizeFrom (k * blockSize + used (entries.take (blockEnd 0 entries)))
        (entries.drop (blockEnd 0 entries)) := by
    rw [← hp, ← sizeFrom_append, hs]
  rw [ht]
  cases hrest : entries.drop (blockEnd 0 entries) with
  | nil =>
    rw [hrest, append_nil] at hs
    rw [hs]
    rfl
  | cons entry rest =>
    have hm : entry ∈ entries := mem_of_mem_drop (hrest ▸ mem_cons_self)
    rw [if_neg (cons_ne_nil _ _), sizeFrom_cons, sizeFrom_cons,
      sizeStep_of_full hle (hv entry hm).size_le (hn entry rest hrest)]

/-! ## All blocks -/

/-- Blocks of entries, all but the last filled up. -/
def encodeParts : List (List Dirent) → Bytes
  | [] => []
  | [part] => encodeBlock part
  | part :: next :: parts =>
    encodeBlock part ++ zeros (blockSize - used part) ++ encodeParts (next :: parts)

theorem encodeParts_cons {part : List Dirent} {parts : List (List Dirent)} (h : parts ≠ []) :
    encodeParts (part :: parts) =
      encodeBlock part ++ zeros (blockSize - used part) ++ encodeParts parts := by
  cases parts with
  | nil => exact absurd rfl h
  | cons next parts => rfl

/-- The entries of a directory, cut into blocks. -/
structure IsPartition (parts : List (List Dirent)) (entries : List Dirent) : Prop where
  flatten_eq : parts.flatten = entries
  ne_nil : ∀ part ∈ parts, part ≠ []
  used_le : ∀ part ∈ parts, used part ≤ blockSize

theorem IsPartition.cons {part rest : List Dirent} {parts : List (List Dirent)}
    (h : IsPartition parts rest) (hne : part ≠ []) (hle : used part ≤ blockSize) :
    IsPartition (part :: parts) (part ++ rest) where
  flatten_eq := by rw [flatten_cons, h.flatten_eq]
  ne_nil := forall_mem_cons.2 ⟨hne, h.ne_nil⟩
  used_le := forall_mem_cons.2 ⟨hle, h.used_le⟩

/-- Writing a block into what is still zero. -/
theorem put_zeros {before block : Bytes} {m : ℕ} (h : block.length ≤ m) :
    put (before ++ zeros m) before.length block = before ++ block ++ zeros (m - block.length) := by
  have hz : zeros m = zeros block.length ++ zeros (m - block.length) := by
    rw [← zeros_add, Nat.add_sub_cancel' h]
  rw [hz, ← append_assoc, put_append rfl (length_zeros _)]

theorem serializeBody_nil (totalSize blockStart : ℕ) (buf : Bytes) :
    serializeBody totalSize ⟨[], blockStart, buf⟩ = .inl buf := if_pos rfl

/-- **One turn of the loop** writes one block. -/
theorem serializeBody_block {totalSize m : ℕ} {entries : List Dirent} {before : Bytes}
    (hne : entries ≠ []) (hr : used (entries.take (blockEnd 0 entries)) ≤ m) :
    serializeBody totalSize ⟨entries, before.length, before ++ zeros m⟩ =
      .inr ⟨entries.drop (blockEnd 0 entries),
        before.length + (if blockEnd 0 entries = entries.length then totalSize - before.length
          else blockSize),
        before ++ encodeBlock (entries.take (blockEnd 0 entries)) ++
          zeros (m - used (entries.take (blockEnd 0 entries)))⟩ := by
  have hc : (entries.take (blockEnd 0 entries)).length = blockEnd 0 entries :=
    length_take_of_le (blockEnd_le 0 entries)
  have hw : writeBlock before.length 0 (blockEnd 0 entries * direntSize)
      (entries.take (blockEnd 0 entries)) (before ++ zeros m) =
        put (before ++ zeros m) before.length
          (encodeBlock (entries.take (blockEnd 0 entries))) := by
    have hr' : before.length + used (entries.take (blockEnd 0 entries)) ≤
        (before ++ zeros m).length := by
      rw [length_append, length_zeros]
      omega
    have heq := writeBlock_eq hr'
    rwa [hc] at heq
  rw [serializeBody, if_neg hne]
  simp only [hw]
  rw [put_zeros (by rwa [length_encodeBlock]), length_encodeBlock]

/-- **The loop writes the entries block by block**, and ends. -/
theorem exists_loop_serialize {totalSize k m : ℕ} {entries : List Dirent} {before : Bytes}
    (hv : ∀ entry ∈ entries, entry.Valid) (hne : entries ≠ []) (hbf : before.length = k * blockSize)
    (hsz : k * blockSize + m = sizeFrom (k * blockSize) entries) :
    ∃ parts, parts ≠ [] ∧ IsPartition parts entries ∧
      Muak.loop (serializeBody totalSize) (entries.length + 1)
        ⟨entries, before.length, before ++ zeros m⟩ =
        some (before ++ encodeParts parts) := by
  induction hn : entries.length using Nat.strongRecOn generalizing entries k m before with
  | ind n ih =>
    have hps := blockEnd_pos hne hv
    have hnn := length_pos_iff.2 hne
    have hs := take_append_drop (blockEnd 0 entries) entries
    obtain ⟨hu, -⟩ := @blockEnd_spec 0 entries (zero_le _)
    rw [zero_add] at hu
    have hpa : entries.take (blockEnd 0 entries) ≠ [] := by
      rw [← length_pos_iff, length_take]
      omega
    have hbl := @sizeFrom_block k entries hv
    by_cases hl : entries.drop (blockEnd 0 entries) = []
    · -- the last block ends the directory
      rw [hl, append_nil] at hs
      rw [if_pos hl] at hbl
      obtain rfl : m = used entries := by omega
      have hbd := @serializeBody_block totalSize (used entries) entries before hne (by rw [hs])
      rw [hl, hs] at hbd
      refine ⟨[entries], cons_ne_nil _ _, ⟨by simp, ?_, ?_⟩, ?_⟩
      · exact forall_mem_singleton.2 hne
      · exact forall_mem_singleton.2 (hs ▸ hu)
      · obtain ⟨n, rfl⟩ := exists_eq_succ_of_ne_zero (show n ≠ 0 by omega)
        rw [loop_succ_of_inr hbd, loop_succ_of_inl (serializeBody_nil _ _ _)]
        simp [zeros, encodeParts]
    · -- a block that is filled up, and the others
      rw [if_neg hl] at hbl
      have hle := le_sizeFrom ((k + 1) * blockSize) (entries.drop (blockEnd 0 entries))
      have hr : blockSize ≤ m := by
        rw [← hbl, succ_mul] at hle
        omega
      have hbd := @serializeBody_block totalSize m entries before hne (le_trans hu hr)
      have hc : blockEnd 0 entries ≠ entries.length := fun h =>
        hl (drop_eq_nil_of_le (le_of_eq h.symm))
      have hz : zeros (m - used (entries.take (blockEnd 0 entries))) =
          zeros (blockSize - used (entries.take (blockEnd 0 entries))) ++
            zeros (m - blockSize) := by
        rw [← zeros_add]
        exact congrArg zeros (by omega)
      have hb : (before ++ encodeBlock (entries.take (blockEnd 0 entries)) ++
          zeros (blockSize - used (entries.take (blockEnd 0 entries)))).length =
            (k + 1) * blockSize := by
        rw [length_append, length_append, length_encodeBlock, length_zeros, succ_mul]
        omega
      have hlen : (entries.drop (blockEnd 0 entries)).length < n := by
        rw [length_drop]
        omega
      obtain ⟨parts, hpr, hp, hlp⟩ := ih _ hlen
        (fun entry he => hv entry (mem_of_mem_drop he)) hl hb
        (show (k + 1) * blockSize + (m - blockSize) = _ by rw [← hbl, succ_mul]; omega) rfl
      refine ⟨entries.take (blockEnd 0 entries) :: parts, cons_ne_nil _ _, ?_, ?_⟩
      · have hcn := hp.cons hpa hu
        rwa [hs] at hcn
      · rw [if_neg hc, hz, ← append_assoc, hbf, ← succ_mul, ← hb] at hbd
        rw [hbf, loop_succ_of_inr hbd, loop_of_le hlp hlen, encodeParts_cons hpr]
        simp

/-- **What `serialize_entries` returns**, after as many turns of its loop as there are entries. -/
theorem exists_serializeLoop {entries : List Dirent} (hv : ∀ entry ∈ entries, entry.Valid) :
    ∃ parts, IsPartition parts entries ∧
      serializeLoop (entries.length + 1) entries = some (encodeParts parts) := by
  by_cases hne : entries = []
  · subst hne
    exact ⟨[], ⟨rfl, nofun, nofun⟩, rfl⟩
  · obtain ⟨parts, -, hp, hl⟩ := @exists_loop_serialize (dataSize entries) 0
      (dataSize entries) entries [] hv hne (zero_mul _).symm
      (by rw [zero_mul, zero_add]; rfl)
    exact ⟨parts, hp, hl⟩

/-! ## Reading -/

/-- The name of an entry of a block ends where the next one starts; the last one ends at a zero or
at the end of the block. -/
def readName (block : Bytes) (count j offset : ℕ) : Option Bytes :=
  if j + 1 = count then some ((block.drop offset).takeWhile (· ≠ 0))
  else do
    let next ← slice block ((j + 1) * direntSize + 8) 2
    slice block offset (ofLe next - offset)

/-- The entry with number `j` of a block. -/
def readDirent (block : Bytes) (count j : ℕ) : Option Dirent := do
  let nid ← slice block (j * direntSize) 8
  let offset ← slice block (j * direntSize + 8) 2
  let fileType ← block[j * direntSize + 10]?
  let name ← readName block count j (ofLe offset)
  some ⟨name, ofLe nid, fileType⟩

/-- The entries of a block: the offset of the first name tells how many there are. -/
def readBlock (block : Bytes) : Option (List Dirent) := do
  let first ← slice block 8 2
  let count := ofLe first / direntSize
  (range count).mapM (readDirent block count)

/-- The entries of a directory, block by block. -/
def readDir (data : Bytes) : Option (List Dirent) :=
  if data = [] then some []
  else do
    let entries ← readBlock (data.take blockSize)
    let rest ← readDir (data.drop blockSize)
    some (entries ++ rest)
termination_by data.length
decreasing_by
  have := length_pos_iff.2 ‹¬data = []›
  rw [length_drop, blockSize]
  omega

section
variable {part : List Dirent} {pad j : ℕ} {entry : Dirent}

/-- An entry of a block, and where its name is. -/
theorem slice_dirent (hj : part[j]? = some entry) (pad : ℕ) : ∃ offset,
    (nameOffsets (part.length * direntSize) part)[j]? = some offset ∧
    slice (encodeBlock part ++ zeros pad) (j * direntSize) direntSize =
      some (direntBytes entry offset) := by
  have hlt : j < (nameOffsets (part.length * direntSize) part).length := by
    rw [nameOffsets, Blocks.length_starts, length_map]
    exact (List.getElem?_eq_some_iff.1 hj).1
  refine ⟨_, getElem?_eq_getElem hlt, ?_⟩
  rw [encodeBlock, append_assoc]
  refine slice_flatten_of_length length_of_mem_dirents ?_ _
  rw [dirents, getElem?_zipWith, hj, getElem?_eq_getElem hlt]

theorem sum_length_names (part : List Dirent) :
    (part.map (·.name.length)).sum = (names part).length := by
  rw [names, length_flatten, map_map]
  rfl

theorem slice_name (hj : part[j]? = some entry) {offset : ℕ}
    (ho : (nameOffsets (part.length * direntSize) part)[j]? = some offset) (pad : ℕ) :
    offset + entry.name.length ≤ used part ∧
      slice (encodeBlock part ++ zeros pad) offset entry.name.length = some entry.name := by
  have hc : (part.map (·.name.length))[j]? = some entry.name.length := by
    rw [getElem?_map, hj, Option.map_some]
  obtain ⟨hf, hto⟩ := Blocks.starts_within ho hc
  rw [sum_length_names, ← used_eq] at hto
  refine ⟨hto, ?_⟩
  have hl : (part.map Dirent.name).map length = (part.map (·.name.length)).map (· * 1) := by
    simp
  have hn := Blocks.slice_flatten hl ho hc (show (part.map Dirent.name)[j]? = some entry.name by
      rw [getElem?_map, hj, Option.map_some])
    (zeros pad)
  rw [Nat.mul_one, Nat.mul_one] at hn
  have hs := Nat.add_sub_cancel' hf
  rw [encodeBlock, append_assoc]
  conv_lhs => rw [← hs]
  rw [slice_append_right (length_flatten_dirents _ _)]
  exact hn

theorem u16OrDefault_of_lt {value : ℕ} (h : value < 2 ^ 16) : u16OrDefault value = value := if_pos h

theorem slice_direntBytes (entry : Dirent) (offset : ℕ) :
    slice (direntBytes entry offset) 0 8 = some (leBytes 8 entry.nid) ∧
      slice (direntBytes entry offset) 8 2 = some (leBytes 2 (u16OrDefault offset)) ∧
      slice (direntBytes entry offset) 10 1 = some [entry.fileType] := by
  have ha : direntBytes entry offset =
      leBytes 8 entry.nid ++ (leBytes 2 (u16OrDefault offset) ++ [entry.fileType] ++ [0]) := by
    simp [direntBytes]
  refine ⟨?_, ?_, ?_⟩
  · rw [ha]
    exact slice_append_left (length_leBytes _ _)
  · rw [direntBytes]
    exact slice_append (length_leBytes _ _) (length_leBytes _ _)
  · exact slice_append (by simp) (length_singleton)

theorem slice_offset (hu : used part ≤ blockSize) (hj : part[j]? = some entry) {offset : ℕ}
    (ho : (nameOffsets (part.length * direntSize) part)[j]? = some offset) (pad : ℕ) :
    slice (encodeBlock part ++ zeros pad) (j * direntSize + 8) 2 = some (leBytes 2 offset) ∧
      ofLe (leBytes 2 offset) = offset := by
  have hle := (slice_name hj ho pad).1
  have hlt : offset < 2 ^ 16 := by
    rw [blockSize] at hu
    omega
  obtain ⟨offset', ho', hb⟩ := slice_dirent hj pad
  obtain rfl : offset = offset' := Option.some.inj (ho.symm.trans ho')
  refine ⟨?_, ofLe_leBytes hlt⟩
  have hf := slice_of_slice hb (slice_direntBytes entry offset).2.1
  rwa [u16OrDefault_of_lt hlt] at hf

/-- **A name is read back.** -/
theorem readName_eq (hu : used part ≤ blockSize) (hv : ∀ entry ∈ part, entry.Valid)
    (hj : part[j]? = some entry) {offset : ℕ}
    (ho : (nameOffsets (part.length * direntSize) part)[j]? = some offset) (pad : ℕ) :
    readName (encodeBlock part ++ zeros pad) part.length j offset = some entry.name := by
  have hlt := (List.getElem?_eq_some_iff.1 hj).1
  have hc : (part.map (·.name.length))[j]? = some entry.name.length := by
    rw [getElem?_map, hj, Option.map_some]
  obtain ⟨hle, hn⟩ := slice_name hj ho pad
  unfold readName
  split_ifs with hl
  · -- behind the last name there are zeros or nothing
    have he : offset + entry.name.length = used part := by
      rw [Blocks.starts_last ho hc (by rw [length_map]; exact hl), sum_length_names, used_eq]
    have hrest : (encodeBlock part ++ zeros pad).drop offset = entry.name ++ zeros pad := by
      have ht := Option.some.inj ((if_pos (slice_eq_some_iff.1 hn).1).symm.trans hn)
      rw [← take_append_drop entry.name.length ((encodeBlock part ++ zeros pad).drop offset), ht,
        drop_drop, he, ← length_encodeBlock, drop_left]
    have hn : ∀ byte ∈ entry.name, decide (byte ≠ 0) = true := fun byte hb =>
      decide_eq_true fun hz =>
        (hv entry (mem_of_getElem? hj)).nul_free (hz ▸ hb)
    rw [hrest, takeWhile_append_of_pos hn]
    cases pad with
    | zero => simp [zeros]
    | succ pad => simp [zeros]
  · have hnx : (nameOffsets (part.length * direntSize) part)[j + 1]? =
        some (offset + entry.name.length) :=
      Blocks.starts_succ ho hc (by rw [length_map]; omega)
    obtain ⟨hf, hvl⟩ := slice_offset hu
      (getElem?_eq_getElem (show j + 1 < part.length by omega)) hnx pad
    rw [hf, Option.bind_eq_bind, Option.bind_some, hvl, Nat.add_sub_cancel_left]
    exact hn

/-- **An entry is read back.** -/
theorem readDirent_eq (hu : used part ≤ blockSize) (hvl : ∀ entry ∈ part, entry.Valid)
    (hj : part[j]? = some entry) (pad : ℕ) :
    readDirent (encodeBlock part ++ zeros pad) part.length j = some entry := by
  obtain ⟨offset, ho, hb⟩ := slice_dirent hj pad
  obtain ⟨hf, hv⟩ := slice_offset hu hj ho pad
  obtain ⟨hn, -, ht⟩ := slice_direntBytes entry offset
  have hn := slice_of_slice hb hn
  have ht := (slice_eq_some_iff.1 (slice_of_slice hb ht)).2.2 0 Nat.one_pos
  rw [Nat.add_zero] at hn ht
  have hv' : ofLe (leBytes 8 entry.nid) = entry.nid :=
    ofLe_leBytes (hvl entry (mem_of_getElem? hj)).nid_lt
  rw [readDirent, hn, hf]
  simp only [Option.bind_eq_bind, Option.bind_some]
  rw [ht, hv, readName_eq hu hvl hj ho pad, hv']
  rfl

/-- **A block is read back.** -/
theorem readBlock_eq (hne : part ≠ []) (hu : used part ≤ blockSize)
    (hv : ∀ entry ∈ part, entry.Valid) (pad : ℕ) :
    readBlock (encodeBlock part ++ zeros pad) = some part := by
  have hp := length_pos_iff.2 hne
  obtain ⟨offset, ho, -⟩ := slice_dirent (getElem?_eq_getElem hp) pad
  obtain ⟨hf, hvl⟩ := slice_offset hu (getElem?_eq_getElem hp) ho pad
  obtain rfl : offset = part.length * direntSize := by
    cases part with
    | nil => exact absurd rfl hne
    | cons first part => exact (Option.some.inj ho).symm
  rw [Nat.zero_mul] at hf
  rw [readBlock, hf, Option.bind_eq_bind, Option.bind_some, hvl, Nat.mul_div_cancel _ (by decide)]
  exact mapM_range_eq_some fun j entry hj => readDirent_eq hu hv hj pad

/-- **A directory is read back.** -/
theorem readDir_encodeParts {parts : List (List Dirent)} (hne : ∀ part ∈ parts, part ≠ [])
    (hu : ∀ part ∈ parts, used part ≤ blockSize)
    (hv : ∀ part ∈ parts, ∀ entry ∈ part, entry.Valid) :
    readDir (encodeParts parts) = some parts.flatten := by
  have hb : ∀ {part : List Dirent}, part ≠ [] → encodeBlock part ≠ [] := by
    intro part hp hn
    have hlen := congrArg length hn
    have hps := length_pos_iff.2 hp
    rw [length_encodeBlock, used_eq, length_nil, direntSize] at hlen
    omega
  induction parts with
  | nil =>
    rw [readDir]
    rfl
  | cons part parts ih =>
    obtain ⟨hp, hne⟩ := forall_mem_cons.1 hne
    obtain ⟨hle, hu⟩ := forall_mem_cons.1 hu
    obtain ⟨he, hv⟩ := forall_mem_cons.1 hv
    by_cases hl : parts = []
    · have hr := readBlock_eq hp hle he 0
      rw [show zeros 0 = [] from rfl, append_nil] at hr
      have hlen : (encodeBlock part).length ≤ blockSize := by rwa [length_encodeBlock]
      rw [hl, encodeParts, readDir, if_neg (hb hp), take_of_length_le hlen,
        drop_of_length_le hlen, hr, readDir]
      simp
    · have hr := readBlock_eq hp hle he (blockSize - used part)
      have hlen : (encodeBlock part ++ zeros (blockSize - used part)).length = blockSize := by
        rw [length_append, length_encodeBlock, length_zeros]
        omega
      rw [encodeParts_cons hl, readDir, if_neg (by simp [hb hp]),
        take_left' hlen, drop_left' hlen, hr, ih hne hu hv]
      simp

end

/-! ## The result -/

/-- **A directory that is written is read back.** The loop of `serialize_entries` ends, its result
has the length that `data_size` computes, and reading it block by block gives the entries. They are
cut into parts that fit into a block each, and all blocks but the last are filled up, so no entry is
in two blocks. -/
theorem directory_round_trip (entries : List Dirent) (hvalid : ∀ entry ∈ entries, entry.Valid) :
    (∃ n, ∀ m ≥ n, serializeLoop m entries = some (serializeEntries entries)) ∧
      (serializeEntries entries).length = dataSize entries ∧
      readDir (serializeEntries entries) = some entries ∧
      ∃ parts, IsPartition parts entries ∧ serializeEntries entries = encodeParts parts := by
  obtain ⟨parts, hp, hl⟩ := exists_serializeLoop hvalid
  have hb : serializeEntries entries = encodeParts parts := by
    rw [serializeEntries, hl, Option.getD_some]
  refine ⟨⟨entries.length + 1, fun m hm => ?_⟩, length_serializeEntries entries, ?_, parts, hp, hb⟩
  · rw [hb]
    exact loop_of_le hl hm
  · have hpr : ∀ part ∈ parts, ∀ entry ∈ part, entry.Valid := fun part hpa entry he =>
      hvalid entry (hp.flatten_eq ▸ mem_flatten.2 ⟨part, hpa, he⟩)
    rw [hb, readDir_encodeParts hp.ne_nil hp.used_le hpr, hp.flatten_eq]

/-- A directory with nothing in it but itself and its parent. -/
theorem directory_round_trip_empty : readDir (serializeEntries [⟨[46], 36, 2⟩, ⟨[46, 46], 36, 2⟩]) =
      some [⟨[46], 36, 2⟩, ⟨[46, 46], 36, 2⟩] := by
  have hv : ∀ entry ∈ [(⟨[46], 36, 2⟩ : Dirent), ⟨[46, 46], 36, 2⟩], entry.Valid := by
    simp only [forall_mem_cons]
    exact ⟨⟨by simp, by decide, by decide, by decide⟩, ⟨by simp, by decide, by decide, by decide⟩,
      nofun⟩
  exact (directory_round_trip _ hv).2.2.1

end Muak.Erofs
