import Muak.Fatfs.Clusters
import Muak.Foundations.Reader

/-!
# Writing a FAT image

`libs/fatfs/src/boot.rs` and `builder`: the metadata of an image is computed from the paths and
sizes of its files, and the image is written from front to back without seeking.

* `precompute`, `build`: the two calls.
* Each writing function is one write of certain bytes: `writeZeros_eq`, `writeMetadata_eq`,
  `streamReader_eq`, `padToImage_eq`.
* `build_eq`: the image is the reserved sectors, the table twice, the directories, the files and
  zeros.
-/

namespace Muak.Fatfs

open U64 Bytes List Nat

/-! ## The reserved sectors -/

def unknownCluster : UInt32 := 0xFFFFFFFF

def volumeId : UInt32 := 0x12345678

def fsinfoSector : UInt16 := 1

def backupBootSector : UInt16 := 6

/-- The code that runs when the volume is booted: it prints that this is not a bootable disk. -/
def bootCode : Bytes :=
  [0x0E, 0x1F, 0xBE, 0x77, 0x7C, 0xAC, 0x22, 0xC0, 0x74, 0x0B, 0x56, 0xB4, 0x0E, 0xBB, 0x07, 0x00,
   0xCD, 0x10, 0x5E, 0xEB, 0xF0, 0x32, 0xE4, 0xCD, 0x16, 0xCD, 0x19, 0xEB, 0xFE, 0x54, 0x68, 0x69,
   0x73, 0x20, 0x69, 0x73, 0x20, 0x6E, 0x6F, 0x74, 0x20, 0x61, 0x20, 0x62, 0x6F, 0x6F, 0x74, 0x61,
   0x62, 0x6C, 0x65, 0x20, 0x64, 0x69, 0x73, 0x6B, 0x2E, 0x20, 0x20, 0x50, 0x6C, 0x65, 0x61, 0x73,
   0x65, 0x20, 0x69, 0x6E, 0x73, 0x65, 0x72, 0x74, 0x20, 0x61, 0x20, 0x62, 0x6F, 0x6F, 0x74, 0x61,
   0x62, 0x6C, 0x65, 0x20, 0x66, 0x6C, 0x6F, 0x70, 0x70, 0x79, 0x20, 0x61, 0x6E, 0x64, 0x0D, 0x0A,
   0x70, 0x72, 0x65, 0x73, 0x73, 0x20, 0x61, 0x6E, 0x79, 0x20, 0x6B, 0x65, 0x79, 0x20, 0x74, 0x6F,
   0x20, 0x74, 0x72, 0x79, 0x20, 0x61, 0x67, 0x61, 0x69, 0x6E, 0x20, 0x2E, 0x2E, 0x2E, 0x20, 0x0D,
   0x0A]

/-- A number in 8, 16 or 32 bits, or the default when it does not fit. -/
def narrow8 (value : ℕ) (default : UInt8) : UInt8 :=
  if value < 2 ^ 8 then UInt8.ofNat value else default

def narrow16 (value : ℕ) : UInt16 := if value < 2 ^ 16 then UInt16.ofNat value else 0

def narrow32 (value : ℕ) (default : UInt32) : UInt32 :=
  if value < 2 ^ 32 then UInt32.ofNat value else default

variable (layout : FatLayout) (fields : List (ℕ × Bytes))

/-- What the boot sector says, and where. -/
def bootFields : List (ℕ × Bytes) :=
  [(0, [0xEB, 0x58, 0x90]), (3, [77, 83, 87, 73, 78, 52, 46, 49]), -- `MSWIN4.1`
   (11, le16 (narrow16 sectorSize)),
   (13, [narrow8 layout.spc 1]),
   (14, le16 (narrow16 layout.reservedSectors)),
   (16, [narrow8 fatCount 0]),
   (21, [0xF8]),
   (24, le16 32),
   (26, le16 64),
   (32, le32 (narrow32 layout.totalSectors 0)),
   (36, le32 (narrow32 layout.fatSectors 0)),
   (44, le32 (UInt32.ofNat rootCluster)),
   (48, le16 fsinfoSector),
   (50, le16 backupBootSector),
   (64, [0x80]),
   (66, [0x29]),
   (67, le32 volumeId),
   (71, volumeLabel.bytes),
   (82, [70, 65, 84, 51, 50, 32, 32, 32]), -- `FAT32   `
   (90, bootCode),
   (510, [0x55, 0xAA])]

/-- Free space accounting. -/
structure FsInfo where
  freeClusters : UInt32
  nextFree : UInt32

/-- The free clusters that are left. -/
def FsInfo.fromMap (map : ClusterMap) (layout : FatLayout) : FsInfo :=
  let dirs := (map.dirCounts.map UInt32.toNat).sum
  let files := map.fileCounts.sum
  let used := saturatingAdd dirs files
  let free := layout.dataClusterCount - used
  { freeClusters := narrow32 free unknownCluster
    nextFree :=
      if free = 0 then unknownCluster
      else narrow32 (saturatingAdd rootCluster used) unknownCluster }

def fsinfoFields (info : FsInfo) : List (ℕ × Bytes) :=
  [(0, le32 0x41615252), (484, le32 0x61417272), (488, le32 info.freeClusters),
   (492, le32 info.nextFree), (508, le32 0xAA550000)]

/-- A sector of zeros with some fields put into it. -/
def sectorOf : Bytes :=
  fields.foldl (fun buf field => put buf field.1 field.2) (zeros sectorSize)

def sector : Bytes := sectorOf (bootFields layout)

def fsinfo (info : FsInfo) : Bytes := sectorOf (fsinfoFields info)

theorem length_sectorOf : (sectorOf fields).length = sectorSize := by
  have hf : ∀ buf : Bytes,
      (fields.foldl (fun buf field => put buf field.1 field.2) buf).length = buf.length := by
    induction fields with
    | nil => exact fun buf => rfl
    | cons field rest ih => exact fun buf => (ih _).trans (length_put ..)
  rw [sectorOf, hf, length_zeros]

/-! ## The writer -/

/-- What reached the sink, and the number of its bytes in a word. -/
structure CountWriter where
  inner : Bytes
  written : ℕ
  written_eq : written = inner.length % 2 ^ 64

namespace CountWriter

theorem eq_of_inner {w w' : CountWriter} (h : w.inner = w'.inner) : w = w' := by
  obtain ⟨inner, written, rfl⟩ := w
  obtain ⟨inner', written', rfl⟩ := w'
  subst h
  rfl

def start : CountWriter := ⟨[], 0, rfl⟩

/-- Write bytes and count them. -/
def writeAll (w : CountWriter) (buf : Bytes) : CountWriter where
  inner := w.inner ++ buf
  written := wrappingAdd w.written buf.length
  written_eq := by rw [w.written_eq, wrappingAdd, mod_add_mod, length_append]

variable (w : CountWriter)

theorem written_writeAll (buf : Bytes) :
    (w.writeAll buf).written = wrappingAdd w.written buf.length := rfl

theorem writeAll_writeAll (first second : Bytes) :
    (w.writeAll first).writeAll second = w.writeAll (first ++ second) :=
  eq_of_inner (append_assoc ..)

theorem writeAll_nil : w.writeAll [] = w := eq_of_inner (append_nil _)

/-- Zeros are written from a buffer of 8192 bytes. -/
def writeZeros (w : CountWriter) (count : ℕ) : CountWriter :=
  if 0 < count then writeZeros (w.writeAll (zeros (min count 8192))) (count - min count 8192)
  else w
termination_by count

theorem writeZeros_eq (count : ℕ) : w.writeZeros count = w.writeAll (zeros count) := by
  induction count using Nat.strong_induction_on generalizing w with
  | h count ih =>
    rw [writeZeros]
    split_ifs with hp
    · rw [ih _ (by omega), writeAll_writeAll, ← zeros_add,
        show min count 8192 + (count - min count 8192) = count by omega]
    · obtain rfl : count = 0 := by omega
      exact (writeAll_nil w).symm

end CountWriter

/-! ## Metadata -/

/-- All that is known of an image before its files are read. -/
structure Precomputed where
  layout : FatLayout
  tree : DirIndex
  clusterMap : ClusterMap
  fatBytes : Bytes
  dirData : List Bytes
  fsInfo : FsInfo
  imageSize : ℕ

section Names

variable (toUppercase : Char → List Char) (files : List FileMeta)

/-- The steps of `precompute` that may fail: the geometry, the names and the allocation. -/
def plan (imageSize : ℕ) : Result (FatLayout × List (List Alias) × ClusterMap) := do
  let layout ← compute imageSize
  let tree := DirIndex.collect files
  let aliases ← assignAliases toUppercase tree files
  let dirSizes := sizes toUppercase tree files aliases
  let clusterMap ← assignClusters files layout dirSizes
  .ok (layout, aliases, clusterMap)

/-- Nothing is returned when the table cannot be allocated. -/
def precompute (imageSize : ℕ) : Option (Result Precomputed) :=
  match plan toUppercase files imageSize with
  | .error e => some (.error e)
  | .ok (layout, aliases, clusterMap) =>
    let tree := DirIndex.collect files
    (makeFat clusterMap layout).map fun fatBytes =>
      .ok {
        layout, tree, clusterMap, fatBytes, imageSize
        dirData := (range tree.len).map (buildData toUppercase files tree clusterMap aliases)
        fsInfo := FsInfo.fromMap clusterMap layout }

end Names

/-- `write_boot_sector`: the boot sector, `FSInfo`, and the copy of the boot sector. -/
def writeBootSector (w : CountWriter) (layout : FatLayout) (info : FsInfo) : CountWriter :=
  let boot := sector layout
  let w := (w.writeAll boot).writeAll (fsinfo info)
  let beforeBackup := backupBootSector.toNat - 2
  let w := w.writeZeros (saturatingMul beforeBackup sectorSize)
  let w := w.writeAll boot
  let afterBackup := layout.reservedSectors - saturatingAdd backupBootSector.toNat 1
  w.writeZeros (saturatingMul afterBackup sectorSize)

/-- `write_dir_entries`: each directory fills its clusters. -/
def writeDirEntries (w : CountWriter) (precomputed : Precomputed) : CountWriter :=
  (range precomputed.tree.len).foldl (fun w dirIndex =>
    let data := precomputed.dirData.getD dirIndex []
    let w := w.writeAll data
    let clusters := (precomputed.clusterMap.dirCounts.getD dirIndex 1).toNat
    let pad := wrappingMul clusters precomputed.layout.clusterBytes - data.length
    if 0 < pad then w.writeZeros pad else w) w

/-- All before the data of the files. -/
def writeMetadata (precomputed : Precomputed) : CountWriter :=
  let w := writeBootSector .start precomputed.layout precomputed.fsInfo
  let w := (w.writeAll precomputed.fatBytes).writeAll precomputed.fatBytes
  writeDirEntries w precomputed

/-! ## Contents -/

/-- The loop of `stream_reader`, with `rem` bytes of `size` to come. -/
def streamLoop (size : ℕ) (w : CountWriter) (reader : Reader) (rem : ℕ) : Result CountWriter :=
  if 0 < rem then
    if (reader.read (min rem 8192)).1 = [] then
      .error (.fat ("reader EOF before declared size: " ++ toString size ++ " bytes expected, " ++
        toString rem ++ " remaining"))
    else
      streamLoop size (w.writeAll (reader.read (min rem 8192)).1) (reader.read (min rem 8192)).2
        (rem - (reader.read (min rem 8192)).1.length)
  else .ok w
termination_by rem
decreasing_by
  rename_i hread
  have := length_pos_iff.2 hread
  omega

/-- `stream_reader`: the bytes of a file, filled up to whole clusters. -/
def streamReader (w : CountWriter) (reader : Reader) (size clusterBytes : ℕ) :
    Result CountWriter := do
  let w ← streamLoop size w reader size
  let pad := clusterBytes - size % clusterBytes
  .ok (if pad ≠ clusterBytes then w.writeZeros pad else w)

/-- The loop of `build` over the readers, from an index on. -/
def streamReaders (sizes : List ℕ) (clusterBytes : ℕ) :
    ℕ → CountWriter → List Reader → Result CountWriter
  | _, w, [] => .ok w
  | index, w, reader :: rest => do
    let w ← streamReader w reader (sizes.getD index 0) clusterBytes
    streamReaders sizes clusterBytes (index + 1) w rest

/-- `pad_to_image`: zeros up to the next page, and then up to the size of the image. -/
def padToImage (w : CountWriter) (imageSize : ℕ) : CountWriter :=
  if imageSize ≤ w.written then w
  else
    let remaining := imageSize - w.written
    let aligned := nextMultipleOf w.written dataAlignBytes
    let pad := min (aligned - w.written) remaining
    let w := w.writeZeros pad
    let remaining := imageSize - w.written
    if 0 < remaining then w.writeZeros remaining else w

/-- The image, with the files from their streams. -/
def build (precomputed : Precomputed) (readers : List Reader) : Result Bytes := do
  let w ← streamReaders precomputed.clusterMap.fileSizes precomputed.layout.clusterBytes 0
    (writeMetadata precomputed) readers
  .ok (padToImage w precomputed.imageSize).inner

/-! ## What is written -/

/-- The reserved sectors. -/
def reservedBytes (info : FsInfo) : Bytes :=
  sector layout ++ fsinfo info ++
    zeros (saturatingMul (backupBootSector.toNat - 2) sectorSize) ++ sector layout ++
    zeros (saturatingMul (layout.reservedSectors - saturatingAdd backupBootSector.toNat 1)
      sectorSize)

/-- The clusters of a directory. -/
def dirBlock (precomputed : Precomputed) (dirIndex : ℕ) : Bytes :=
  let data := precomputed.dirData.getD dirIndex []
  data ++ zeros (wrappingMul (precomputed.clusterMap.dirCounts.getD dirIndex 1).toNat
    precomputed.layout.clusterBytes - data.length)

/-- The clusters of a file. -/
def fileBlock (clusterBytes : ℕ) (data : Bytes) : Bytes :=
  data ++ zeros (divCeil data.length clusterBytes * clusterBytes - data.length)

theorem length_reservedBytes {layout : FatLayout} (h : layout.reservedSectors = reservedSectors)
    (info : FsInfo) : (reservedBytes layout info).length = reservedSectors * sectorSize := by
  simp only [reservedBytes, length_append, sector, fsinfo, length_sectorOf, length_zeros, h]
  decide

variable (w : CountWriter) (files : List FileMeta) {readers : List Reader} {reader : Reader}

theorem writeBootSector_eq (layout : FatLayout) (info : FsInfo) :
    writeBootSector w layout info = w.writeAll (reservedBytes layout info) := by
  simp [writeBootSector, CountWriter.writeZeros_eq, CountWriter.writeAll_writeAll, reservedBytes]

theorem foldl_writeAll {α : Type} (bytes : α → Bytes) (xs : List α) (w : CountWriter) :
    xs.foldl (fun w x => w.writeAll (bytes x)) w = w.writeAll (xs.flatMap bytes) := by
  induction xs generalizing w with
  | nil => exact (CountWriter.writeAll_nil w).symm
  | cons x xs ih =>
    rw [foldl_cons, ih, CountWriter.writeAll_writeAll, flatMap_cons]

variable (precomputed : Precomputed)

theorem writeDirEntries_eq : writeDirEntries w precomputed =
      w.writeAll ((range precomputed.tree.len).flatMap (dirBlock precomputed)) := by
  rw [← foldl_writeAll, writeDirEntries]
  congr 1
  funext w dirIndex
  dsimp only
  split_ifs with hp
  · rw [CountWriter.writeZeros_eq, CountWriter.writeAll_writeAll, dirBlock]
  · rw [dirBlock, Nat.eq_zero_of_not_pos hp, zeros, replicate_zero, append_nil]

theorem writeMetadata_eq : writeMetadata precomputed = CountWriter.start.writeAll
      (reservedBytes precomputed.layout precomputed.fsInfo ++ precomputed.fatBytes ++
        precomputed.fatBytes ++
        (range precomputed.tree.len).flatMap (dirBlock precomputed)) := by
  simp [writeMetadata, writeBootSector_eq, writeDirEntries_eq, CountWriter.writeAll_writeAll]

variable {w}

/-- A reader with enough data delivers as much as is wanted, in whatever pieces. -/
theorem streamLoop_eq {size rem : ℕ} (h : rem ≤ reader.data.length) :
    streamLoop size w reader rem = .ok (w.writeAll (reader.data.take rem)) := by
  induction rem using Nat.strong_induction_on generalizing w reader with
  | h rem ih =>
    rw [streamLoop]
    by_cases hp : 0 < rem
    · have happend := reader.read_append (min rem 8192)
      have hle := reader.length_read_le (min rem 8192)
      have hlen := congrArg length happend
      rw [length_append] at hlen
      have hrd : (reader.read (min rem 8192)).1 ≠ [] := by
        rw [Ne, Reader.read_eq_nil_iff (by omega)]
        intro hn
        rw [hn, length_nil] at h
        omega
      have hr := length_pos_iff.2 hrd
      have ht : reader.data.take rem = (reader.read (min rem 8192)).1 ++
          (reader.read (min rem 8192)).2.data.take
            (rem - (reader.read (min rem 8192)).1.length) := by
        rw [← happend, take_append, take_of_length_le (hle.trans (min_le_left ..))]
      rw [if_pos hp, if_neg hrd, ih _ (by omega) (by omega), CountWriter.writeAll_writeAll, ht]
    · rw [if_neg hp, show rem = 0 by omega, take_zero, CountWriter.writeAll_nil]

theorem streamReader_eq {size clusterBytes : ℕ} (hc : 0 < clusterBytes)
    (h : size ≤ reader.data.length) : streamReader w reader size clusterBytes =
      .ok (w.writeAll (fileBlock clusterBytes (reader.data.take size))) := by
  have hlen : (reader.data.take size).length = size := length_take_of_le h
  rw [streamReader, streamLoop_eq h, ok_bind, fileBlock, hlen, divCeil_mul hc]
  dsimp only
  by_cases hz : size % clusterBytes = 0
  · rw [if_pos hz, if_neg (by omega), Nat.sub_self, zeros, replicate_zero, append_nil]
  · rw [if_neg hz, if_pos (by omega), CountWriter.writeZeros_eq, CountWriter.writeAll_writeAll,
      Nat.add_sub_cancel_left]

theorem padToImage_eq {imageSize : ℕ} (h : imageSize < 2 ^ 64) :
    padToImage w imageSize = w.writeAll (zeros (imageSize - w.written)) := by
  unfold padToImage
  split_ifs with hf
  · rw [Nat.sub_eq_zero_of_le hf]
    exact (CountWriter.writeAll_nil w).symm
  · -- the page does not matter: what it leaves is written after it
    dsimp only
    generalize hp : min (nextMultipleOf w.written dataAlignBytes - w.written)
      (imageSize - w.written) = pad
    have hw : (w.writeZeros pad).written = w.written + pad := by
      rw [CountWriter.writeZeros_eq, CountWriter.written_writeAll, length_zeros,
        wrappingAdd_of_lt (by omega)]
    rw [hw]
    split_ifs with hr
    · rw [CountWriter.writeZeros_eq, CountWriter.writeZeros_eq, CountWriter.writeAll_writeAll,
        ← zeros_add, show pad + (imageSize - (w.written + pad)) = imageSize - w.written by omega]
    · rw [CountWriter.writeZeros_eq, show pad = imageSize - w.written by omega]

/-- The contents that the readers have for the files. -/
def contents (readers : List Reader) : List Bytes :=
  files.zipWith (fun file reader => reader.data.take file.size) readers

/-- Every reader has the bytes of its file. -/
def Supplied (readers : List Reader) : Prop :=
  List.Forall₂ (fun file reader => file.size ≤ reader.data.length) files readers

theorem streamReaders_eq {files : List FileMeta} {sizes : List ℕ} {clusterBytes index : ℕ}
    (hc : 0 < clusterBytes) (hs : sizes.drop index = files.map FileMeta.size)
    (h : Supplied files readers) (w : CountWriter) :
    streamReaders sizes clusterBytes index w readers =
      .ok (w.writeAll ((contents files readers).flatMap (fileBlock clusterBytes))) := by
  induction h generalizing index w with
  | nil => exact congrArg Except.ok (CountWriter.writeAll_nil w).symm
  | @cons file reader files readers hf _ ih =>
    have hget : sizes.getD index 0 = file.size := by
      rw [getD_eq_getElem?_getD, ← head?_drop, hs]
      rfl
    have hrest : sizes.drop (index + 1) = files.map FileMeta.size := by
      rw [← tail_drop, hs]
      rfl
    rw [streamReaders, hget, streamReader_eq hc hf, ok_bind, ih hrest,
      CountWriter.writeAll_writeAll]
    rfl

/-- The clusters of the directories and then of the files. -/
def dataBlocks (files : List FileMeta) (readers : List Reader) : List Bytes :=
  (range precomputed.tree.len).map (dirBlock precomputed) ++
    (contents files readers).map (fileBlock precomputed.layout.clusterBytes)

/-- All that comes before the final zeros. -/
def usedBytes (files : List FileMeta) (readers : List Reader) : Bytes :=
  reservedBytes precomputed.layout precomputed.fsInfo ++ precomputed.fatBytes ++
    precomputed.fatBytes ++ (dataBlocks precomputed files readers).flatten

variable {precomputed}

/-- **The image**: the reserved sectors, the table twice, the directories, the files and zeros. -/
theorem build_eq {files : List FileMeta} (hc : 0 < precomputed.layout.clusterBytes)
    (hs : precomputed.clusterMap.fileSizes = files.map FileMeta.size)
    (h : Supplied files readers) (hu : (usedBytes precomputed files readers).length < 2 ^ 64)
    (hi : precomputed.imageSize < 2 ^ 64) :
    build precomputed readers = .ok (usedBytes precomputed files readers ++
      zeros (precomputed.imageSize - (usedBytes precomputed files readers).length)) := by
  have hb : usedBytes precomputed files readers =
      (reservedBytes precomputed.layout precomputed.fsInfo ++ precomputed.fatBytes ++
        precomputed.fatBytes ++ (range precomputed.tree.len).flatMap (dirBlock precomputed)) ++
      (contents files readers).flatMap (fileBlock precomputed.layout.clusterBytes) := by
    rw [usedBytes, dataBlocks, flatten_append, flatMap, flatMap, append_assoc _ (flatten _)]
  have hw : (CountWriter.start.writeAll (usedBytes precomputed files readers)).written =
      (usedBytes precomputed files readers).length := by
    rw [CountWriter.written_writeAll, show CountWriter.start.written = 0 from rfl,
      wrappingAdd_of_lt (by rw [zero_add]; exact hu), zero_add]
  rw [build, streamReaders_eq hc (by rw [drop_zero]; exact hs) h, ok_bind,
    writeMetadata_eq, CountWriter.writeAll_writeAll, ← hb, padToImage_eq hi, hw,
    CountWriter.writeAll_writeAll]
  exact congrArg Except.ok (nil_append _)

end Muak.Fatfs
