import Mathlib.Data.List.TakeWhile
import Muak.Btrfs.Records

/-!
# Formatting a device

`libs/btrfs/src/format/context.rs`: the reserved area is cleared, the ten trees are written to both
of their stripes, and the superblock is written to as many of its places as the device has.

* `MkfsContext.makeBtrfs`: all writes of a format.
* `exists_makeBtrfs`: from 89 MiB on a device is formatted.
* `format_inside_iff`: from 101 MiB on everything is within the device, and below that the second
  stripe of the metadata is not.
* `stripe_beyond_device`: such a device.
-/

namespace Muak.Btrfs

open U64 Bytes List Nat

/-- Bytes that are written at a place of the device. -/
structure Write where
  offset : ℕ
  bytes : Bytes

/-! ## The format -/

def magic : ℕ := 0x4D5F53665248425F

def magicTemporary : ℕ := 0x4D5F536652484221

def superInfoOffset : ℕ := 0x00010000

def superInfoSize : ℕ := 4096

def featureIncompatDefault : ℕ := 1 <<< 0 ||| 1 <<< 5 ||| 1 <<< 6 ||| 1 <<< 8 ||| 1 <<< 9

def featureCompatRoDefault : ℕ := 1 <<< 0 ||| 1 <<< 1 ||| 1 <<< 3

/-- What a new file system is made of. -/
structure MkfsContext where
  deviceSize : ℕ
  label : Bytes
  fsid : Uuid
  chunkUuid : Uuid
  devUuid : Uuid
  fsUuid : Uuid
  generation : ℕ
  layout : DiskLayout

/-- The size of a device in whole sectors. -/
def wholeSectors (deviceSize : ℕ) : ℕ := saturatingMul (deviceSize / sectorsize) sectorsize

namespace MkfsContext

/-- The size of the device is rounded down to whole sectors. -/
def new (deviceSize : ℕ) (label : Bytes) (fsid chunkUuid devUuid fsUuid : Uuid) : MkfsContext where
  deviceSize := wholeSectors deviceSize
  label
  fsid
  chunkUuid
  devUuid
  fsUuid
  generation := 1
  layout := .new (wholeSectors deviceSize)

variable (ctx : MkfsContext)

/-- `create_context`. -/
def treeContext : TreeContext :=
  ⟨ctx.layout, ctx.fsid, ctx.chunkUuid, ctx.devUuid, ctx.fsUuid, ctx.generation, ctx.deviceSize⟩

def nodeContext : NodeContext := ⟨ctx.fsid, ctx.chunkUuid, ctx.generation⟩

/-- The place of a superblock. -/
def sbOffset : ℕ → ℕ
  | 0 => superInfoOffset
  | 1 => 0x04000000
  | _ => 0x004000000000

/-- The key of the system chunk and its item. -/
def sysChunkArray (sysChunk : Bytes) : Bytes :=
  (Key.mk firstChunkTreeObjectid chunkItemKey ctx.layout.sysLogical).toBytes ++ sysChunk

/-- A superblock after its checksum. -/
def superPieces (magic bytenr : ℕ) (label sysChunkArray : Bytes) (arraySize : ℕ) : List Bytes :=
  [ctx.fsid.bytes, leBytes 8 bytenr, leBytes 8 1, leBytes 8 magic, leBytes 8 ctx.generation,
    leBytes 8 (ctx.layout.metaBlock .root), leBytes 8 ctx.layout.chunkTreeLogical, leBytes 8 0,
    leBytes 8 0, leBytes 8 ctx.deviceSize, leBytes 8 DiskLayout.totalBytesUsed,
    leBytes 8 rootTreeDirObjectid, leBytes 8 1, leBytes 4 sectorsize, leBytes 4 nodesize,
    leBytes 4 nodesize, leBytes 4 sectorsize, leBytes 4 arraySize, leBytes 8 ctx.generation,
    leBytes 8 0, leBytes 8 featureCompatRoDefault, leBytes 8 featureIncompatDefault, leBytes 2 0,
    [0], [0], [0], devItem ctx.treeContext, label, zeros 8, zeros 8, zeros 16, zeros 8, zeros 216,
    sysChunkArray, zeros 672, zeros 565]

section

variable (crc32c : Bytes → UInt32) (crc32cAppend : UInt32 → Bytes → UInt32) (ctx : MkfsContext)

/-- A leaf of the metadata goes to both stripes. -/
def writeMetaLeaf (tree : TreeResult) : Result (List Write) := do
  let node ← buildNode crc32c ctx.nodeContext tree
  let phys0 := ctx.layout.metaLogicalToPhys tree.logicalOffset
  let phys1 := saturatingAdd phys0 ctx.layout.metaStripeSize
  .ok [⟨phys0, node⟩, ⟨phys1, node⟩]

/-- The chunk tree goes to both stripes of the system chunk; the item of that chunk is kept for the
superblock. -/
def makeChunkTree : Result (List Write × Bytes) := do
  let tree ← chunkTree ctx.treeContext
  let node ← buildNode crc32c ctx.nodeContext tree
  let phys0 := ctx.layout.sysLogicalToPhys tree.logicalOffset
  let phys1 := saturatingAdd phys0 systemDupSize
  let sysChunk ← (ChunkBuilder.dup systemDupSize blockGroupSystem ctx.layout.sysPhys0
    ctx.layout.sysPhys1).build ctx.devUuid
  .ok ([⟨phys0, node⟩, ⟨phys1, node⟩], sysChunk)

/-- The trees of the metadata, in the order in which they are written. -/
def metadataTrees (now : ℕ) : List (Result TreeResult) :=
  let trees := ctx.treeContext
  [devTree trees, extentTree trees, blockGroupTree trees, freeSpaceTree trees, fsTree trees now,
    dataRelocTree trees now, uuidTree trees, csumTree trees, rootTree crc32cAppend trees now]

/-- The writes of all trees but the chunk tree. -/
def makeTrees (now : ℕ) : Result (List Write) := do
  let writes ← (ctx.metadataTrees crc32cAppend now).mapM fun tree =>
    tree >>= ctx.writeMetaLeaf crc32c
  .ok writes.flatten

/-- `write_superblock`: the checksum is over everything behind it. -/
def writeSuperblock (magic bytenr : ℕ) (label sysChunkArray : Bytes) (arraySize : ℕ) : Write :=
  let rest := (ctx.superPieces magic bytenr label sysChunkArray arraySize).flatten
  ⟨bytenr, le32 (crc32c rest) ++ zeros 28 ++ rest⟩

/-- The places that are within the device. -/
def mirrorOffsets : List ℕ :=
  ((range 3).map sbOffset).takeWhile fun bytenr =>
    saturatingAdd bytenr superInfoSize ≤ ctx.deviceSize

/-- The superblock is written with a temporary magic first, and then to all its places. -/
def makeSuperblock (sysChunk : Bytes) : Result (List Write) := do
  let label ← copyInto (zeros 256) 0 (ctx.label.take (min ctx.label.length 255))
  let array ← copyInto (zeros 2048) 0 (ctx.sysChunkArray sysChunk)
  let arraySize ← toU32 "system chunk array is too large" (17 + sysChunk.length)
  .ok (ctx.writeSuperblock crc32c magicTemporary superInfoOffset label array arraySize ::
    ctx.mirrorOffsets.map fun bytenr =>
      ctx.writeSuperblock crc32c magic bytenr label array arraySize)

end

end MkfsContext

/-- All that a format writes. -/
structure Written where
  reserved : Write
  trees : List Write
  superblocks : List Write

def Written.all (written : Written) : List Write :=
  written.reserved :: (written.trees ++ written.superblocks)

/-- All writes, if the device is large enough. -/
def MkfsContext.makeBtrfs (crc32c : Bytes → UInt32)
    (crc32cAppend : UInt32 → Bytes → UInt32) (ctx : MkfsContext) (now : ℕ) :
    Result Written := do
  let minSize := ctx.layout.minDeviceSize
  if ctx.deviceSize < minSize then .error (.deviceTooSmall minSize ctx.deviceSize)
  let (chunkWrites, sysChunk) ← ctx.makeChunkTree crc32c
  let treeWrites ← ctx.makeTrees crc32c crc32cAppend now
  let superWrites ← ctx.makeSuperblock crc32c sysChunk
  .ok ⟨⟨0, zeros reservedSize⟩, chunkWrites ++ treeWrites, superWrites⟩

/-! ## Where the nodes are written -/

/-- A node on the first stripe or the second one, behind the first place of the superblock. -/
structure IsNode (stripe : ℕ) (write : Write) : Prop where
  length : write.bytes.length = nodesize
  place : 21 * mib ≤ write.offset ∧ write.offset + nodesize ≤ 38 * mib ∨
    37 * mib + stripe ≤ write.offset ∧ write.offset + nodesize ≤ 38 * mib + stripe

/-- A leaf that is written as a node of the metadata. -/
structure IsMetaLeaf (layout : DiskLayout) (tree : TreeResult) : Prop where
  place : ∃ block, tree.logicalOffset = layout.metaBlock block
  items : tree.items.length ≤ 600
  data : tree.data.length ≤ nodesize

theorem Holds.isMetaLeaf {layout : DiskLayout} {tree : TreeResult} {block : Block} {owner : ℕ}
    {items : List (Key × Bytes)} (h : Holds tree (layout.metaBlock block) owner items)
    (hi : items.length ≤ 600) : IsMetaLeaf layout tree where
  place := ⟨block, h.logicalOffset⟩
  items := h.count.trans_le hi
  data := h.data

namespace MkfsContext

variable (crc32c : Bytes → UInt32) (crc32cAppend : UInt32 → Bytes → UInt32)
  {ctx : MkfsContext} (now : ℕ)

/-- The item of the system chunk. -/
def sysChunk (ctx : MkfsContext) : Bytes :=
  (ChunkBuilder.dup systemDupSize blockGroupSystem ctx.layout.sysPhys0 ctx.layout.sysPhys1).bytes
    ctx.devUuid

theorem length_sysChunk (ctx : MkfsContext) : ctx.sysChunk.length = 112 :=
  ChunkBuilder.length_bytes ..

theorem exists_of_mem_metadataTrees {built : Result TreeResult}
    (h : built ∈ ctx.metadataTrees crc32cAppend now) :
    ∃ tree, built = .ok tree ∧ IsMetaLeaf ctx.layout tree := by
  simp only [metadataTrees, mem_cons, not_mem_nil, or_false] at h
  rcases h with rfl | rfl | rfl | rfl | rfl | rfl | rfl | rfl | rfl
  · obtain ⟨tree, ht, hh⟩ := exists_devTree ctx.treeContext
    exact ⟨tree, ht, hh.isMetaLeaf (by simp [devTreeItems, devExtents])⟩
  · obtain ⟨tree, ht, hh⟩ := exists_extentTree ctx.treeContext
    exact ⟨tree, ht, hh.isMetaLeaf (by simp [extentTreeItems, DiskLayout.allTreeBlocks])⟩
  · obtain ⟨tree, ht, hh⟩ := exists_blockGroupTree ctx.treeContext
    exact ⟨tree, ht, hh.isMetaLeaf (by simp [blockGroupTreeItems])⟩
  · obtain ⟨tree, ht, hh⟩ := exists_freeSpaceTree ctx.treeContext
    exact ⟨tree, ht, hh.isMetaLeaf ((length_freeSpaceTreeItems_le _).trans (by decide))⟩
  · obtain ⟨tree, items, ht, hi, hh⟩ := exists_directoryTree ctx.treeContext now .fs fsTreeObjectid
    exact ⟨tree, ht, hh.isMetaLeaf (by omega)⟩
  · obtain ⟨tree, items, ht, hi, hh⟩ :=
      exists_directoryTree ctx.treeContext now .dataReloc dataRelocTreeObjectid
    exact ⟨tree, ht, hh.isMetaLeaf (by omega)⟩
  · obtain ⟨tree, items, ht, hi, hh⟩ := exists_uuidTree ctx.treeContext
    exact ⟨tree, ht, hh.isMetaLeaf (by omega)⟩
  · exact ⟨_, rfl, ⟨⟨.csum, rfl⟩, zero_le _, zero_le _⟩⟩
  · obtain ⟨tree, ht, hh⟩ := exists_rootTree ctx.treeContext now crc32cAppend
    exact ⟨tree, ht, hh.isMetaLeaf
      (by simp [rootTreeItems, systemRoots, fsRootItems, rootDirItems])⟩

variable (hsize : ctx.deviceSize < 2 ^ 64) (hlayout : ctx.layout = .new ctx.deviceSize)
include hsize hlayout

/-- A leaf of the metadata is written to both stripes. -/
theorem exists_writeMetaLeaf {tree : TreeResult} (ht : IsMetaLeaf ctx.layout tree) :
    ∃ writes, ctx.writeMetaLeaf crc32c tree = .ok writes ∧
      ∀ write ∈ writes, IsNode ctx.layout.metaStripeSize write := by
  obtain ⟨node, hn, hlen⟩ := exists_buildNode crc32c ctx.nodeContext ht.items ht.data
  obtain ⟨block, hb⟩ := ht.place
  have hs := stripe_bounds hsize
  have hi : block.index ≤ 8 := by cases block <;> decide
  have hp : ctx.layout.metaLogicalToPhys tree.logicalOffset =
      37 * mib + block.index * nodesize := by
    rw [hb, hlayout, DiskLayout.metaBlock_new hsize, DiskLayout.metaLogicalToPhys,
      DiskLayout.new_eq hsize]
    rw [Nat.add_sub_cancel_left, saturatingAdd_of_lt]
    simp only [mib, nodesize]
    omega
  have hp' : saturatingAdd (37 * mib + block.index * nodesize) ctx.layout.metaStripeSize =
      37 * mib + block.index * nodesize + ctx.layout.metaStripeSize := by
    rw [hlayout, DiskLayout.metaStripeSize_new]
    refine saturatingAdd_of_lt ?_
    simp only [mib, nodesize] at hs ⊢
    omega
  refine ⟨_, by rw [writeMetaLeaf, hn]; rfl, ?_⟩
  rw [hp, hp']
  simp only [forall_mem_cons]
  refine ⟨⟨hlen, .inl ?_⟩, ⟨hlen, .inr ?_⟩, forall_mem_nil _⟩
  · simp only [mib, nodesize]
    omega
  · simp only [mib, nodesize]
    omega

theorem exists_makeTrees : ∃ writes, ctx.makeTrees crc32c crc32cAppend now = .ok writes ∧
      ∀ write ∈ writes, IsNode ctx.layout.metaStripeSize write := by
  have ha : ∀ built ∈ ctx.metadataTrees crc32cAppend now, ∃ writes,
      (built >>= ctx.writeMetaLeaf crc32c) = .ok writes ∧
        ∀ write ∈ writes, IsNode ctx.layout.metaStripeSize write := by
    intro built hb
    obtain ⟨tree, rfl, ht⟩ := exists_of_mem_metadataTrees crc32cAppend now hb
    exact exists_writeMetaLeaf crc32c hsize hlayout ht
  obtain ⟨writes, hw, hn⟩ := exists_mapM_eq_ok ha
  refine ⟨writes.flatten, by rw [makeTrees, hw]; rfl, fun write hwr => ?_⟩
  obtain ⟨leaf, hl, hm⟩ := mem_flatten.1 hwr
  exact hn leaf hl write hm

/-- The chunk tree is written to both stripes of its chunk. -/
theorem exists_makeChunkTree : ∃ writes, ctx.makeChunkTree crc32c = .ok (writes, ctx.sysChunk) ∧
      ∀ write ∈ writes, IsNode ctx.layout.metaStripeSize write := by
  obtain ⟨tree, ht, hh⟩ := exists_chunkTree ctx.treeContext
  obtain ⟨node, hn, hlen⟩ := exists_buildNode crc32c ctx.nodeContext
    (hh.count.trans_le (by simp [chunkTreeItems])) hh.data
  have hph : ctx.layout.sysLogicalToPhys tree.logicalOffset = 21 * mib + nodesize := by
    rw [hh.logicalOffset]
    change ctx.layout.sysLogicalToPhys ctx.layout.chunkTreeLogical = _
    rw [hlayout, DiskLayout.new_eq hsize, DiskLayout.sysLogicalToPhys]
    dsimp only
    rw [Nat.add_sub_cancel_left, saturatingAdd_of_lt (by decide)]
  have hph' : saturatingAdd (21 * mib + nodesize) systemDupSize =
      21 * mib + nodesize + systemDupSize :=
    saturatingAdd_of_lt (by decide)
  have hp : 21 * mib ≤ 21 * mib + nodesize ∧ 21 * mib + nodesize + nodesize ≤ 38 * mib := by
    decide
  have hp' : 21 * mib ≤ 21 * mib + nodesize + systemDupSize ∧
      21 * mib + nodesize + systemDupSize + nodesize ≤ 38 * mib := by
    decide
  refine ⟨_, by rw [makeChunkTree, ht, ok_bind, hn]; rfl, ?_⟩
  rw [hph]
  simp only [forall_mem_cons]
  exact ⟨⟨hlen, .inl hp⟩, ⟨hlen, .inl hp'⟩, forall_mem_nil _⟩

end MkfsContext

/-! ## Where the superblocks are written -/

/-- A superblock at one of its places, within the device. -/
structure IsSuperblock (deviceSize : ℕ) (write : Write) : Prop where
  length : write.bytes.length = superInfoSize
  place : write.offset ∈ (range 3).map MkfsContext.sbOffset
  within : write.offset + superInfoSize ≤ deviceSize

namespace MkfsContext

variable (crc32c : Bytes → UInt32) {ctx : MkfsContext}

theorem length_writeSuperblock (magic bytenr arraySize : ℕ) {label array : Bytes}
    (hl : label.length = 256) (ha : array.length = 2048) :
    (ctx.writeSuperblock crc32c magic bytenr label array arraySize).bytes.length =
      superInfoSize := by
  simp [writeSuperblock, superPieces, hl, ha, ctx.fsid.length_bytes, superInfoSize]

theorem mem_mirrorOffsets {bytenr : ℕ} (h : bytenr ∈ ctx.mirrorOffsets) :
    bytenr ∈ (range 3).map sbOffset ∧ bytenr + superInfoSize ≤ ctx.deviceSize := by
  have hf := mem_takeWhile_imp h
  refine ⟨(takeWhile_sublist _).mem h, ?_⟩
  rw [decide_eq_true_eq, saturatingAdd, maxValue] at hf
  rw [superInfoSize] at hf ⊢
  obtain ⟨mirror, -, rfl⟩ := mem_map.1 ((takeWhile_sublist _).mem h)
  have ho : sbOffset mirror ≤ 0x004000000000 := by
    unfold sbOffset
    split <;> decide
  omega

/-- The superblock of this file system. -/
def superblock (ctx : MkfsContext) (magic bytenr : ℕ) : Write :=
  ctx.writeSuperblock crc32c magic bytenr
    (put (zeros 256) 0 (ctx.label.take (min ctx.label.length 255)))
    (put (zeros 2048) 0 (ctx.sysChunkArray ctx.sysChunk)) 129

theorem length_superblock (magic bytenr : ℕ) :
    (ctx.superblock crc32c magic bytenr).bytes.length = superInfoSize :=
  length_writeSuperblock crc32c magic bytenr 129 ((length_put ..).trans (length_zeros 256))
    ((length_put ..).trans (length_zeros 2048))

theorem length_sysChunkArray (ctx : MkfsContext) :
    (ctx.sysChunkArray ctx.sysChunk).length = 129 := by
  rw [sysChunkArray, length_append, Key.length_toBytes, length_sysChunk]

theorem makeSuperblock_eq : ctx.makeSuperblock crc32c ctx.sysChunk =
    .ok (ctx.superblock crc32c magicTemporary superInfoOffset ::
      ctx.mirrorOffsets.map (ctx.superblock crc32c magic)) := by
  have hl : 0 + (ctx.label.take (min ctx.label.length 255)).length ≤ (zeros 256).length := by
    rw [length_take, length_zeros]
    omega
  have ha : 0 + (ctx.sysChunkArray ctx.sysChunk).length ≤ (zeros 2048).length := by
    rw [length_sysChunkArray, length_zeros]
    decide
  rw [makeSuperblock, copyInto_of_le hl, copyInto_of_le ha, length_sysChunk]
  rfl

theorem isSuperblock_superblock (hm : mib ≤ ctx.deviceSize) :
    ∀ write ∈ ctx.superblock crc32c magicTemporary superInfoOffset ::
      ctx.mirrorOffsets.map (ctx.superblock crc32c magic), IsSuperblock ctx.deviceSize write := by
  rw [forall_mem_cons]
  refine ⟨⟨length_superblock .., mem_map.2 ⟨0, by decide, rfl⟩, ?_⟩, fun write hwr => ?_⟩
  · exact le_trans (by decide : superInfoOffset + superInfoSize ≤ mib) hm
  · obtain ⟨bytenr, hb, rfl⟩ := mem_map.1 hwr
    obtain ⟨hp, hw⟩ := mem_mirrorOffsets hb
    exact ⟨length_superblock .., hp, hw⟩

end MkfsContext

/-! ## All that is written -/

/-- What is known of the writes of a format. -/
structure Written.Spec (crc32c : Bytes → UInt32) (ctx : MkfsContext) (written : Written) :
    Prop where
  reserved : written.reserved.offset = 0 ∧ written.reserved.bytes.length = reservedSize
  trees : ∀ write ∈ written.trees, IsNode ctx.layout.metaStripeSize write
  superblocks : ∀ write ∈ written.superblocks, IsSuperblock ctx.deviceSize write
  superblocks_eq : ∀ write ∈ written.superblocks, ∃ magic bytenr,
    write = ctx.superblock crc32c magic bytenr

namespace MkfsContext

variable (crc32c : Bytes → UInt32) (crc32cAppend : UInt32 → Bytes → UInt32)
  {ctx : MkfsContext} (now : ℕ)

variable (hsize : ctx.deviceSize < 2 ^ 64) (hlayout : ctx.layout = .new ctx.deviceSize)
include hsize hlayout

/-- A device that is not too small is formatted. -/
theorem exists_makeBtrfs (h : ctx.layout.minDeviceSize ≤ ctx.deviceSize) :
    ∃ written, ctx.makeBtrfs crc32c crc32cAppend now = .ok written ∧ written.Spec crc32c ctx := by
  have hm : mib ≤ ctx.deviceSize := by
    refine le_trans ?_ ((DiskLayout.minDeviceSize_le_iff hsize).1 (hlayout ▸ h))
    decide
  obtain ⟨chunkWrites, hc, hn⟩ := exists_makeChunkTree crc32c hsize hlayout
  obtain ⟨treeWrites, ht, hn'⟩ := exists_makeTrees crc32c crc32cAppend now hsize hlayout
  refine ⟨⟨⟨0, zeros reservedSize⟩, chunkWrites ++ treeWrites, _⟩, ?_,
    ⟨rfl, length_zeros reservedSize⟩, ?_, isSuperblock_superblock crc32c hm, ?_⟩
  · rw [makeBtrfs, if_neg (not_lt.2 h), hc]
    dsimp only [bind, Except.bind]
    rw [ht, makeSuperblock_eq]
  · intro write hw
    exact (mem_append.1 hw).elim (hn write) (hn' write)
  · rw [forall_mem_cons]
    refine ⟨⟨_, _, rfl⟩, fun write hw => ?_⟩
    obtain ⟨bytenr, -, rfl⟩ := mem_map.1 hw
    exact ⟨_, _, rfl⟩

theorem spec_of_makeBtrfs {written : Written}
    (h : ctx.makeBtrfs crc32c crc32cAppend now = .ok written) :
    89 * mib ≤ ctx.deviceSize ∧ written.Spec crc32c ctx := by
  have hm : ctx.layout.minDeviceSize ≤ ctx.deviceSize := by
    by_contra hlt
    rw [makeBtrfs, if_pos (Nat.lt_of_not_le hlt)] at h
    cases h
  exact ⟨(DiskLayout.minDeviceSize_le_iff hsize).1 (hlayout ▸ hm),
    of_exists_eq_ok (exists_makeBtrfs crc32c crc32cAppend now hsize hlayout hm) h⟩

end MkfsContext

/-! ## Inside the device -/

/-- All that is written and all device extents are within the device, the extents are apart from one
another and behind the reserved area, and no node is written over a superblock. -/
structure Inside (deviceSize : ℕ) (written : Written) (extents : List DevExtent) : Prop where
  writes : ∀ write ∈ written.all, write.offset + write.bytes.length ≤ deviceSize
  within : ∀ extent ∈ extents, extent.start + extent.length ≤ deviceSize
  reserved : ∀ extent ∈ extents, reservedSize ≤ extent.start
  disjoint : extents.Pairwise fun extent other =>
    extent.start + extent.length ≤ other.start ∨ other.start + other.length ≤ extent.start
  superblocks : ∀ node ∈ written.trees, ∀ superblock ∈ written.superblocks,
    node.offset + node.bytes.length ≤ superblock.offset ∨
      superblock.offset + superblock.bytes.length ≤ node.offset

/-- Everything that is written is within a device that is accepted. -/
theorem Written.Spec.writes {crc32c : Bytes → UInt32} {ctx : MkfsContext}
    {written : Written} (h : written.Spec crc32c ctx)
    (hf : 25 * mib + 2 * ctx.layout.metaStripeSize ≤ ctx.deviceSize)
    (hs : 32 * mib ≤ ctx.layout.metaStripeSize) :
    ∀ write ∈ written.all, write.offset + write.bytes.length ≤ ctx.deviceSize := by
  simp only [mib] at hf hs
  intro write hwr
  rcases mem_cons.1 hwr with rfl | hwr
  · rw [h.reserved.1, h.reserved.2, reservedSize]
    omega
  rcases mem_append.1 hwr with ht | hsp
  · obtain ⟨hlen, hp⟩ := h.trees write ht
    simp only [mib] at hp
    omega
  · obtain ⟨hlen, -, hw⟩ := h.superblocks write hsp
    omega

/-- The second place of the superblock is between the two stripes, and the third one behind them. -/
theorem Written.Spec.superblocks_apart {crc32c : Bytes → UInt32} {ctx : MkfsContext}
    {written : Written} (h : written.Spec crc32c ctx) (hs : 32 * mib ≤ ctx.layout.metaStripeSize)
    (hs' : ctx.layout.metaStripeSize ≤ 1024 * mib) :
    ∀ node ∈ written.trees, ∀ superblock ∈ written.superblocks,
      node.offset + node.bytes.length ≤ superblock.offset ∨
        superblock.offset + superblock.bytes.length ≤ node.offset := by
  intro node hn superblock hsp
  obtain ⟨hlen, hp⟩ := h.trees node hn
  obtain ⟨hlen', hof, -⟩ := h.superblocks superblock hsp
  have ho : superblock.offset = 0x00010000 ∨ superblock.offset = 0x04000000 ∨
      superblock.offset = 0x004000000000 := by
    obtain ⟨mirror, -, hm⟩ := mem_map.1 hof
    rw [← hm]
    unfold MkfsContext.sbOffset
    split
    · exact .inl rfl
    · exact .inr (.inl rfl)
    · exact .inr (.inr rfl)
  rw [hlen', superInfoSize]
  simp only [mib] at hp hs hs' ⊢
  omega

/-! ### The device extents -/

theorem mem_recordedExtents {stripe : ℕ} {extent : DevExtent} (hs : 32 * mib ≤ stripe)
    (h : extent ∈ recordedExtents stripe) :
    reservedSize ≤ extent.start ∧ extent.start + extent.length ≤ 37 * mib + 2 * stripe := by
  simp only [recordedExtents, mem_cons, not_mem_nil, or_false] at h
  simp only [mib, reservedSize] at h hs ⊢
  rcases h with rfl | rfl | rfl | rfl | rfl <;> dsimp only <;> omega

theorem recordedExtents_disjoint (stripe : ℕ) :
    (recordedExtents stripe).Pairwise fun extent other =>
      extent.start + extent.length ≤ other.start ∨ other.start + other.length ≤ extent.start := by
  have hs : (recordedExtents stripe).Pairwise fun extent other =>
      extent.start + extent.length ≤ other.start := by
    simp only [recordedExtents, pairwise_cons, forall_mem_cons]
    simp only [not_mem_nil, false_implies, implies_true, List.Pairwise.nil, and_true]
    and_intros <;> omega
  exact hs.imp .inl

section

variable (deviceSize : UInt64) (label : Bytes) (fsid chunkUuid devUuid fsUuid : Uuid)

theorem wholeSectors_toNat :
    wholeSectors deviceSize.toNat = deviceSize.toNat / sectorsize * sectorsize := by
  have hlt := deviceSize.toNat_lt
  refine saturatingMul_of_lt ?_
  rw [sectorsize]
  omega

theorem wholeSectors_lt : wholeSectors deviceSize.toNat < 2 ^ 64 := by
  have hlt := deviceSize.toNat_lt
  rw [wholeSectors_toNat, sectorsize]
  omega

theorem wholeSectors_le : wholeSectors deviceSize.toNat ≤ deviceSize.toNat := by
  rw [wholeSectors_toNat]
  exact div_mul_le_self ..

/-- A number of MiB is a number of sectors. -/
theorem mib_le_wholeSectors_iff (n : ℕ) :
    n * mib ≤ wholeSectors deviceSize.toNat ↔ n * mib ≤ deviceSize.toNat := by
  rw [wholeSectors_toNat, sectorsize, mib]
  omega

/-- **A format stays inside the device** exactly on devices that have room for 101 MiB, and those
that are refused. From 89 MiB on a device is accepted, but the 12 MiB before the first chunk are not
counted for that, and so the last stripe ends behind the device. -/
theorem format_inside_iff (crc32c : Bytes → UInt32)
    (crc32cAppend : UInt32 → Bytes → UInt32) (now : ℕ) :
    (∀ written tree,
      (MkfsContext.new deviceSize.toNat label fsid chunkUuid devUuid fsUuid).makeBtrfs crc32c
        crc32cAppend now = .ok written →
      devTree (MkfsContext.new deviceSize.toNat label fsid chunkUuid devUuid fsUuid).treeContext =
        .ok tree →
      Inside deviceSize.toNat written (view readDevExtent tree)) ↔
    deviceSize.toNat < 89 * mib ∨ 101 * mib ≤ deviceSize.toNat := by
  generalize hc : MkfsContext.new deviceSize.toNat label fsid chunkUuid devUuid fsUuid = ctx
  have hd : ctx.deviceSize = wholeSectors deviceSize.toNat := hc ▸ rfl
  have hlayout : ctx.layout = .new ctx.deviceSize := hc ▸ rfl
  have hsize : ctx.deviceSize < 2 ^ 64 := hd ▸ wholeSectors_lt deviceSize
  have hle : ctx.deviceSize ≤ deviceSize.toNat := hd ▸ wholeSectors_le deviceSize
  have hm : ctx.layout.metaStripeSize = computeDupMetaStripeSize ctx.deviceSize := by
    rw [hlayout, DiskLayout.metaStripeSize_new]
  obtain ⟨hmn, hmx, -⟩ := stripe_bounds hsize
  constructor
  · -- between the two sizes the device is accepted and the last extent is not within it
    intro hi
    by_contra hb
    obtain ⟨ha, hs⟩ := not_or.1 hb
    have hf : ctx.layout.minDeviceSize ≤ ctx.deviceSize := by
      rw [hlayout, DiskLayout.minDeviceSize_le_iff hsize, hd, mib_le_wholeSectors_iff]
      exact Nat.le_of_not_lt ha
    obtain ⟨written, hw, -⟩ := MkfsContext.exists_makeBtrfs crc32c crc32cAppend now hsize hlayout hf
    obtain ⟨tree, ht, -⟩ := exists_devTree ctx.treeContext
    have hl := (hi written tree hw ht).within
      ⟨1, 37 * mib + computeDupMetaStripeSize ctx.deviceSize, 29 * mib,
        computeDupMetaStripeSize ctx.deviceSize⟩
      ((devExtents_perm hsize hlayout ht).mem_iff.2 (by simp [recordedExtents]))
    simp only [mib] at hmn hl hs
    omega
  · intro hr written tree hw ht
    obtain ⟨ha, hsp⟩ := MkfsContext.spec_of_makeBtrfs crc32c crc32cAppend now hsize hlayout hw
    have hft := (DiskLayout.stripes_fit_iff hsize).2 (by
      rw [hd, mib_le_wholeSectors_iff] at ha ⊢
      omega)
    have hp := devExtents_perm hsize hlayout ht
    refine ⟨fun write hwr => ?_, fun extent he => ?_, fun extent he => ?_, ?_, ?_⟩
    · refine (hsp.writes ?_ (hm ▸ hmn) write hwr).trans hle
      omega
    · exact (mem_recordedExtents hmn (hp.mem_iff.1 he)).2.trans (hft.trans hle)
    · exact (mem_recordedExtents hmn (hp.mem_iff.1 he)).1
    · exact (recordedExtents_disjoint _).perm hp.symm Or.symm
    · exact hsp.superblocks_apart (hm ▸ hmn) (hm ▸ hmx)

end

/-- The context for a device of 89 MiB without a label, and with empty identifiers. -/
def smallContext : MkfsContext :=
  let nil : Uuid := ⟨zeros 16, length_zeros 16⟩
  .new 93323264 [] nil nil nil nil

/-- Such a device is formatted, and the second stripe of the metadata is recorded up to 101 MiB. -/
theorem stripe_beyond_device : ∃ written tree,
    smallContext.makeBtrfs (fun _ => 0) (fun _ _ => 0) 0 = .ok written ∧
      devTree smallContext.treeContext = .ok tree ∧
      DevExtent.mk 1 72351744 30408704 33554432 ∈ view readDevExtent tree ∧
      93323264 < 72351744 + 33554432 := by
  have hsize : smallContext.deviceSize < 2 ^ 64 := by decide
  obtain ⟨written, hw, -⟩ := @MkfsContext.exists_makeBtrfs (fun _ => 0) (fun _ _ => 0)
    smallContext 0 hsize rfl (by decide)
  obtain ⟨tree, ht, -⟩ := exists_devTree smallContext.treeContext
  have hs : computeDupMetaStripeSize smallContext.deviceSize = 33554432 := by decide
  have hm := (devExtents_perm hsize rfl ht).mem_iff.2
    (show DevExtent.mk 1 72351744 30408704 33554432 ∈ _ by rw [hs]; decide)
  exact ⟨written, tree, hw, ht, hm, by decide⟩

end Muak.Btrfs
