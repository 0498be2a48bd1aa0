import Muak.Btrfs.Leaf

/-!
# The trees of a new file system

`libs/btrfs/src/format/trees`, `builders.rs` and `chunk.rs`: each tree of a new file system is one
leaf, built from the layout.

* The records of the items, byte for byte: `ChunkBuilder.build`, `devItem` and so on.
* The ten trees: `chunkTree`, `devTree`, `extentTree`, `blockGroupTree`, `freeSpaceTree`, `fsTree`,
  `dataRelocTree`, `uuidTree`, `csumTree`, `rootTree`.
* `Holds`: a leaf with certain items; each tree has a lemma that says which these are.
-/

namespace Muak.Btrfs

open U64 Bytes List

/-! ## Keys -/

def devItemsObjectid : ℕ := 1

def firstFreeObjectid : ℕ := 256

def rootTreeDirObjectid : ℕ := 6

def devStatsObjectid : ℕ := 0

def inodeItemKey : UInt8 := 1

def inodeRefKey : UInt8 := 12

def dirItemKey : UInt8 := 84

def rootItemKey : UInt8 := 132

def metadataItemKey : UInt8 := 169

def treeBlockRefKey : UInt8 := 176

def blockGroupItemKey : UInt8 := 192

def freeSpaceInfoKey : UInt8 := 198

def freeSpaceExtentKey : UInt8 := 199

def devExtentKey : UInt8 := 204

def devItemKey : UInt8 := 216

def chunkItemKey : UInt8 := 228

def persistentItemKey : UInt8 := 249

def uuidKeySubvol : UInt8 := 251

/-! ## Flags -/

def blockGroupData : ℕ := 1

def blockGroupSystem : ℕ := 2

def blockGroupMetadata : ℕ := 4

def blockGroupDup : ℕ := 32

def extentFlagTreeBlock : ℕ := 2

def inodeRootItemInit : ℕ := 1 <<< 31

/-- A directory that its owner may write. -/
def dirMode : ℕ := 0x41ED

/-! ## Records -/

/-- What the trees are built from. -/
structure TreeContext where
  layout : DiskLayout
  fsid : Uuid
  chunkUuid : Uuid
  devUuid : Uuid
  fsUuid : Uuid
  generation : ℕ
  deviceSize : ℕ

/-- `build_dev_item`. -/
def devItem (ctx : TreeContext) : Bytes :=
  [leBytes 8 1, leBytes 8 ctx.deviceSize, leBytes 8 ctx.layout.devBytesUsed,
    leBytes 4 sectorsize, leBytes 4 sectorsize, leBytes 4 sectorsize,
    zeros 8, zeros 8, zeros 8, zeros 4, [0], [0], ctx.devUuid.bytes, ctx.fsid.bytes].flatten

/-- A chunk, without the identifiers that all have. -/
structure ChunkBuilder where
  length : ℕ
  chunkType : ℕ
  /-- The device and the place of each stripe. -/
  stripes : List (ℕ × ℕ)

namespace ChunkBuilder

def single (length chunkType physicalOffset : ℕ) : ChunkBuilder :=
  ⟨length, chunkType, [(1, physicalOffset)]⟩

def dup (length chunkType physOffset0 physOffset1 : ℕ) : ChunkBuilder :=
  ⟨length, chunkType ||| blockGroupDup, [(1, physOffset0), (1, physOffset1)]⟩

variable (chunk : ChunkBuilder) (devUuid : Uuid)

/-- The fixed part of a chunk item. -/
def fixed : List Bytes :=
  [leBytes 8 chunk.length, leBytes 8 extentTreeObjectid, leBytes 8 stripeLen,
    leBytes 8 chunk.chunkType, leBytes 4 sectorsize, leBytes 4 sectorsize, leBytes 4 sectorsize,
    leBytes 2 chunk.stripes.length, leBytes 2 0]

def stripe (config : ℕ × ℕ) : Bytes :=
  [leBytes 8 config.1, leBytes 8 config.2, devUuid.bytes].flatten

/-- A chunk item: the fixed part and the stripes. -/
def bytes : Bytes :=
  chunk.fixed.flatten ++ (chunk.stripes.map (stripe devUuid)).flatten

/-- The item of the chunk. -/
def build : Result Bytes :=
  if chunk.stripes.length < 2 ^ 16 then .ok (chunk.bytes devUuid)
  else .error (.mkfs "too many chunk stripes")

end ChunkBuilder

/-- `build_dev_extent`. -/
def devExtent (chunkOffset length : ℕ) (chunkTreeUuid : Uuid) : Bytes :=
  [leBytes 8 chunkTreeObjectid, leBytes 8 firstChunkTreeObjectid, leBytes 8 chunkOffset,
    leBytes 8 length, chunkTreeUuid.bytes].flatten

/-- The item of a tree block: an extent with an inline reference to the tree. -/
def extentItem (owner generation : ℕ) : Bytes :=
  [leBytes 8 1, leBytes 8 generation, leBytes 8 extentFlagTreeBlock, [treeBlockRefKey],
    leBytes 8 owner].flatten

def blockGroupItem (used flags : ℕ) : Bytes :=
  [leBytes 8 used, leBytes 8 firstChunkTreeObjectid, leBytes 8 flags].flatten

def freeSpaceInfo (extentCount : ℕ) : Bytes := [leBytes 4 extentCount, leBytes 4 0].flatten

def timespec (sec : ℕ) : Bytes := [leBytes 8 sec, leBytes 4 0].flatten

/-- The item of a directory without entries of its own. -/
def inodeItem (generation size flags time : ℕ) : Bytes :=
  [leBytes 8 generation, leBytes 8 0, leBytes 8 size, leBytes 8 nodesize, leBytes 8 0, leBytes 4 1,
    leBytes 4 0, leBytes 4 0, leBytes 4 dirMode, leBytes 8 0, leBytes 8 flags, leBytes 8 0,
      zeros 32,
    timespec time, timespec time, timespec time, timespec time].flatten

/-- `RootItemBuilder`, with its defaults. -/
structure RootItemBuilder where
  generation : ℕ := 1
  bytenr : ℕ := 0
  rootDirid : ℕ := 0
  flags : ℕ := 0
  uuid : Option Uuid := none
  ctime : Option ℕ := none
  otime : Option ℕ := none

variable (root : RootItemBuilder)

/-- The fields of a root item. -/
def RootItemBuilder.pieces : List Bytes :=
  [inodeItem 1 3 root.flags 0, leBytes 8 root.generation, leBytes 8 root.rootDirid,
    leBytes 8 root.bytenr, leBytes 8 0, leBytes 8 nodesize, leBytes 8 0, leBytes 8 0, leBytes 4 1,
    zeros 17, [0], [0], leBytes 8 root.generation,
    (root.uuid.map Uuid.bytes).getD (zeros 16), zeros 16, zeros 16, zeros 8, zeros 8, zeros 8,
    zeros 8, timespec (root.ctime.getD 0), timespec (root.otime.getD 0), timespec 0, timespec 0,
    zeros 64]

def RootItemBuilder.build : Bytes := root.pieces.flatten

/-- A name whose length has to fit 16 bits. -/
def checkName (message : String) (name : Bytes) : Result ℕ :=
  if name.length < 2 ^ 16 then .ok name.length else .error (.mkfs message)

/-- The reference from a directory to its parent. -/
def buildInodeRef (name : Bytes) : Result Bytes := do
  let nameLen ← checkName "inode reference name is too long" name
  .ok ([leBytes 8 0, leBytes 2 nameLen].flatten ++ name)

def buildDirItem (objectid : ℕ) (typeKey : UInt8) (name : Bytes) (generation : ℕ) :
    Result Bytes := do
  let nameLen ← checkName "directory item name is too long" name
  .ok ([(Key.mk objectid typeKey maxValue).toBytes, leBytes 8 generation, leBytes 2 0,
    leBytes 2 nameLen, [2]].flatten ++ name)

/-! ## Trees -/

/-- The leaf with these items. -/
def leafOf (logicalOffset owner : ℕ) (items : List (Key × Bytes)) : Result TreeResult := do
  let (packed, data) ← LeafBuilder.build items
  .ok ⟨logicalOffset, owner, packed, data⟩

section

variable (ctx : TreeContext) (crc32cAppend : UInt32 → Bytes → UInt32) (layout : DiskLayout)

/-- The device and the three chunks. -/
def chunkTree : Result TreeResult := do
  let layout := ctx.layout
  let dataChunk ← (ChunkBuilder.single dataGroupSize blockGroupData layout.dataPhys).build
    ctx.devUuid
  let sysChunk ← (ChunkBuilder.dup systemDupSize blockGroupSystem layout.sysPhys0
    layout.sysPhys1).build ctx.devUuid
  let metaChunk ← (ChunkBuilder.dup layout.metaStripeSize blockGroupMetadata layout.metaPhys0
    layout.metaPhys1).build ctx.devUuid
  leafOf layout.chunkTreeLogical chunkTreeObjectid
    [(⟨devItemsObjectid, devItemKey, 1⟩, devItem ctx),
     (⟨firstChunkTreeObjectid, chunkItemKey, layout.dataLogical⟩, dataChunk),
     (⟨firstChunkTreeObjectid, chunkItemKey, layout.sysLogical⟩, sysChunk),
     (⟨firstChunkTreeObjectid, chunkItemKey, layout.metaLogical⟩, metaChunk)]

/-- The physical place, the logical one and the length of each device extent. -/
def devExtents : List (ℕ × ℕ × ℕ) :=
  [(layout.dataPhys, layout.dataLogical, dataGroupSize),
   (layout.sysPhys0, layout.sysLogical, systemDupSize),
   (layout.sysPhys1, layout.sysLogical, systemDupSize),
   (layout.metaPhys0, layout.metaLogical, layout.metaStripeSize),
   (layout.metaPhys1, layout.metaLogical, layout.metaStripeSize)]

/-- The statistics of the device and its extents. -/
def devTreeItems : List (Key × Bytes) :=
  (⟨devStatsObjectid, persistentItemKey, 1⟩, zeros 40) :: (devExtents ctx.layout).map fun extent =>
      (⟨1, devExtentKey, extent.1⟩, devExtent extent.2.1 extent.2.2 ctx.chunkUuid)

def devTree : Result TreeResult :=
  leafOf (ctx.layout.metaBlock .dev) devTreeObjectid (devTreeItems ctx)

/-- An item for each block of a tree. -/
def extentTreeItems : List (Key × Bytes) :=
  ctx.layout.allTreeBlocks.map fun block =>
    (⟨block.1, metadataItemKey, 0⟩, extentItem block.2 ctx.generation)

def extentTree : Result TreeResult :=
  leafOf (ctx.layout.metaBlock .extent) extentTreeObjectid (extentTreeItems ctx)

/-- A block group for each chunk. -/
def blockGroupTreeItems : List (Key × Bytes) :=
  [(⟨layout.dataLogical, blockGroupItemKey, dataGroupSize⟩, blockGroupItem 0 blockGroupData),
   (⟨layout.sysLogical, blockGroupItemKey, systemDupSize⟩,
     blockGroupItem nodesize (blockGroupSystem ||| blockGroupDup)),
   (⟨layout.metaLogical, blockGroupItemKey, layout.metaStripeSize⟩,
     blockGroupItem DiskLayout.metaBytesUsed (blockGroupMetadata ||| blockGroupDup))]

def blockGroupTree : Result TreeResult :=
  leafOf (ctx.layout.metaBlock .blockGroup) blockGroupTreeObjectid (blockGroupTreeItems ctx.layout)

/-- A free extent, if there is anything free. -/
def freeExtent (start size : ℕ) : List (Key × Bytes) :=
  if 0 < size then [(⟨start, freeSpaceExtentKey, size⟩, [])] else []

/-- What is free in each block group. -/
def freeSpaceTreeItems : List (Key × Bytes) :=
  let chunkTreeStart := layout.chunkTreeLogical
  let chunkTreeEnd := saturatingAdd chunkTreeStart nodesize
  let sysEnd := saturatingAdd layout.sysLogical systemDupSize
  let sysFreeBefore := chunkTreeStart - layout.sysLogical
  let sysFreeAfter := sysEnd - chunkTreeEnd
  let sysExtentCount := (if 0 < sysFreeBefore then 1 else 0) + if 0 < sysFreeAfter then 1 else 0
  let metaUsedEnd :=
    saturatingAdd layout.metaLogical (saturatingMul metadataTreeBlockCount nodesize)
  let metaEnd := saturatingAdd layout.metaLogical layout.metaStripeSize
  let metaFree := metaEnd - metaUsedEnd
  let metaExtentCount := if 0 < metaFree then 1 else 0
  [(⟨layout.dataLogical, freeSpaceInfoKey, dataGroupSize⟩, freeSpaceInfo 1),
    (⟨layout.dataLogical, freeSpaceExtentKey, dataGroupSize⟩, []),
    (⟨layout.sysLogical, freeSpaceInfoKey, systemDupSize⟩, freeSpaceInfo sysExtentCount)] ++
  freeExtent layout.sysLogical sysFreeBefore ++ freeExtent chunkTreeEnd sysFreeAfter ++
  [(⟨layout.metaLogical, freeSpaceInfoKey, layout.metaStripeSize⟩,
    freeSpaceInfo metaExtentCount)] ++
  freeExtent metaUsedEnd metaFree

def freeSpaceTree : Result TreeResult :=
  leafOf (ctx.layout.metaBlock .freeSpace) freeSpaceTreeObjectid (freeSpaceTreeItems ctx.layout)

/-- A tree with nothing but a root directory. -/
def directoryTree (block : Block) (owner : ℕ) (ctx : TreeContext) (now : ℕ) :
    Result TreeResult := do
  let inodeRef ← buildInodeRef [46, 46]
  leafOf (ctx.layout.metaBlock block) owner
    [(⟨firstFreeObjectid, inodeItemKey, 0⟩, inodeItem ctx.generation 0 0 now),
     (⟨firstFreeObjectid, inodeRefKey, firstFreeObjectid⟩, inodeRef)]

def fsTree (now : ℕ) : Result TreeResult :=
  directoryTree .fs fsTreeObjectid ctx now

def dataRelocTree (now : ℕ) : Result TreeResult :=
  directoryTree .dataReloc dataRelocTreeObjectid ctx now

/-- The tree with the identifier of the file system tree. -/
def uuidTree : Result TreeResult :=
  leafOf (ctx.layout.metaBlock .uuid) uuidTreeObjectid
    [(⟨ofLe (ctx.fsUuid.bytes.take 8), uuidKeySubvol, ofLe (ctx.fsUuid.bytes.drop 8)⟩,
      leBytes 8 fsTreeObjectid)]

def csumTree : Result TreeResult :=
  .ok ⟨ctx.layout.metaBlock .csum, csumTreeObjectid, [], []⟩

/-- `default`. -/
def defaultName : Bytes := [100, 101, 102, 97, 117, 108, 116]

/-- `btrfs_name_hash`. -/
def nameHash (name : Bytes) : ℕ :=
  (crc32cAppend 1 name ^^^ 0xFFFFFFFF).toNat

/-- `add_system_roots`: the trees of the file system itself. -/
def systemRoots : List (Key × Bytes) :=
  let root (objectid : ℕ) (block : Block) : Key × Bytes :=
    (⟨objectid, rootItemKey, 0⟩, RootItemBuilder.build { bytenr := ctx.layout.metaBlock block })
  [root extentTreeObjectid .extent, root devTreeObjectid .dev, root csumTreeObjectid .csum,
   root uuidTreeObjectid .uuid, root freeSpaceTreeObjectid .freeSpace,
   root blockGroupTreeObjectid .blockGroup,
   (⟨dataRelocTreeObjectid, rootItemKey, 0⟩, RootItemBuilder.build {
       generation := ctx.generation
       bytenr := ctx.layout.metaBlock .dataReloc
       rootDirid := firstFreeObjectid })]

/-- `add_fs_root`: the tree of the files. -/
def fsRoot (now : ℕ) : Result (List (Key × Bytes)) := do
  let inodeRef ← buildInodeRef defaultName
  .ok [(⟨fsTreeObjectid, inodeRefKey, rootTreeDirObjectid⟩, inodeRef),
    (⟨fsTreeObjectid, rootItemKey, 0⟩, RootItemBuilder.build {
        generation := ctx.generation
        bytenr := ctx.layout.metaBlock .fs
        rootDirid := firstFreeObjectid
        uuid := some ctx.fsUuid
        flags := inodeRootItemInit
        ctime := some now
        otime := some now })]

/-- `add_root_dir`: the directory with the name of that tree. -/
def rootDir (ctx : TreeContext) (now : ℕ) : Result (List (Key × Bytes)) := do
  let inodeRef ← buildInodeRef [46, 46]
  let dirItem ← buildDirItem fsTreeObjectid rootItemKey defaultName ctx.generation
  .ok [(⟨rootTreeDirObjectid, inodeItemKey, 0⟩, inodeItem ctx.generation 0 0 now),
    (⟨rootTreeDirObjectid, inodeRefKey, rootTreeDirObjectid⟩, inodeRef),
    (⟨rootTreeDirObjectid, dirItemKey, nameHash crc32cAppend defaultName⟩, dirItem)]

/-- The tree with the roots of the others. -/
def rootTree (ctx : TreeContext) (now : ℕ) : Result TreeResult := do
  let fsRoot ← fsRoot ctx now
  let rootDir ← rootDir crc32cAppend ctx now
  leafOf (ctx.layout.metaBlock .root) rootTreeObjectid (systemRoots ctx ++ fsRoot ++ rootDir)

/-! ## What the trees hold -/

/-- A leaf at this place, of this tree, that fits a node and holds these items. -/
structure Holds (tree : TreeResult) (logicalOffset owner : ℕ) (items : List (Key × Bytes)) :
    Prop where
  logicalOffset : tree.logicalOffset = logicalOffset
  owner : tree.owner = owner
  count : tree.items.length = items.length
  data : tree.data.length ≤ nodesize
  contents : tree.contents.Perm (items.map fun item => (item.1, some item.2))

theorem exists_leafOf (logicalOffset owner : ℕ) {items : List (Key × Bytes)}
    (h : (items.map (·.2.length)).sum ≤ nodesize - leafDataOffset) :
    ∃ tree, leafOf logicalOffset owner items = .ok tree ∧ Holds tree logicalOffset owner items := by
  obtain ⟨leaf, hl, hc, hd⟩ := LeafBuilder.exists_build h
  refine ⟨⟨logicalOffset, owner, leaf.1, leaf.2⟩, ?_, rfl, rfl, hc, hd, ?_⟩
  · rw [leafOf, hl]
    rfl
  · rw [LeafBuilder.contents_build hl]
    exact (mergeSort_perm ..).map _

/-! ### Lengths of the records -/

@[simp] theorem length_devItem : (devItem ctx).length = 98 := by
  simp [devItem, ctx.devUuid.length_bytes, ctx.fsid.length_bytes]

end

@[simp] theorem ChunkBuilder.length_stripe (devUuid : Uuid) (config : ℕ × ℕ) :
    (stripe devUuid config).length = 32 := by
  simp [stripe, devUuid.length_bytes]

@[simp] theorem ChunkBuilder.length_bytes (chunk : ChunkBuilder) (devUuid : Uuid) :
    (chunk.bytes devUuid).length = 48 + 32 * chunk.stripes.length := by
  have hs : ∀ bytes ∈ chunk.stripes.map (stripe devUuid), bytes.length = 32 := by
    intro bytes hb
    obtain ⟨config, -, rfl⟩ := mem_map.1 hb
    exact length_stripe ..
  rw [bytes, length_append, length_flatten_of_length hs, fixed]
  simp [Nat.mul_comm]

@[simp] theorem length_devExtent (chunkOffset length : ℕ) (uuid : Uuid) :
    (devExtent chunkOffset length uuid).length = 48 := by
  simp [devExtent, uuid.length_bytes]

@[simp] theorem length_extentItem (owner generation : ℕ) :
    (extentItem owner generation).length = 33 := by
  simp [extentItem]

@[simp] theorem length_blockGroupItem (used flags : ℕ) :
    (blockGroupItem used flags).length = 24 := by
  simp [blockGroupItem]

@[simp] theorem length_freeSpaceInfo (extentCount : ℕ) :
    (freeSpaceInfo extentCount).length = 8 := by
  simp [freeSpaceInfo]

@[simp] theorem length_timespec (sec : ℕ) : (timespec sec).length = 12 := by simp [timespec]

@[simp] theorem length_inodeItem (generation size flags time : ℕ) :
    (inodeItem generation size flags time).length = 160 := by
  simp [inodeItem]

@[simp] theorem RootItemBuilder.length_build : root.build.length = 439 := by
  have hu : ((root.uuid.map Uuid.bytes).getD (zeros 16)).length = 16 := by
    cases root.uuid with
    | none => exact length_zeros 16
    | some uuid => exact uuid.length_bytes
  simp [build, pieces, hu]

/-! ### The trees -/

variable (ctx : TreeContext) (now : ℕ) (crc32cAppend : UInt32 → Bytes → UInt32) (start size : ℕ)

/-- The items of the chunk tree. -/
def chunkTreeItems : List (Key × Bytes) :=
  [(⟨devItemsObjectid, devItemKey, 1⟩, devItem ctx),
   (⟨firstChunkTreeObjectid, chunkItemKey, ctx.layout.dataLogical⟩,
     (ChunkBuilder.single dataGroupSize blockGroupData ctx.layout.dataPhys).bytes ctx.devUuid),
   (⟨firstChunkTreeObjectid, chunkItemKey, ctx.layout.sysLogical⟩,
     (ChunkBuilder.dup systemDupSize blockGroupSystem ctx.layout.sysPhys0
       ctx.layout.sysPhys1).bytes ctx.devUuid),
   (⟨firstChunkTreeObjectid, chunkItemKey, ctx.layout.metaLogical⟩,
     (ChunkBuilder.dup ctx.layout.metaStripeSize blockGroupMetadata ctx.layout.metaPhys0
       ctx.layout.metaPhys1).bytes ctx.devUuid)]

theorem exists_chunkTree : ∃ tree, chunkTree ctx = .ok tree ∧
    Holds tree ctx.layout.chunkTreeLogical chunkTreeObjectid (chunkTreeItems ctx) :=
  exists_leafOf _ _ (by simp [ChunkBuilder.single, ChunkBuilder.dup]; decide)

theorem exists_devTree : ∃ tree, devTree ctx = .ok tree ∧
    Holds tree (ctx.layout.metaBlock .dev) devTreeObjectid (devTreeItems ctx) :=
  exists_leafOf _ _ (by simp [devTreeItems, devExtents]; decide)

theorem exists_extentTree : ∃ tree, extentTree ctx = .ok tree ∧
    Holds tree (ctx.layout.metaBlock .extent) extentTreeObjectid (extentTreeItems ctx) :=
  exists_leafOf _ _ (by simp [extentTreeItems, DiskLayout.allTreeBlocks]; decide)

theorem exists_blockGroupTree : ∃ tree, blockGroupTree ctx = .ok tree ∧
    Holds tree (ctx.layout.metaBlock .blockGroup) blockGroupTreeObjectid
      (blockGroupTreeItems ctx.layout) :=
  exists_leafOf _ _ (by simp [blockGroupTreeItems]; decide)

theorem sum_freeExtent : ((freeExtent start size).map (·.2.length)).sum = 0 := by
  unfold freeExtent
  split_ifs <;> rfl

theorem length_freeExtent_le : (freeExtent start size).length ≤ 1 := by
  unfold freeExtent
  split_ifs <;> simp

theorem length_freeSpaceTreeItems_le (layout : DiskLayout) :
    (freeSpaceTreeItems layout).length ≤ 7 := by
  have hb := length_freeExtent_le layout.sysLogical (layout.chunkTreeLogical - layout.sysLogical)
  have ha := length_freeExtent_le (saturatingAdd layout.chunkTreeLogical nodesize)
    (saturatingAdd layout.sysLogical systemDupSize - saturatingAdd layout.chunkTreeLogical nodesize)
  have hm := length_freeExtent_le
    (saturatingAdd layout.metaLogical (saturatingMul metadataTreeBlockCount nodesize))
    (saturatingAdd layout.metaLogical layout.metaStripeSize -
      saturatingAdd layout.metaLogical (saturatingMul metadataTreeBlockCount nodesize))
  simp only [freeSpaceTreeItems, length_append, length_cons, length_nil]
  omega

theorem exists_freeSpaceTree : ∃ tree, freeSpaceTree ctx = .ok tree ∧
    Holds tree (ctx.layout.metaBlock .freeSpace) freeSpaceTreeObjectid
      (freeSpaceTreeItems ctx.layout) :=
  exists_leafOf _ _ (by
    simp only [freeSpaceTreeItems, map_append, sum_append, sum_freeExtent]
    simp
    decide)

theorem exists_directoryTree (block : Block) (owner : ℕ) :
    ∃ tree items, directoryTree block owner ctx now = .ok tree ∧ items.length = 2 ∧
      Holds tree (ctx.layout.metaBlock block) owner items := by
  obtain ⟨tree, ht, hh⟩ := @exists_leafOf (ctx.layout.metaBlock block) owner
    [(⟨firstFreeObjectid, inodeItemKey, 0⟩, inodeItem ctx.generation 0 0 now),
      (⟨firstFreeObjectid, inodeRefKey, firstFreeObjectid⟩,
        [leBytes 8 0, leBytes 2 2].flatten ++ [46, 46])] (by simp; decide)
  exact ⟨tree, _, ht, rfl, hh⟩

theorem exists_uuidTree : ∃ tree items, uuidTree ctx = .ok tree ∧ items.length = 1 ∧
    Holds tree (ctx.layout.metaBlock .uuid) uuidTreeObjectid items := by
  obtain ⟨tree, ht, hh⟩ := @exists_leafOf (ctx.layout.metaBlock .uuid) uuidTreeObjectid
    [(⟨ofLe (ctx.fsUuid.bytes.take 8), uuidKeySubvol, ofLe (ctx.fsUuid.bytes.drop 8)⟩,
      leBytes 8 fsTreeObjectid)] (by simp; decide)
  exact ⟨tree, _, ht, rfl, hh⟩

/-- The items of the tree of the files in the root tree. -/
def fsRootItems : List (Key × Bytes) :=
  [(⟨fsTreeObjectid, inodeRefKey, rootTreeDirObjectid⟩,
     [leBytes 8 0, leBytes 2 7].flatten ++ defaultName),
   (⟨fsTreeObjectid, rootItemKey, 0⟩, RootItemBuilder.build {
       generation := ctx.generation
       bytenr := ctx.layout.metaBlock .fs
       rootDirid := firstFreeObjectid
       uuid := some ctx.fsUuid
       flags := inodeRootItemInit
       ctime := some now
       otime := some now })]

/-- The directory with the name of that tree. -/
def rootDirItems : List (Key × Bytes) :=
  [(⟨rootTreeDirObjectid, inodeItemKey, 0⟩, inodeItem ctx.generation 0 0 now),
   (⟨rootTreeDirObjectid, inodeRefKey, rootTreeDirObjectid⟩,
     [leBytes 8 0, leBytes 2 2].flatten ++ [46, 46]),
   (⟨rootTreeDirObjectid, dirItemKey, nameHash crc32cAppend defaultName⟩,
     [(Key.mk fsTreeObjectid rootItemKey maxValue).toBytes, leBytes 8 ctx.generation, leBytes 2 0,
       leBytes 2 7, [2]].flatten ++ defaultName)]

def rootTreeItems : List (Key × Bytes) :=
  systemRoots ctx ++ fsRootItems ctx now ++ rootDirItems ctx now crc32cAppend

theorem exists_rootTree : ∃ tree, rootTree crc32cAppend ctx now = .ok tree ∧
      Holds tree (ctx.layout.metaBlock .root) rootTreeObjectid
        (rootTreeItems ctx now crc32cAppend) :=
  @exists_leafOf _ _ (rootTreeItems ctx now crc32cAppend) (by
    simp [rootTreeItems, systemRoots, fsRootItems, rootDirItems]
    decide)

end Muak.Btrfs
