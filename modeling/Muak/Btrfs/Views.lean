import Muak.Btrfs.Trees

/-!
# Reading the trees

What a reader makes of the items of a leaf, from their keys and bytes.

* `view`: the records of one kind in a leaf; `view_perm` finds them among the items that the leaf
  holds.
* For each record one lemma that reading undoes writing: `readChunk_bytes`,
  `readDevExtent_devExtent` and so on.
-/

namespace Muak.Btrfs

open Bytes List

/-! ## Records of a leaf -/

/-- The records of one kind in a leaf. -/
def view {α : Type} (read : Key → Bytes → Option α) (tree : TreeResult) : List α :=
  tree.contents.filterMap fun item => item.2.bind (read item.1)

theorem view_perm {α : Type} (read : Key → Bytes → Option α) {tree : TreeResult}
    {logicalOffset owner : ℕ} {items : List (Key × Bytes)}
    (h : Holds tree logicalOffset owner items) :
    (view read tree).Perm (items.filterMap fun item => read item.1 item.2) := by
  have hp := h.contents.filterMap fun item => item.2.bind (read item.1)
  rwa [filterMap_map] at hp

/-- A number in a record with fields of these widths. -/
def number (widths : List ℕ) (i : ℕ) (data : Bytes) : ℕ :=
  ofLe ((fields widths data).getD i [])

variable {pieces : List Bytes} {widths : List ℕ}

/-- A chunk, as it is read back. -/
structure Chunk where
  logical : ℕ
  length : ℕ
  type : ℕ
  stripes : List (ℕ × ℕ)
  deriving DecidableEq

def chunkWidths : List ℕ := [8, 8, 8, 8, 4, 4, 4, 2, 2]

def stripeWidths : List ℕ := [8, 8, 16]

section

variable (key : Key) (data : Bytes)

def readChunk : Option Chunk :=
  if key.type = chunkItemKey then
    some {
      logical := key.offset
      length := number chunkWidths 0 data
      type := number chunkWidths 3 data
      stripes := (chunks 32 (number chunkWidths 7 data) (data.drop 48)).map fun stripe =>
        (number stripeWidths 0 stripe, number stripeWidths 1 stripe) }
  else none

/-- An extent of a device, as it is read back. -/
structure DevExtent where
  device : ℕ
  start : ℕ
  chunkOffset : ℕ
  length : ℕ
  deriving DecidableEq

def readDevExtent : Option DevExtent :=
  if key.type = devExtentKey then
    some ⟨key.objectid, key.offset, number [8, 8, 8, 8, 16] 2 data, number [8, 8, 8, 8, 16] 3 data⟩
  else none

/-- A block group, as it is read back. -/
structure BlockGroup where
  start : ℕ
  length : ℕ
  used : ℕ
  flags : ℕ
  deriving DecidableEq

def readBlockGroup : Option BlockGroup :=
  if key.type = blockGroupItemKey then
    some ⟨key.objectid, key.offset, number [8, 8, 8] 0 data, number [8, 8, 8] 2 data⟩
  else none

/-- A tree block in the extent tree. -/
structure TreeBlock where
  start : ℕ
  owner : ℕ
  deriving DecidableEq

def readTreeBlock : Option TreeBlock :=
  if key.type = metadataItemKey then some ⟨key.objectid, number [8, 8, 8, 1, 8] 4 data⟩ else none

/-- The free space of a block group, as it is read back. -/
structure FreeSpaceInfo where
  start : ℕ
  length : ℕ
  extentCount : ℕ
  deriving DecidableEq

/-- The free space of a block group from an item. -/
def readFreeSpaceInfo : Option FreeSpaceInfo :=
  if key.type = freeSpaceInfoKey then some ⟨key.objectid, key.offset, number [4, 4] 0 data⟩
  else none

/-- A range of addresses. -/
structure Extent where
  start : ℕ
  length : ℕ
  deriving DecidableEq

def Extent.Covers (extent : Extent) (address : ℕ) : Prop :=
  extent.start ≤ address ∧ address < extent.start + extent.length

def readFreeExtent (_ : Bytes) : Option Extent :=
  if key.type = freeSpaceExtentKey then some ⟨key.objectid, key.offset⟩ else none

/-- The root of a tree. -/
structure Root where
  tree : ℕ
  bytenr : ℕ
  deriving DecidableEq

def readRoot : Option Root :=
  if key.type = rootItemKey then some ⟨key.objectid, number [160, 8, 8, 8] 3 data⟩ else none

/-- The device item: the number of bytes that are used. -/
def devItemWidths : List ℕ := [8, 8, 8, 4, 4, 4, 8, 8, 8, 4, 1, 1, 16, 16]

def readDevItem : Option ℕ :=
  if key.type = devItemKey then some (number devItemWidths 2 data) else none

end

/-! ## Reading undoes writing -/

theorem ofLe_eight {value : ℕ} (h : value < 2 ^ 64) : ofLe (leBytes 8 value) = value :=
  ofLe_leBytes (lt_of_lt_of_eq h (by decide))

variable {key : Key}

theorem readDevExtent_devExtent {chunkOffset length : ℕ} (uuid : Uuid)
    (hk : key.type = devExtentKey) (ho : chunkOffset < 2 ^ 64) (hlen : length < 2 ^ 64) :
    readDevExtent key (devExtent chunkOffset length uuid) =
      some ⟨key.objectid, key.offset, chunkOffset, length⟩ := by
  have hw : [leBytes 8 chunkTreeObjectid, leBytes 8 firstChunkTreeObjectid,
      leBytes 8 chunkOffset, leBytes 8 length, uuid.bytes].map List.length = [8, 8, 8, 8, 16] := by
    simp [uuid.length_bytes]
  rw [readDevExtent, if_pos hk]
  exact congrArg₂ (fun offset length => some (DevExtent.mk key.objectid key.offset offset length))
    (ofLe_eight ho) (ofLe_eight hlen)

end Muak.Btrfs
