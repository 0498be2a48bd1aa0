import Mathlib.Algebra.GroupWithZero.Nat
import Mathlib.Algebra.Ring.Nat
import Muak.Btrfs.Layout
import Muak.Foundations.Bytes
import Muak.Foundations.Result

/-!
# Leaves

`libs/btrfs/src/format/node.rs` and the node building of `context.rs`: the items of a leaf are
sorted by their keys, and their data are stacked from the end of the node backwards.

* `LeafBuilder.build`, `MkfsContext.buildNode`: the items and data of a leaf, and its bytes.
* `TreeResult.contents`: what a reader finds in a leaf.
* `contents_build`: these are the items that were added, sorted.
-/

namespace Muak.Btrfs

open Bytes List

/-- Why no file system is made. -/
inductive BtrfsError
  | mkfs (message : String)
  | deviceTooSmall (minSize actualSize : ℕ)
  deriving DecidableEq

abbrev Result := Except BtrfsError

/-- Sixteen bytes. -/
structure Uuid where
  bytes : Bytes
  length_bytes : bytes.length = 16

/-! ## Keys and items -/

structure Key where
  objectid : ℕ
  type : UInt8
  offset : ℕ
  deriving DecidableEq

def Key.toBytes (key : Key) : Bytes :=
  [leBytes 8 key.objectid, [key.type], leBytes 8 key.offset].flatten

/-- The order of the items. -/
def Key.le (left right : Key) : Bool :=
  left.objectid < right.objectid || left.objectid == right.objectid &&
    (left.type < right.type || left.type == right.type && decide (left.offset ≤ right.offset))

/-- An item of a leaf: where its data are. -/
structure Item where
  key : Key
  offset : ℕ
  size : ℕ

def Item.toBytes (item : Item) : Bytes :=
  [item.key.toBytes, leBytes 4 item.offset, leBytes 4 item.size].flatten

@[simp] theorem Key.length_toBytes (key : Key) : key.toBytes.length = 17 := by
  simp [Key.toBytes]

@[simp] theorem Item.length_toBytes (item : Item) : item.toBytes.length = 25 := by
  simp [Item.toBytes]

/-! ## Building a leaf -/

/-- Where the data of a leaf may begin, after the header. -/
def leafDataOffset : ℕ := 101

/-- A number that has to fit 32 bits. -/
def toU32 (message : String) (value : ℕ) : Result ℕ :=
  if value < 2 ^ 32 then .ok value else .error (.mkfs message)

namespace LeafBuilder

/-- The loop of `build`: each item gets the place before that of the last one. -/
def pack : ℕ → List (Key × Bytes) → Result (List Item)
  | _, [] => .ok []
  | currentOffset, (key, data) :: rest =>
    if currentOffset < data.length then .error (.mkfs "leaf data exceeds node size")
    else do
      let offset ← toU32 "leaf item offset exceeds u32" (currentOffset - data.length)
      let size ← toU32 "leaf item size exceeds u32" data.length
      let items ← pack (currentOffset - data.length) rest
      .ok (⟨key, offset, size⟩ :: items)

variable (items : List (Key × Bytes))

/-- The items by their keys. -/
def sorted : List (Key × Bytes) :=
  items.mergeSort fun left right => left.1.le right.1

/-- The data of the items, from the last one to the first. -/
def stacked : Bytes := (items.map Prod.snd).reverse.flatten

/-- The sorted items with the places of their data, and the data. -/
def build : Result (List Item × Bytes) := do
  let packed ← pack (nodesize - leafDataOffset) (sorted items)
  .ok (packed, stacked (sorted items))

end LeafBuilder

/-- The leaf of a tree. -/
structure TreeResult where
  logicalOffset : ℕ
  owner : ℕ
  items : List Item
  data : Bytes

/-- The data of an item. Places count from the end of the header, and the data of all items end with
the node. -/
def TreeResult.payload (tree : TreeResult) (item : Item) : Option Bytes :=
  slice tree.data (leafDataOffset + item.offset - (nodesize - tree.data.length)) item.size

/-- What a reader finds in a leaf. -/
def TreeResult.contents (tree : TreeResult) : List (Key × Option Bytes) :=
  tree.items.map fun item => (item.key, tree.payload item)

/-! ## What is in a leaf -/

namespace LeafBuilder

variable {items : List (Key × Bytes)} {currentOffset : ℕ} {packed : List Item}

theorem stacked_cons (key : Key) (data : Bytes) (rest : List (Key × Bytes)) :
    stacked ((key, data) :: rest) = stacked rest ++ data := by
  simp [stacked]

theorem length_stacked (items : List (Key × Bytes)) :
    (stacked items).length = (items.map (·.2.length)).sum := by
  induction items with
  | nil => rfl
  | cons item rest ih =>
    rw [stacked_cons, length_append, ih, map_cons, sum_cons, Nat.add_comm]

/-- The step of the loop, and what its success means. -/
theorem pack_cons_eq_ok {key : Key} {data : Bytes} {rest : List (Key × Bytes)}
    (h : pack currentOffset ((key, data) :: rest) = .ok packed) :
    data.length ≤ currentOffset ∧ ∃ others, pack (currentOffset - data.length) rest = .ok others ∧
      packed = ⟨key, currentOffset - data.length, data.length⟩ :: others := by
  rw [pack] at h
  split_ifs at h with hlt
  obtain ⟨offset, hof, h⟩ := of_bind h
  obtain ⟨size, hs, h⟩ := of_bind h
  obtain ⟨others, ho, h⟩ := of_bind h
  unfold toU32 at hof hs
  split_ifs at hof hs
  cases hof
  cases hs
  cases h
  exact ⟨Nat.le_of_not_lt hlt, others, ho, rfl⟩

/-- The data of each item are at its place, counted from the end. -/
theorem slice_pack (h : pack currentOffset items = .ok packed) (after : Bytes) :
    (stacked items).length ≤ currentOffset ∧
      packed.map (fun item => (item.key, slice (stacked items ++ after)
        (item.offset + (stacked items).length - currentOffset) item.size)) =
      items.map fun item => (item.1, some item.2) := by
  induction items generalizing currentOffset packed after with
  | nil =>
    cases h
    exact ⟨Nat.zero_le _, rfl⟩
  | cons item rest ih =>
    obtain ⟨key, data⟩ := item
    obtain ⟨hle, others, ho, rfl⟩ := pack_cons_eq_ok h
    obtain ⟨hrest, hm⟩ := ih ho (data ++ after)
    rw [stacked_cons, length_append]
    refine ⟨by omega, ?_⟩
    rw [map_cons, map_cons, append_assoc, ← hm]
    congr 1
    · rw [show currentOffset - data.length + ((stacked rest).length + data.length) - currentOffset =
        (stacked rest).length by omega, ← append_assoc, slice_append rfl rfl]
    · refine map_congr_left fun other _ => ?_
      rw [show other.offset + ((stacked rest).length + data.length) - currentOffset =
        other.offset + (stacked rest).length - (currentOffset - data.length) by omega]

/-- **Reading a leaf** gives the items that were added, in the order of their keys. -/
theorem contents_build {logicalOffset owner : ℕ} {leaf : List Item × Bytes}
    (h : build items = .ok leaf) :
    (TreeResult.mk logicalOffset owner leaf.1 leaf.2).contents =
      (sorted items).map fun item => (item.1, some item.2) := by
  obtain ⟨packed, hp, hl⟩ := of_bind h
  cases hl
  obtain ⟨hle, hm⟩ := slice_pack hp []
  rw [← hm]
  refine map_congr_left fun item _ => ?_
  rw [nodesize] at hle
  rw [TreeResult.payload, append_nil, nodesize, leafDataOffset]
  rw [show 101 + item.offset - (0x4000 - (stacked (sorted items)).length) =
    item.offset + (stacked (sorted items)).length - (0x4000 - 101) by omega]

theorem exists_pack (hlt : currentOffset < 2 ^ 32)
    (h : (items.map (·.2.length)).sum ≤ currentOffset) :
    ∃ packed, pack currentOffset items = .ok packed ∧ packed.length = items.length := by
  induction items generalizing currentOffset with
  | nil => exact ⟨[], rfl, rfl⟩
  | cons item rest ih =>
    obtain ⟨key, data⟩ := item
    rw [map_cons, sum_cons] at h
    change data.length + _ ≤ _ at h
    obtain ⟨others, ho, hlen⟩ := @ih (currentOffset - data.length) (by omega) (by omega)
    refine ⟨⟨key, currentOffset - data.length, data.length⟩ :: others, ?_, ?_⟩
    · rw [pack, if_neg (by omega), toU32, toU32, if_pos (by omega), if_pos (by omega), ho]
      rfl
    · rw [length_cons, length_cons, hlen]

theorem exists_build (h : (items.map (·.2.length)).sum ≤ nodesize - leafDataOffset) :
    ∃ leaf, build items = .ok leaf ∧ leaf.1.length = items.length ∧ leaf.2.length ≤ nodesize := by
  have hp : (sorted items).Perm items := mergeSort_perm ..
  have hs : ((sorted items).map (·.2.length)).sum = (items.map (·.2.length)).sum :=
    (hp.map _).sum_nat
  obtain ⟨packed, hpc, hlen⟩ :=
    @exists_pack (sorted items) (nodesize - leafDataOffset) (by decide) (by rw [hs]; exact h)
  refine ⟨(packed, stacked (sorted items)), ?_, ?_, ?_⟩
  · rw [build, hpc]
    rfl
  · rw [hlen, hp.length_eq]
  · rw [length_stacked]
    omega

end LeafBuilder

/-! ## Nodes -/

/-- `copy_into`. -/
def copyInto (dest : Bytes) (offset : ℕ) (src : Bytes) : Result Bytes :=
  if offset + src.length ≤ dest.length then .ok (put dest offset src)
  else .error (.mkfs "copy exceeds destination buffer")

theorem copyInto_of_le {dest src : Bytes} {offset : ℕ} (h : offset + src.length ≤ dest.length) :
    copyInto dest offset src = .ok (put dest offset src) :=
  if_pos h

def csumSize : ℕ := 32

/-- The flags of a node: written, with mixed back references. -/
def headerFlags : ℕ := 1 ||| 1 <<< 56

/-- What all nodes of a file system share. -/
structure NodeContext where
  fsid : Uuid
  chunkUuid : Uuid
  generation : ℕ

variable (ctx : NodeContext) (crc32c : Bytes → UInt32) (bytenr owner nritems : ℕ)

/-- The header of a leaf, with an empty checksum. -/
def header (bytenr owner nritems : ℕ) : Bytes :=
  [zeros csumSize, ctx.fsid.bytes, leBytes 8 bytenr, leBytes 8 headerFlags, ctx.chunkUuid.bytes,
    leBytes 8 ctx.generation, leBytes 8 owner, leBytes 4 nritems, [0]].flatten

/-- The items behind the header. -/
def copyItems : Bytes → ℕ → List Item → Result Bytes
  | node, _, [] => .ok node
  | node, index, item :: rest => do
    let node ← copyInto node (101 + index * 25) item.toBytes
    copyItems node (index + 1) rest

/-- The data at the end of the node. -/
def copyData (node data : Bytes) : Result Bytes :=
  if data = [] then .ok node
  else if nodesize < data.length then .error (.mkfs "leaf data exceeds node size")
  else copyInto node (nodesize - data.length) data

/-- `build_node`, for a checksum of four bytes. -/
def buildNode (ctx : NodeContext) (tree : TreeResult) : Result Bytes := do
  let node := zeros nodesize
  let itemCount ← toU32 "too many leaf items" tree.items.length
  let node ← copyInto node csumSize
    ((header ctx tree.logicalOffset tree.owner itemCount).drop csumSize)
  let node ← copyItems node 0 tree.items
  let node ← copyData node tree.data
  copyInto node 0 (le32 (crc32c (node.drop csumSize)))

theorem length_header : (header ctx bytenr owner nritems).length = 101 := by
  simp [header, ctx.fsid.length_bytes, ctx.chunkUuid.length_bytes, csumSize]

theorem length_drop_header : ((header ctx bytenr owner nritems).drop csumSize).length = 69 := by
  rw [length_drop, length_header, csumSize]

theorem exists_copyItems {node : Bytes} {index : ℕ} {items : List Item}
    (h : 101 + (index + items.length) * 25 ≤ node.length) :
    ∃ node', copyItems node index items = .ok node' ∧ node'.length = node.length := by
  induction items generalizing node index with
  | nil => exact ⟨node, rfl, rfl⟩
  | cons item rest ih =>
    rw [length_cons] at h
    have hp := @length_put node (101 + index * 25) item.toBytes
    obtain ⟨node', hn', hlen⟩ :=
      @ih (put node (101 + index * 25) item.toBytes) (index + 1) (by rw [hp]; omega)
    refine ⟨node', ?_, hlen.trans hp⟩
    rw [copyItems, copyInto_of_le (by rw [Item.length_toBytes]; omega), ok_bind, hn']

theorem exists_copyData {node data : Bytes} (hn : node.length = nodesize)
    (h : data.length ≤ nodesize) :
    ∃ node', copyData node data = .ok node' ∧ node'.length = nodesize := by
  unfold copyData
  split_ifs with hnl hlt
  · exact ⟨node, rfl, hn⟩
  · omega
  · exact ⟨_, copyInto_of_le (by omega), (length_put ..).trans hn⟩

theorem exists_buildNode (ctx : NodeContext) {tree : TreeResult} (hi : tree.items.length ≤ 600)
    (hd : tree.data.length ≤ nodesize) :
    ∃ node, buildNode crc32c ctx tree = .ok node ∧ node.length = nodesize := by
  have hh := length_drop_header ctx tree.logicalOffset tree.owner tree.items.length
  have hz : (zeros nodesize).length = nodesize := length_zeros _
  have hn := @length_put (zeros nodesize) csumSize
    ((header ctx tree.logicalOffset tree.owner tree.items.length).drop csumSize)
  rw [hz] at hn
  obtain ⟨first, hf, hlen⟩ := @exists_copyItems _ 0 tree.items (by rw [hn, nodesize]; omega)
  obtain ⟨second, hs, hlen'⟩ := exists_copyData (hlen.trans hn) hd
  refine ⟨put second 0 (le32 (crc32c (second.drop csumSize))), ?_, (length_put ..).trans hlen'⟩
  · rw [buildNode, toU32, if_pos (by omega), ok_bind, copyInto_of_le (by
      rw [hh, hz]; decide), ok_bind, hf, ok_bind, hs, ok_bind, copyInto_of_le (by
      rw [length_le32, hlen']; decide)]

end Muak.Btrfs
