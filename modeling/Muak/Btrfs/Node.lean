import Muak.Btrfs.Leaf

/-!
# Reading a node

The headers of the items grow upwards behind the header of the node and the data of the items grow
downwards from its end. Only the data are checked against the size of the node.

* `decodeNode`: the items of a node, read off its bytes.
* `decodeItem_eq`: an item is read back where headers and data do not meet.
* `leaf_lossless_iff`: exactly then nothing is lost.
-/

namespace Muak.Btrfs

open Bytes LeafBuilder List

/-- The widths of the fields of an item. -/
def itemWidths : List ℕ := [8, 1, 8, 4, 4]

/-- The item with a number: its key, and the data at the place that it names. -/
def decodeItem (node : Bytes) (index : ℕ) : Option (Key × Bytes) := do
  match fields itemWidths (← slice node (101 + index * 25) 25) with
  | [objectid, type, offset, start, size] =>
    some (⟨ofLe objectid, type.headD 0, ofLe offset⟩, ← slice node (101 + ofLe start) (ofLe size))
  | _ => none

def decodeNode (node : Bytes) : Option (List (Key × Bytes)) := do
  (List.range (ofLe (← slice node 96 4))).mapM (decodeItem node)

/-- The keys of a file system. -/
def Key.Valid (key : Key) : Prop := key.objectid < 2 ^ 64 ∧ key.offset < 2 ^ 64

/-! ## The order of the keys -/

theorem Key.le_trans (a b c : Key) (hab : a.le b = true) (hbc : b.le c = true) : a.le c = true := by
  simp only [Key.le, Bool.or_eq_true, Bool.and_eq_true, decide_eq_true_eq, beq_iff_eq,
    UInt8.lt_iff_toNat_lt, ← UInt8.toNat_inj] at *
  omega

theorem Key.le_total (a b : Key) : (a.le b || b.le a) = true := by
  simp only [Key.le, Bool.or_eq_true, Bool.and_eq_true, decide_eq_true_eq, beq_iff_eq,
    UInt8.lt_iff_toNat_lt, ← UInt8.toNat_inj]
  omega

theorem pairwise_sorted {items : List (Key × Bytes)} (h : (items.map Prod.fst).Nodup) :
    (sorted items).Pairwise fun left right => left.1.le right.1 = true ∧ left.1 ≠ right.1 := by
  have hn : ((sorted items).map Prod.fst).Nodup :=
    ((mergeSort_perm items _).map Prod.fst).nodup_iff.2 h
  refine List.Pairwise.and ?_ (pairwise_map.1 hn)
  exact pairwise_mergeSort (fun a b c => Key.le_trans a.1 b.1 c.1)
    (fun a b => Key.le_total a.1 b.1) items

/-! ## The bytes of a node -/

variable {crc32c : Bytes → UInt32} {ctx : NodeContext} {tree : TreeResult}
  {node : Bytes}

theorem length_flatten_toBytes (items : List Item) :
    (items.map Item.toBytes).flatten.length = items.length * 25 := by
  rw [length_flatten_of_length, length_map]
  simp

theorem copyItems_eq_ok {index : ℕ} {items : List Item} {node' : Bytes}
    (h : copyItems node index items = .ok node') :
    node' = put node (101 + index * 25) (items.map Item.toBytes).flatten ∧
      (items ≠ [] → 101 + (index + items.length) * 25 ≤ node.length) := by
  induction items generalizing node index with
  | nil => exact ⟨(Except.ok.inj h).symm.trans (put_nil ..).symm, fun hne => absurd rfl hne⟩
  | cons item rest ih =>
    obtain ⟨next, hn, h⟩ := of_bind h
    unfold copyInto at hn
    split_ifs at hn with hle
    cases hn
    obtain ⟨rfl, hrest⟩ := ih h
    rw [length_put] at hrest
    rw [Item.length_toBytes] at hle
    have hr : 101 + (index + (rest.length + 1)) * 25 ≤ node.length := by
      by_cases hnl : rest = []
      · rw [hnl, length_nil]
        omega
      · have := hrest hnl
        omega
    refine ⟨?_, fun _ => hr⟩
    rw [show 101 + (index + 1) * 25 = 101 + index * 25 + item.toBytes.length by
      rw [Item.length_toBytes]; omega, put_put_append]
    · rfl
    · rw [Item.length_toBytes, length_flatten_toBytes]
      omega

theorem copyData_eq_ok {data node' : Bytes} (h : copyData node data = .ok node') :
    node' = put node (nodesize - data.length) data := by
  unfold copyData copyInto at h
  split_ifs at h with hn
  · rw [hn, put_nil, Except.ok.inj h]
  · exact (Except.ok.inj h).symm

/-- **The bytes of a node**: the checksum, the header and the items, and the data at the end. -/
theorem buildNode_eq_ok (h : buildNode crc32c ctx tree = .ok node) :
    101 + tree.items.length * 25 ≤ nodesize ∧ ∃ csum, node = put (put (put (zeros nodesize) csumSize
        ((header ctx tree.logicalOffset tree.owner tree.items.length).drop csumSize ++
          (tree.items.map Item.toBytes).flatten)) (nodesize - tree.data.length) tree.data)
        0 (le32 csum) := by
  obtain ⟨count, hc, h⟩ := of_bind h
  obtain ⟨first, hf, h⟩ := of_bind h
  obtain ⟨second, hs, h⟩ := of_bind h
  obtain ⟨third, ht, h⟩ := of_bind h
  unfold toU32 at hc
  unfold copyInto at hf h
  split_ifs at hc hf h
  cases hc
  cases hf
  obtain ⟨rfl, hr⟩ := copyItems_eq_ok hs
  obtain rfl := copyData_eq_ok ht
  have hh := length_drop_header ctx tree.logicalOffset tree.owner tree.items.length
  have hle : 101 + tree.items.length * 25 ≤ nodesize := by
    by_cases hn : tree.items = []
    · rw [hn]
      decide
    · simpa [length_zeros] using hr hn
  rw [show 101 + 0 * 25 = csumSize + ((header ctx tree.logicalOffset tree.owner
    tree.items.length).drop csumSize).length by rw [hh, csumSize], put_put_append (by
      rw [hh, length_flatten_toBytes, length_zeros, csumSize]; omega)] at h
  exact ⟨hle, _, (Except.ok.inj h).symm⟩

/-! ## Decoding -/

theorem fields_toBytes (item : Item) :
    fields itemWidths item.toBytes = [leBytes 8 item.key.objectid, [item.key.type],
      leBytes 8 item.key.offset, leBytes 4 item.offset, leBytes 4 item.size] := by
  have h : item.toBytes = [leBytes 8 item.key.objectid, [item.key.type],
      leBytes 8 item.key.offset, leBytes 4 item.offset, leBytes 4 item.size].flatten ++ [] := by
    simp [Item.toBytes, Key.toBytes]
  rw [h]
  exact fields_flatten (by simp [itemWidths]) []

theorem slice_header (ctx : NodeContext) (bytenr owner nritems : ℕ) (after : Bytes) :
    slice ((header ctx bytenr owner nritems).drop csumSize ++ after) 64 4 =
      some (leBytes 4 nritems) := by
  have hd : (header ctx bytenr owner nritems).drop csumSize =
      [ctx.fsid.bytes, leBytes 8 bytenr, leBytes 8 headerFlags, ctx.chunkUuid.bytes,
        leBytes 8 ctx.generation, leBytes 8 owner].flatten ++ leBytes 4 nritems ++ [0] := by
    rw [header]
    simp
  rw [hd, append_assoc _ [0] after, slice_append _ (length_leBytes ..)]
  simp [ctx.fsid.length_bytes, ctx.chunkUuid.length_bytes]

/-- What is read of an item, where the headers and the data do not meet. -/
theorem decodeItem_eq (h : buildNode crc32c ctx tree = .ok node)
    (hf : 101 + tree.items.length * 25 + tree.data.length ≤ nodesize) :
    slice node 96 4 = some (leBytes 4 tree.items.length) ∧
      ∀ (j : ℕ) (item : Item) (data : Bytes), tree.items[j]? = some item → item.key.Valid →
        item.offset < 2 ^ 32 → item.size < 2 ^ 32 →
        nodesize - tree.data.length ≤ 101 + item.offset → 101 + item.offset + item.size ≤ nodesize →
        tree.payload item = some data → decodeItem node j = some (item.key, data) := by
  obtain ⟨-, csum, hn⟩ := buildNode_eq_ok h
  have hh := length_drop_header ctx tree.logicalOffset tree.owner tree.items.length
  have hit := length_flatten_toBytes tree.items
  have hl : ∀ i len, i + len ≤ 69 + tree.items.length * 25 → slice node (32 + i) len =
      slice ((header ctx tree.logicalOffset tree.owner tree.items.length).drop csumSize ++
        (tree.items.map Item.toBytes).flatten) i len := by
    intro i len hi
    rw [hn, slice_put_of_disjoint (.inl (by rw [length_le32]; omega)),
      slice_put_of_disjoint (.inr (by omega))]
    refine slice_put_within ?_ ?_
    · rw [length_append, hh, length_zeros, csumSize]
      omega
    · rw [length_append]
      omega
  refine ⟨(hl 64 4 (by omega)).trans (slice_header ..), ?_⟩
  intro j item data hj hky ho hsz hst he hp
  have hjl := (List.getElem?_eq_some_iff.1 hj).1
  have hb : slice node (101 + j * 25) 25 = some item.toBytes := by
    have hpc : (tree.items.map Item.toBytes)[j]? = some item.toBytes := by
      rw [getElem?_map, hj]
      rfl
    have hs := slice_flatten_of_length (n := 25) (by simp) hpc []
    rw [append_nil] at hs
    have hlw := hl (69 + j * 25) 25 (by omega)
    rwa [slice_append_right hh, hs, ← Nat.add_assoc] at hlw
  have hd : slice node (101 + item.offset) item.size = some data := by
    rw [hn, slice_put_of_disjoint (.inl (by rw [length_le32]; omega)), ← hp,
      TreeResult.payload, leafDataOffset]
    obtain ⟨k, hk⟩ := Nat.le.dest hst
    rw [← hk, Nat.add_sub_cancel_left]
    refine slice_put_within ?_ (by omega)
    rw [length_put, length_zeros]
    omega
  rw [decodeItem, hb, Option.bind_eq_bind, Option.bind_some, fields_toBytes]
  simp only [ofLe_leBytes (show item.key.objectid < 256 ^ 8 by exact hky.1),
    ofLe_leBytes (show item.key.offset < 256 ^ 8 by exact hky.2),
    ofLe_leBytes (show item.offset < 256 ^ 4 by exact ho),
    ofLe_leBytes (show item.size < 256 ^ 4 by exact hsz), hd]
  rfl

/-! ## Leaves -/

/-- Where the items of a leaf may be, and that the data are used to their beginning. -/
theorem pack_bounds {currentOffset : ℕ} {items : List (Key × Bytes)} {packed : List Item}
    (h : pack currentOffset items = .ok packed) :
    (∀ item ∈ packed, item.key ∈ items.map Prod.fst ∧
      currentOffset ≤ item.offset + (items.map (·.2.length)).sum ∧
      item.offset + item.size ≤ currentOffset) ∧
    ((items.map (·.2.length)).sum ≠ 0 → ∃ item ∈ packed, item.size ≠ 0 ∧
      item.offset + (items.map (·.2.length)).sum = currentOffset) := by
  induction items generalizing currentOffset packed with
  | nil =>
    cases h
    exact ⟨nofun, fun hne => absurd rfl hne⟩
  | cons item rest ih =>
    obtain ⟨hle, others, ho, rfl⟩ := pack_cons_eq_ok h
    obtain ⟨ha, hl⟩ := ih ho
    simp only [map_cons, sum_cons]
    refine ⟨forall_mem_cons.2 ⟨⟨mem_cons_self, ?_, ?_⟩, fun item hi => ?_⟩,
      fun _ => ?_⟩
    · dsimp only
      omega
    · dsimp only
      omega
    · obtain ⟨hk, hlw, hh⟩ := ha item hi
      exact ⟨mem_cons_of_mem _ hk, by omega, by omega⟩
    · by_cases hrest : (rest.map (·.2.length)).sum = 0
      · exact ⟨_, mem_cons_self, by dsimp only; omega, by dsimp only; omega⟩
      · obtain ⟨item, hi, hs, hof⟩ := hl hrest
        exact ⟨item, mem_cons_of_mem _ hi, hs, by omega⟩

/-- An item that is added to a leaf. -/
structure LeafItem where
  objectid : UInt64
  type : UInt8
  offset : UInt64
  data : Bytes

def LeafItem.entry (item : LeafItem) : Key × Bytes :=
  (⟨item.objectid.toNat, item.type, item.offset.toNat⟩, item.data)

/-- **Nothing is lost** of these items, and no data are on the headers: they are read back in the
order of their keys, each with its own data. -/
structure Lossless (entries : List LeafItem) (headers : List Item) (node : Bytes) : Prop where
  decoded : ∃ items, decodeNode node = some items ∧ items.Perm (entries.map LeafItem.entry) ∧
    items.Pairwise fun left right => left.1.le right.1 = true ∧ left.1 ≠ right.1
  apart : ∀ item ∈ headers, item.size ≠ 0 → 101 + headers.length * 25 ≤ 101 + item.offset

/-- **Leaves are lossless** exactly if the headers and the data of the items fit together. -/
theorem leaf_lossless_iff (crc32c : Bytes → UInt32) (ctx : NodeContext)
    (logicalOffset owner : ℕ) (entries : List LeafItem) (leaf : List Item × Bytes)
    (node : Bytes) (hdistinct : (entries.map (·.entry.1)).Nodup)
    (hleaf : build (entries.map LeafItem.entry) = .ok leaf)
    (hnode : buildNode crc32c ctx ⟨logicalOffset, owner, leaf.1, leaf.2⟩ = .ok node) :
    Lossless entries leaf.1 node ↔
      101 + entries.length * 25 + (entries.map (·.data.length)).sum ≤ nodesize := by
  have hc := @contents_build _ logicalOffset owner _ hleaf
  obtain ⟨packed, hpc, hleaf⟩ := of_bind hleaf
  cases hleaf
  have hpr : (sorted (entries.map LeafItem.entry)).Perm (entries.map LeafItem.entry) :=
    mergeSort_perm ..
  have hsm : ((sorted (entries.map LeafItem.entry)).map (·.2.length)).sum =
      (entries.map (·.data.length)).sum := by
    rw [(hpr.map _).sum_nat, map_map]
    rfl
  have hlen : packed.length = entries.length := by
    have h := congrArg length hc
    rw [TreeResult.contents, length_map, length_map, hpr.length_eq, length_map] at h
    exact h
  obtain ⟨hb, hl⟩ := pack_bounds hpc
  rw [hsm] at hb hl
  obtain ⟨hr, -⟩ := buildNode_eq_ok hnode
  dsimp only at hr ⊢
  constructor
  · intro h
    by_cases hz : (entries.map (·.data.length)).sum = 0
    · omega
    · obtain ⟨item, hit, hsz, ho⟩ := hl hz
      have ha := h.apart item hit hsz
      rw [nodesize, leafDataOffset] at ho
      rw [nodesize]
      omega
  · intro hf
    have hd := length_stacked (sorted (entries.map LeafItem.entry))
    obtain ⟨hcn, hi⟩ := decodeItem_eq hnode (by dsimp only; rw [hlen]; omega)
    refine ⟨⟨sorted (entries.map LeafItem.entry), ?_, hpr, pairwise_sorted ?_⟩,
      fun item hit hsz => ?_⟩
    · rw [decodeNode, hcn, Option.bind_eq_bind, Option.bind_some, ofLe_leBytes (by
        dsimp only; rw [nodesize] at hr; omega)]
      have hs : packed.length = (sorted (entries.map LeafItem.entry)).length := by
        rw [hlen, hpr.length_eq, length_map]
      rw [hs]
      refine mapM_range_eq_some fun j entry hj => ?_
      have hm := congrArg (fun list => list[j]?) hc
      simp only [TreeResult.contents, getElem?_map, hj, Option.map_some, Option.map_eq_some_iff,
        Prod.mk.injEq] at hm
      obtain ⟨item, hit, hk, hp⟩ := hm
      obtain ⟨hmm, hlw, hh⟩ := hb item (mem_of_getElem? hit)
      rw [(hpr.map Prod.fst).mem_iff, map_map] at hmm
      obtain ⟨source, -, hsr⟩ := mem_map.1 hmm
      rw [nodesize, leafDataOffset] at hlw hh
      have hv : item.key.Valid := hsr ▸ ⟨source.objectid.toNat_lt, source.offset.toNat_lt⟩
      rw [hi j item entry.2 hit hv (by omega) (by omega)
        (by dsimp only; rw [nodesize]; omega) (by rw [nodesize]; omega) hp, hk]
    · rwa [map_map]
    · obtain ⟨-, hlw, hh⟩ := hb item hit
      rw [nodesize, leafDataOffset] at hlw
      rw [nodesize] at hf
      omega

/-- A file system of zeros. -/
def zeroContext : NodeContext := ⟨⟨zeros 16, rfl⟩, ⟨zeros 16, rfl⟩, 1⟩

/-- Two small items are read back. -/
theorem two_items_lossless : ∃ leaf node,
    build ([⟨1, 2, 3, [4]⟩, ⟨1, 1, 3, [5, 6]⟩].map LeafItem.entry) = .ok leaf ∧
      buildNode (fun _ => 0) zeroContext ⟨0, 1, leaf.1, leaf.2⟩ = .ok node ∧
      Lossless [⟨1, 2, 3, [4]⟩, ⟨1, 1, 3, [5, 6]⟩] leaf.1 node := by
  obtain ⟨leaf, hl, hlen, hd⟩ := @exists_build
    ([⟨1, 2, 3, [4]⟩, ⟨1, 1, 3, [5, 6]⟩].map LeafItem.entry) (by decide)
  obtain ⟨node, hn, -⟩ := @exists_buildNode (fun _ => 0) zeroContext ⟨0, 1, leaf.1, leaf.2⟩
    (by dsimp only; rw [hlen]; decide) hd
  exact ⟨leaf, node, hl, hn, (leaf_lossless_iff _ _ _ _ _ _ _ (by decide) hl hn).2 (by decide)⟩

/-- The data of one item reach down to the header of the node, and the item is read as another. -/
theorem header_overwritten :
    let entries : List LeafItem := [⟨1, 2, 3, zeros 16283⟩]
    ((build (entries.map LeafItem.entry) >>= fun leaf =>
      buildNode (fun _ => 0) zeroContext ⟨0, 1, leaf.1, leaf.2⟩).map decodeNode) =
        .ok (some [(⟨0, 0, 0⟩, [])]) := by
  decide +kernel

end Muak.Btrfs
