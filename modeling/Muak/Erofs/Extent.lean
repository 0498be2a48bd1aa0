import Muak.Erofs.Pack

/-!
# Reading compact indexes

How a reader of the file system finds the data of a byte of a compressed file, from the bytes alone:
the rule of the format, to which the writer is compared.

* `locate`: the pack and the position in it of a logical cluster's index.
* `loadLcluster`: the index of a logical cluster. A head's address is counted from the address of
  its pack, over the clusters that earlier indexes of the pack account for (`accounted`).
* `lookup`: from the logical cluster of a byte back to the head, over any number of steps.
* `lookup_eq`: where every logical cluster has its index (`Indexed`), every byte is found in its own
  cluster.
-/

namespace Muak.Erofs

open Muak.Bytes Muak.BitField Nat

/-! ## Indexes of a pack -/

/-- An index as it stands in a pack. -/
inductive Index
  | plain (clusterofs : ℕ)
  | head (clusterofs : ℕ)
  | blocks (count : ℕ)
  | back (lo : ℕ)
deriving DecidableEq

/-- Twelve bits of offset or distance, then two bits of type. -/
def indexAt (kind : PackKind) (pack : Bytes) (i : ℕ) : Index :=
  let lo := readBits pack (i * kind.encodebits) 12
  match readBits pack (i * kind.encodebits + 12) 2 with
  | 0 => .plain lo
  | 2 => if cblkcnt ≤ lo then .blocks (lo - cblkcnt) else .back lo
  | _ => .head lo

/-- The blocks of the cluster that an index accounts for. A head is left to the number of blocks
that follows it, if there is one. -/
def Index.accounts : Index → Option Index → ℕ
  | .blocks count, _ => count
  | .back _, _ => 0
  | _, some (.blocks _) => 0
  | _, _ => 1

/-- The blocks that indexes account for. -/
def accounted : List Index → ℕ
  | [] => 0
  | index :: indexes => index.accounts indexes.head? + accounted indexes

/-- The address of the head at a position: what precedes it in the pack is counted from the pack's
own address. -/
def headAddr (kind : PackKind) (pack : Bytes) (i : ℕ) : Option ℕ := do
  let base ← slice pack (kind.bytes - 4) 4
  some ((ofLe base + accounted ((List.range i).map (indexAt kind pack))) % 2 ^ 32)

/-- The distance of the last index of a pack is one more than that of the index before it. -/
def delta0At (kind : PackKind) (pack : Bytes) (i lo : ℕ) : ℕ :=
  if i + 1 < kind.count then lo
  else match indexAt kind pack (i - 1) with
    | .blocks _ => 2
    | .back lo => lo + 1
    | _ => 1

/-- The index of a logical cluster. -/
inductive Lcluster
  | head (compressed : Bool) (clusterofs blkaddr : ℕ)
  | nonhead (delta0 : ℕ)
deriving DecidableEq

/-- Numbers of blocks are allowed in files with large clusters only. -/
def lclusterAt (bigPcluster : Bool) (kind : PackKind) (pack : Bytes) (i : ℕ) : Option Lcluster :=
  match indexAt kind pack i with
  | .plain clusterofs => (headAddr kind pack i).map (.head false clusterofs)
  | .head clusterofs => (headAddr kind pack i).map (.head true clusterofs)
  | .blocks _ => if bigPcluster then some (.nonhead 1) else none
  | .back lo => some (.nonhead (delta0At kind pack i lo))

/-! ## Indexes of a file -/

/-- The pack of a logical cluster, its offset behind `ebase`, and the position in it: packs of two
up to a multiple of 32 bytes, then as many packs of sixteen as there are entries for, then packs of
two. -/
def locate (compacted2b : Bool) (totalidx ebase lcn : ℕ) : PackKind × ℕ × ℕ :=
  let initial := (32 - ebase % 32) / 4 % 8
  let sixteens := if compacted2b ∧ initial < totalidx then (totalidx - initial) / 16 else 0
  if lcn < initial then (.two, lcn / 2 * 8, lcn % 2)
  else if lcn < initial + sixteens * 16 then
    (.sixteen, initial / 2 * 8 + (lcn - initial) / 16 * 32, (lcn - initial) % 16)
  else
    (.two, initial / 2 * 8 + sixteens * 32 + (lcn - initial - sixteens * 16) / 2 * 8,
      (lcn - initial - sixteens * 16) % 2)

/-- Where the map header of an inode stands. -/
def mapHeaderOff (slotOffset xattrSize : ℕ) : ℕ :=
  (slotOffset + compactInodeSize + xattrSize + 7) / 8 * 8

/-- The index of a logical cluster of a file of `size` bytes. -/
def loadLcluster (buf : Bytes) (header size lcn : ℕ) : Option Lcluster := do
  let advise ← slice buf (header + 4) 2
  let ebase := header + zErofsMapHeaderSize
  let (kind, offset, i) := locate ((ofLe advise).testBit 0) ((size + 4095) / 4096) ebase lcn
  let pack ← slice buf (ebase + offset) kind.bytes
  lclusterAt ((ofLe advise).testBit 1) kind pack i

/-- Where the data of a byte are: the first byte of their cluster and its block. -/
structure Extent where
  compressed : Bool
  start : ℕ
  blkaddr : ℕ
deriving DecidableEq

section

variable (load : ℕ → Option Lcluster)

/-- Back from a logical cluster by a distance, and on to the head. -/
def lookBack (lcn delta : ℕ) : Option Extent :=
  if 0 < delta ∧ delta ≤ lcn then
    match load (lcn - delta) with
    | some (.head compressed clusterofs blkaddr) =>
      some ⟨compressed, (lcn - delta) * pclusterSize + clusterofs, blkaddr⟩
    | some (.nonhead delta0) => lookBack (lcn - delta) delta0
    | none => none
  else none
termination_by lcn

/-- The extent that a byte is in, from the indexes. -/
def lookup (offset : ℕ) : Option Extent :=
  let lcn := offset / pclusterSize
  match load lcn with
  | some (.head compressed clusterofs blkaddr) =>
    if clusterofs ≤ offset % pclusterSize then
      some ⟨compressed, lcn * pclusterSize + clusterofs, blkaddr⟩
    else lookBack load lcn 1
  | some (.nonhead delta0) => lookBack load lcn delta0
  | none => none

end

/-! ## Files in which every byte is found -/

section

variable {load : ℕ → Option Lcluster} {pclusters : List Pcluster} {addr : ℕ → ℕ} {i : ℕ}

/-- Every logical cluster has its index: the head at the first one of a cluster, then indexes that
lead back and not too far, and an index at the end that ends the last cluster. -/
structure Indexed (load : ℕ → Option Lcluster) (pclusters : List Pcluster) (addr : ℕ → ℕ) :
    Prop where
  head : ∀ i < pclusters.length, load (headLcn pclusters i) =
    some (.head true (start pclusters i % pclusterSize) (addr i))
  nonhead : ∀ i < pclusters.length, ∀ d, 0 < d → d < lclusters pclusters i →
    ∃ delta0, load (headLcn pclusters i + d) = some (.nonhead delta0) ∧ 0 < delta0 ∧ delta0 ≤ d
  tail : start pclusters pclusters.length % pclusterSize ≠ 0 →
    ∃ compressed blkaddr, load (headLcn pclusters pclusters.length) =
      some (.head compressed (start pclusters pclusters.length % pclusterSize) blkaddr)

/-- From any logical cluster of a cluster back to its head. -/
theorem Indexed.lookBack_eq (h : Indexed load pclusters addr) (hi : i < pclusters.length)
    {lcn delta : ℕ} (hdl : 0 < delta) (hle : headLcn pclusters i + delta ≤ lcn)
    (hlt : lcn - delta < headLcn pclusters (i + 1)) :
    lookBack load lcn delta = some ⟨true, start pclusters i, addr i⟩ := by
  induction lcn using Nat.strong_induction_on generalizing delta with
  | _ lcn ih =>
    rw [lookBack, if_pos ⟨hdl, by omega⟩]
    obtain hd | hd := Nat.eq_zero_or_pos (lcn - delta - headLcn pclusters i)
    · rw [show lcn - delta = headLcn pclusters i by omega, h.head i hi]
      simp only [Option.some.injEq, Extent.mk.injEq, and_true, true_and]
      exact div_add_mod' _ _
    · obtain ⟨delta0, hl, hp, hb⟩ := h.nonhead i hi _ hd (by rw [lclusters]; omega)
      rw [show headLcn pclusters i + (lcn - delta - headLcn pclusters i) = lcn - delta by omega]
        at hl
      rw [hl]
      exact ih (lcn - delta) (by omega) hp (by omega) (by omega)

/-- **Every byte is found in the cluster that contains it.** -/
theorem Indexed.lookup_eq (h : Indexed load pclusters addr) (hr : Representable pclusters)
    (hi : i < pclusters.length) {offset : ℕ} (hs : start pclusters i ≤ offset)
    (he : offset < start pclusters (i + 1)) :
    lookup load offset = some ⟨true, start pclusters i, addr i⟩ := by
  have hlc := hr i hi
  have hfr : headLcn pclusters i ≤ offset / pclusterSize := Nat.div_le_div_right hs
  have hto : offset / pclusterSize ≤ headLcn pclusters (i + 1) := Nat.div_le_div_right he.le
  rw [lookup]
  obtain hf | hl := hfr.eq_or_lt
  · -- the head is in the same block, not behind the byte
    have ho : start pclusters i % pclusterSize ≤ offset % pclusterSize := by
      simp only [headLcn, pclusterSize_eq] at *
      omega
    rw [← hf, h.head i hi]
    simp only [ho, if_true, Option.some.injEq, Extent.mk.injEq, and_true, true_and]
    exact div_add_mod' _ _
  · obtain hn | hins := hto.eq_or_lt
    · -- the index is the one of the next cluster, which begins behind the byte
      have ho : ¬start pclusters (i + 1) % pclusterSize ≤ offset % pclusterSize := by
        simp only [headLcn, pclusterSize_eq] at *
        omega
      have hld : ∃ compressed blkaddr, load (headLcn pclusters (i + 1)) =
          some (.head compressed (start pclusters (i + 1) % pclusterSize) blkaddr) := by
        obtain hls | hls := (succ_le_of_lt hi).eq_or_lt
        · rw [succ_eq_add_one] at hls
          rw [hls]
          exact h.tail (by rw [← hls]; omega)
        · exact ⟨_, _, h.head (i + 1) hls⟩
      obtain ⟨compressed, blkaddr, hld⟩ := hld
      rw [hn, hld]
      simp only [ho]
      exact h.lookBack_eq hi one_pos (by omega) (by omega)
    · obtain ⟨delta0, hld, hp, hb⟩ :=
        h.nonhead i hi (offset / pclusterSize - headLcn pclusters i) (by omega)
          (by rw [lclusters]; omega)
      rw [Nat.add_sub_cancel' hfr] at hld
      rw [hld]
      exact h.lookBack_eq hi hp (by omega) (by omega)

end

end Muak.Erofs
