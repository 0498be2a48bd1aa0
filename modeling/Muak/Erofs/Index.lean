import Muak.Erofs.Compress

/-!
# The index entries of a compressed file

`has_representable_compact_indexes` of `libs/erofs/src/compress/chunk.rs`, `lcluster_count` of
`compress/model.rs` and `build_legacy_index_entries` of `writer/compressed.rs`. A file consists of
logical clusters of one block each; every one has an entry, which is a head where a cluster of the
layout begins and leads back to the head elsewhere.

* `start pclusters i` is where the `i`-th cluster begins in the file, `headLcn pclusters i` the
  number of the logical cluster with its head.
* `Representable`: every logical cluster has one head at most. That is what the check accepts
  (`representable_of_accepted`).
* `buildLegacyIndexEntries_spec`: the entry of every logical cluster.
* `buildLegacyIndexEntries_error`: a cluster of more than 65536 blocks is refused.

`usize` has 64 bits. Its checked sums are modelled with their errors; where the source saturates, it
adds numbers that are bounded by lengths in memory.
-/

namespace Muak.Erofs

open List Option

/-! ## Clusters of a layout -/

theorem pclusterSize_eq : pclusterSize = 4096 := rfl

section

variable (pclusters : List Pcluster) (layout : CompressedLayout)

/-- Where the `i`-th cluster begins. -/
def start (i : ℕ) : ℕ := ((pclusters.take i).map (·.inputLen)).sum

/-- The logical cluster in which the `i`-th cluster begins. -/
def headLcn (i : ℕ) : ℕ := start pclusters i / pclusterSize

@[simp] theorem start_zero : start pclusters 0 = 0 := rfl

@[simp] theorem headLcn_zero : headLcn pclusters 0 = 0 :=
  Nat.zero_div _

theorem start_succ {pclusters : List Pcluster} {i : ℕ} (hi : i < pclusters.length) :
    start pclusters (i + 1) = start pclusters i + pclusters[i].inputLen := by
  simp only [start, take_add_one, getElem?_eq_getElem hi, toList_some, map_append,
    sum_append, map_cons, map_nil, sum_cons, sum_nil,
    Nat.add_zero]

theorem start_length : start pclusters pclusters.length = (pclusters.map (·.inputLen)).sum := by
  rw [start, take_length]

theorem start_mono : Monotone (start pclusters) := by
  refine monotone_nat_of_le_succ fun i => ?_
  rw [start, start, take_add_one, map_append, sum_append]
  exact Nat.le_add_right _ _

theorem headLcn_mono : Monotone (headLcn pclusters) := fun _ _ h =>
  Nat.div_le_div_right (start_mono pclusters h)

theorem start_mod_lt (i : ℕ) : start pclusters i % pclusterSize < pclusterSize :=
  Nat.mod_lt _ pclusterSize_pos

/-- What lies between the ends of a sequence lies between two neighbours of it. -/
theorem exists_le_lt_succ {f : ℕ → ℕ} {k n : ℕ} (hf : f 0 ≤ k) (hto : k < f n) :
    ∃ i < n, f i ≤ k ∧ k < f (i + 1) := by
  induction n with
  | zero => exact absurd hto (not_lt.2 hf)
  | succ n ih =>
    obtain hlt | hge := lt_or_ge k (f n)
    · obtain ⟨i, hi, hbt⟩ := ih hlt
      exact ⟨i, Nat.lt_succ_of_lt hi, hbt⟩
    · exact ⟨n, Nat.lt_succ_self n, hge, hto⟩

/-- `lcluster_count`. -/
def lclusterCount : ℕ :=
  min ((layout.originalSize + (pclusterSize - 1)) / pclusterSize) (2 ^ 32 - 1)

/-- The loop of `has_representable_compact_indexes`: the last offset and the number of entries. -/
def countIndexes (single : Bool) : ℕ → ℕ → List Pcluster → Option (ℕ × ℕ)
  | clusterOffset, indexCount, [] => some (clusterOffset, indexCount)
  | clusterOffset, indexCount, pcluster :: pclusters =>
    let logicalBytes := clusterOffset + pcluster.inputLen
    if logicalBytes < pclusterSize then none
    else if pcluster.inputLen < pclusterSize ∧ ¬single then none
    else countIndexes single (logicalBytes % pclusterSize)
      (indexCount + logicalBytes / pclusterSize) pclusters

/-- The indexes of the parts are as many as the clusters. -/
def hasRepresentableCompactIndexes : Bool :=
  match countIndexes (layout.pclusters.length ≤ 1) 0 0 layout.pclusters with
  | none => false
  | some (clusterOffset, indexCount) =>
    (if clusterOffset ≠ 0 then indexCount + 1 else indexCount) == lclusterCount layout

/-- Every cluster has a logical cluster of its own, the one with its head. -/
def Representable : Prop :=
  ∀ i < pclusters.length, headLcn pclusters i < headLcn pclusters (i + 1)

end

variable {pclusters : List Pcluster}

/-- The loop counts the logical clusters up to the end of the file. -/
theorem countIndexes_eq_some {single : Bool} {i count clusterOffset indexCount : ℕ}
    (hi : i ≤ pclusters.length)
    (h : countIndexes single (start pclusters i % pclusterSize) count (pclusters.drop i) =
      some (clusterOffset, indexCount)) :
    clusterOffset = start pclusters pclusters.length % pclusterSize ∧
    indexCount + headLcn pclusters i = count + headLcn pclusters pclusters.length ∧
    ∀ j, i ≤ j → j < pclusters.length → headLcn pclusters j < headLcn pclusters (j + 1) := by
  induction hrest : pclusters.length - i generalizing i count with
  | zero =>
    obtain rfl : i = pclusters.length := by omega
    rw [drop_length] at h
    obtain ⟨rfl, rfl⟩ := Prod.mk.inj (some.inj h)
    exact ⟨rfl, rfl, fun j hij hj => absurd hj (Nat.not_lt.2 hij)⟩
  | succ rest ih =>
    have hlt : i < pclusters.length := by omega
    have hs := start_succ hlt
    rw [drop_eq_getElem_cons hlt, countIndexes] at h
    split_ifs at h with hl _
    rw [Nat.mod_add_mod, ← hs] at h
    obtain ⟨ho, hc, hm⟩ := ih hlt h (by omega)
    simp only [headLcn, pclusterSize_eq, Nat.succ_eq_add_one] at *
    refine ⟨ho, by omega, fun j hij hj => ?_⟩
    obtain rfl | hij := hij.eq_or_lt
    · omega
    · exact hm j hij hj

variable {layout : CompressedLayout}

/-- **What the check accepts**: logical clusters with one head each, few enough to be counted. -/
theorem representable_of_accepted
    (ht : (layout.pclusters.map (·.inputLen)).sum = layout.originalSize)
    (ha : hasRepresentableCompactIndexes layout) :
    Representable layout.pclusters ∧ layout.originalSize < 2 ^ 44 ∧
    lclusterCount layout = (layout.originalSize + 4095) / 4096 := by
  unfold hasRepresentableCompactIndexes at ha
  split at ha
  · simp at ha
  · next clusterOffset indexCount hc =>
    obtain ⟨ho, hid, hm⟩ := @countIndexes_eq_some layout.pclusters _ 0 _ _ _ (Nat.zero_le _) hc
    refine ⟨fun i hi => hm i (Nat.zero_le i) hi, ?_⟩
    simp only [headLcn, start_zero, start_length, beq_iff_eq, lclusterCount, pclusterSize_eq] at *
    constructor <;> split_ifs at ha <;> omega

/-! ## The entries -/

/-- What a cluster begins with. -/
inductive ClusterType
  | plain
  | head1
  | nonhead
deriving DecidableEq

/-- `Z_EROFS_LCLUSTER_TYPE_PLAIN`, `Z_EROFS_LCLUSTER_TYPE_HEAD1` and
`Z_EROFS_LCLUSTER_TYPE_NONHEAD`. -/
def ClusterType.code : ClusterType → ℕ
  | .plain => 0
  | .head1 => 1
  | .nonhead => 2

/-- `Z_EROFS_LI_D0_CBLKCNT`: the bit of an entry that has a number of blocks in place of a
distance. -/
def cblkcnt : ℕ := 2 ^ 11

structure LegacyIndexEntry where
  clustertype : ClusterType
  clusterofs : ℕ
  blkaddr : ℕ
  delta0 : ℕ
  delta1 : ℕ
deriving DecidableEq

namespace LegacyIndexEntry

def plain (clusterofs blkaddr : ℕ) : LegacyIndexEntry := ⟨.plain, clusterofs, blkaddr, 0, 0⟩

def head (clusterofs blkaddr : ℕ) : LegacyIndexEntry := ⟨.head1, clusterofs, blkaddr, 0, 0⟩

def nonhead (delta0 delta1 : ℕ) : LegacyIndexEntry := ⟨.nonhead, 0, 0, delta0, delta1⟩

def zero : LegacyIndexEntry := plain 0 0

end LegacyIndexEntry

/-- `checked_add` of `usize`. -/
def add (lhs rhs : ℕ) : Option ℕ := if lhs + rhs < 2 ^ 64 then some (lhs + rhs) else none

def u16FromUsize (value : ℕ) : Option ℕ := if value < 2 ^ 16 then some value else none

/-- A number as a block address: `u32`, which saturates. -/
def blockAddr (n : ℕ) : ℕ := min n (2 ^ 32 - 1)

/-- The entry that the loop over a cluster pushes. -/
def pushedEntry (headClusterOffset blkaddr delta0 delta1 : ℕ) : Result LegacyIndexEntry :=
  match delta0 with
  | 0 => .ok (.head headClusterOffset blkaddr)
  | 1 => do
    let delta1 ← okOr (u16FromUsize delta1) (.internal "delta1 does not fit u16")
    .ok (.nonhead (cblkcnt ||| 1) delta1)
  | delta0 => do
    let delta0 ← okOr (u16FromUsize (min delta0 (cblkcnt - 1)))
      (.internal "delta0 does not fit u16")
    let delta1 ← okOr (u16FromUsize delta1) (.internal "delta1 does not fit u16")
    .ok (.nonhead delta0 delta1)

/-- The loop over the blocks of a cluster: the entries, and the offset and count it ends with. -/
def pushIndexes (headClusterOffset blkaddr localClusterOffset remainingCount delta0 delta1 : ℕ) :
    Result (List LegacyIndexEntry × ℕ × ℕ) :=
  if (add localClusterOffset remainingCount).any (pclusterSize ≤ ·) then do
    let entry ← pushedEntry headClusterOffset blkaddr delta0 delta1
    let (entries, rest) ← pushIndexes headClusterOffset blkaddr 0
      (remainingCount - (pclusterSize - localClusterOffset)) (delta0 + 1) (delta1 - 1)
    .ok (entry :: entries, rest)
  else .ok ([], localClusterOffset, remainingCount)
termination_by localClusterOffset + remainingCount
decreasing_by
  rename_i h
  obtain ⟨value, hvalue, hle⟩ := (any_eq_true _ _).1 h
  have hle : pclusterSize ≤ value := of_decide_eq_true hle
  unfold add at hvalue
  split_ifs at hvalue
  simp only [some.injEq, pclusterSize_eq] at *
  omega

/-- The loop over the clusters: the entries, and the offset at the end. -/
def pushPclusters : ℕ → ℕ → List Pcluster → Result (List LegacyIndexEntry × ℕ)
  | clusterOffset, _, [] => .ok ([], clusterOffset)
  | clusterOffset, blkaddr, pcluster :: pclusters => do
    let delta1 ← okOr ((add clusterOffset pcluster.inputLen).map (· / pclusterSize))
      (.internal "logical cluster size overflow")
    let headClusterOffset ← okOr (u16FromUsize clusterOffset)
      (.internal "head cluster offset does not fit u16")
    let (pushed, localClusterOffset, remainingCount) ←
      if delta1 = 0 then
        .ok ([.head headClusterOffset blkaddr], clusterOffset, pcluster.inputLen)
      else pushIndexes headClusterOffset blkaddr clusterOffset pcluster.inputLen 0 delta1
    let clusterOffset ← okOr (add localClusterOffset remainingCount)
      (.internal "cluster offset overflow")
    let (entries, clusterOffset) ← pushPclusters clusterOffset (blockAddr (blkaddr + 1)) pclusters
    .ok (pushed ++ entries, clusterOffset)

/-- The indexes of all clusters, with one for the tail. -/
def buildLegacyIndexEntries (layout : CompressedLayout) (startBlkaddr : ℕ) :
    Result (List LegacyIndexEntry) := do
  let (entries, clusterOffset) ← pushPclusters 0 startBlkaddr layout.pclusters
  if clusterOffset ≠ 0 then do
    let clusterofs ← okOr (u16FromUsize clusterOffset)
      (.internal "tail cluster offset does not fit u16")
    .ok (entries ++ [.plain clusterofs 0])
  else .ok entries

/-! ## What the entries are -/

/-- The entry of the `d`-th of the `lclusters` logical clusters of a cluster. -/
def entryAt (clusterofs blkaddr lclusters d : ℕ) : LegacyIndexEntry :=
  match d with
  | 0 => .head clusterofs blkaddr
  | 1 => .nonhead (cblkcnt ||| 1) (lclusters - 1)
  | d => .nonhead (min d (cblkcnt - 1)) (lclusters - d)

theorem pushedEntry_eq {clusterofs blkaddr lclusters delta0 : ℕ}
    (h : delta0 ≠ 0 → lclusters - delta0 < 2 ^ 16) :
    pushedEntry clusterofs blkaddr delta0 (lclusters - delta0) =
      .ok (entryAt clusterofs blkaddr lclusters delta0) := by
  have hdelta0 : min delta0 (cblkcnt - 1) < 2 ^ 16 := (min_le_right _ _).trans_lt (by decide)
  unfold pushedEntry entryAt
  split
  · rfl
  · rw [u16FromUsize, if_pos (h (by decide))]
    rfl
  · next hne _ =>
    rw [u16FromUsize, if_pos hdelta0, u16FromUsize, if_pos (h hne)]
    rfl

theorem any_add_iff {a b : ℕ} (h : a + b < 2 ^ 64) :
    (add a b).any (pclusterSize ≤ ·) ↔ 1 ≤ (a + b) / pclusterSize := by
  rw [add, if_pos h, any_some, decide_eq_true_eq, Nat.one_le_div_iff (by decide)]

/-- The entries of a cluster, from the `delta0`-th on. -/
theorem pushIndexes_eq {clusterofs blkaddr lclusters : ℕ} (hl : lclusters ≤ 2 ^ 16)
    {localOffset remaining delta0 : ℕ} (hlc : localOffset ≤ pclusterSize)
    (hlt : localOffset + remaining < 2 ^ 64)
    (hdelta0 : delta0 + (localOffset + remaining) / pclusterSize = lclusters) :
    ∃ rest, pushIndexes clusterofs blkaddr localOffset remaining delta0 (lclusters - delta0) =
        .ok ((range' delta0 ((localOffset + remaining) / pclusterSize)).map
          (entryAt clusterofs blkaddr lclusters), rest) ∧
      rest.1 + rest.2 = (localOffset + remaining) % pclusterSize := by
  obtain ⟨count, hc⟩ : ∃ count, (localOffset + remaining) / pclusterSize = count := ⟨_, rfl⟩
  rw [hc] at hdelta0 ⊢
  induction count generalizing localOffset remaining delta0 with
  | zero =>
    have he : ¬(add localOffset remaining).any (pclusterSize ≤ ·) := by
      rw [any_add_iff hlt, hc]
      decide
    refine ⟨(localOffset, remaining), ?_, ?_⟩
    · rw [pushIndexes, if_neg he]
      rfl
    · exact (Nat.mod_eq_of_lt ((Nat.div_eq_zero_iff_lt (by decide)).1 hc)).symm
  | succ count ih =>
    have hm : (add localOffset remaining).any (pclusterSize ≤ ·) := by
      rw [any_add_iff hlt, hc]
      exact Nat.le_add_left 1 count
    -- the next turn begins at a block
    have hrest : 0 + (remaining - (pclusterSize - localOffset)) =
        localOffset + remaining - pclusterSize := by
      omega
    obtain ⟨rest, hp, hr⟩ := @ih 0 (remaining - (pclusterSize - localOffset))
      (delta0 + 1) (Nat.zero_le _) (by omega) (by omega)
      (by rw [hrest]; simp only [pclusterSize_eq] at *; omega)
    refine ⟨rest, ?_, ?_⟩
    · rw [pushIndexes, if_pos hm, pushedEntry_eq (by omega), Nat.sub_sub, hp]
      rfl
    · rw [hr]
      simp only [pclusterSize_eq] at *
      omega

/-- A cluster that is too long is refused at its second entry. -/
theorem pushIndexes_error {clusterofs blkaddr clusterOffset inputLen : ℕ}
    (ho : clusterOffset < pclusterSize) (hlt : clusterOffset + inputLen < 2 ^ 64)
    (hl : 2 ^ 16 < (clusterOffset + inputLen) / pclusterSize) :
    pushIndexes clusterofs blkaddr clusterOffset inputLen 0
      ((clusterOffset + inputLen) / pclusterSize) =
        .error (.internal "delta1 does not fit u16") := by
  have hn : (clusterOffset + inputLen) / pclusterSize =
      (0 + (inputLen - (pclusterSize - clusterOffset))) / pclusterSize + 1 := by
    simp only [pclusterSize_eq] at *
    omega
  have hdelta1 : ¬(clusterOffset + inputLen) / pclusterSize - 1 < 2 ^ 16 := by omega
  rw [pushIndexes, if_pos ((any_add_iff hlt).2 (by omega)), pushIndexes,
    if_pos ((any_add_iff (by omega)).2 (by omega))]
  simp only [pushedEntry, u16FromUsize, if_neg hdelta1]
  rfl

/-- The number of logical clusters with an entry of the `i`-th cluster. -/
def lclusters (pclusters : List Pcluster) (i : ℕ) : ℕ :=
  headLcn pclusters (i + 1) - headLcn pclusters i

/-- The entries of the `i`-th cluster of a file whose first block is `b`. -/
def clusterEntries (pclusters : List Pcluster) (b i : ℕ) : List LegacyIndexEntry :=
  (range' 0 (lclusters pclusters i)).map
    (entryAt (start pclusters i % pclusterSize) (blockAddr (b + i)) (lclusters pclusters i))

theorem blockAddr_add (m n : ℕ) : blockAddr (blockAddr m + n) = blockAddr (m + n) := by
  unfold blockAddr
  omega

variable {b i : ℕ}

/-- **One turn of the loop over the clusters.** -/
theorem pushPclusters_drop (hi : i < pclusters.length) (hlt : start pclusters (i + 1) < 2 ^ 64)
    (hl : headLcn pclusters i < headLcn pclusters (i + 1)) :
    pushPclusters (start pclusters i % pclusterSize) (blockAddr (b + i)) (pclusters.drop i) =
      if lclusters pclusters i ≤ 2 ^ 16 then
        (pushPclusters (start pclusters (i + 1) % pclusterSize) (blockAddr (b + (i + 1)))
          (pclusters.drop (i + 1))).map fun rest => (clusterEntries pclusters b i ++ rest.1, rest.2)
      else .error (.internal "delta1 does not fit u16") := by
  have hsc := start_succ hi
  have ho := start_mod_lt pclusters i
  have hu16 : start pclusters i % pclusterSize < 2 ^ 16 := ho.trans (by decide)
  have hsm : start pclusters i % pclusterSize + pclusters[i].inputLen < 2 ^ 64 :=
    (Nat.add_le_add_right (Nat.mod_le _ _) _).trans_lt (hsc ▸ hlt)
  have hc : (start pclusters i % pclusterSize + pclusters[i].inputLen) / pclusterSize =
      lclusters pclusters i := by
    simp only [lclusters, headLcn, pclusterSize_eq] at *
    omega
  have hps : lclusters pclusters i ≠ 0 := by
    rw [lclusters]
    omega
  rw [drop_eq_getElem_cons hi, pushPclusters]
  simp only [add, u16FromUsize, if_pos hsm, if_pos hu16, map_some, okOr_some, ok_bind, hc,
    hps, if_false]
  split_ifs with hs
  · obtain ⟨rest, hp, hrest⟩ := @pushIndexes_eq (start pclusters i % pclusterSize)
      (blockAddr (b + i)) _ hs (start pclusters i % pclusterSize) pclusters[i].inputLen 0
      ho.le hsm ((Nat.zero_add _).trans hc)
    rw [hc, Nat.sub_zero] at hp
    have hen : rest.1 + rest.2 = start pclusters (i + 1) % pclusterSize := by
      rw [hrest, Nat.mod_add_mod, hsc]
    have he : start pclusters (i + 1) % pclusterSize < 2 ^ 64 :=
      (start_mod_lt pclusters (i + 1)).trans (by decide)
    rw [hp]
    simp only [ok_bind, hen, if_pos he, blockAddr_add]
    exact bind_ok_eq_map _ _
  · rw [← hc, pushIndexes_error ho hsm (hc ▸ not_le.1 hs)]
    rfl

section

variable (hrep : Representable pclusters) (hlt : start pclusters pclusters.length < 2 ^ 64)

include hrep hlt

/-- The loop over the clusters succeeds when none is too long. -/
theorem pushPclusters_eq (hs : ∀ j < pclusters.length, lclusters pclusters j ≤ 2 ^ 16)
    (hi : i ≤ pclusters.length) :
    pushPclusters (start pclusters i % pclusterSize) (blockAddr (b + i)) (pclusters.drop i) =
      .ok ((range' i (pclusters.length - i)).flatMap (clusterEntries pclusters b),
        start pclusters pclusters.length % pclusterSize) := by
  induction hrest : pclusters.length - i generalizing i with
  | zero =>
    obtain rfl : i = pclusters.length := by omega
    rw [drop_length]
    rfl
  | succ rest ih =>
    have hil : i < pclusters.length := by omega
    rw [pushPclusters_drop hil ((start_mono pclusters hil).trans_lt hlt) (hrep i hil),
      if_pos (hs i hil), ih hil (by omega)]
    rfl

theorem pushPclusters_error {j : ℕ} (hl : 2 ^ 16 < lclusters pclusters j)
    (hj : j < pclusters.length) (hi : i ≤ j) :
    pushPclusters (start pclusters i % pclusterSize) (blockAddr (b + i)) (pclusters.drop i) =
      .error (.internal "delta1 does not fit u16") := by
  induction hrest : j - i generalizing i with
  | zero =>
    obtain rfl : i = j := by omega
    rw [pushPclusters_drop hj ((start_mono pclusters hj).trans_lt hlt) (hrep i hj),
      if_neg (Nat.not_le.2 hl)]
  | succ rest ih =>
    have hil : i < pclusters.length := by omega
    rw [pushPclusters_drop hil ((start_mono pclusters hil).trans_lt hlt) (hrep i hil),
      @ih (i + 1) (by omega) (by omega)]
    split_ifs <;> rfl

end

/-- Lists one after another, with the positions at which they begin. -/
theorem getElem?_flatMap_range {α : Type} {f : ℕ → List α} {pos : ℕ → ℕ} {n : ℕ}
    (hz : pos 0 = 0) (hs : ∀ i < n, pos (i + 1) = pos i + (f i).length) :
    ((range n).flatMap f).length = pos n ∧
      ∀ i < n, ∀ d < (f i).length, ((range n).flatMap f)[pos i + d]? = (f i)[d]? := by
  induction n with
  | zero => exact ⟨hz.symm, fun i hi => absurd hi (Nat.not_lt_zero i)⟩
  | succ n ih =>
    obtain ⟨hlen, hget⟩ := ih fun i hi => hs i (by omega)
    rw [range_succ, flatMap_append, flatMap_singleton]
    refine ⟨by rw [length_append, hlen, hs n (by omega)], fun i hi d hd => ?_⟩
    obtain rfl | hi := (Nat.le_of_lt_succ hi).eq_or_lt
    · rw [getElem?_append_right (by omega), hlen, Nat.add_sub_cancel_left]
    · rw [← hget i hi d hd, getElem?_append_left]
      exact (List.getElem?_eq_some_iff.1 ((hget i hi d hd).trans (getElem?_eq_getElem hd))).1

/-- The entries of the logical clusters of a file whose first block is `b`. -/
structure HasEntries (pclusters : List Pcluster) (b : ℕ) (entries : List LegacyIndexEntry) :
    Prop where
  length_eq : entries.length = (start pclusters pclusters.length + 4095) / 4096
  entry : ∀ i < pclusters.length, ∀ d < lclusters pclusters i,
    entries[headLcn pclusters i + d]? = some (entryAt (start pclusters i % pclusterSize)
      (blockAddr (b + i)) (lclusters pclusters i) d)
  tail : start pclusters pclusters.length % pclusterSize ≠ 0 →
    entries[headLcn pclusters pclusters.length]? =
      some (.plain (start pclusters pclusters.length % pclusterSize) 0)

/-- The entries of the clusters, without the last one. -/
theorem flatMap_clusterEntries (hrep : Representable pclusters) :
    ((range pclusters.length).flatMap (clusterEntries pclusters b)).length =
      headLcn pclusters pclusters.length ∧
    ∀ i < pclusters.length, ∀ d < lclusters pclusters i,
      ((range pclusters.length).flatMap (clusterEntries pclusters b))[
        headLcn pclusters i + d]? = some (entryAt (start pclusters i % pclusterSize)
          (blockAddr (b + i)) (lclusters pclusters i) d) := by
  have hlen : ∀ i, (clusterEntries pclusters b i).length = lclusters pclusters i := fun i => by
    rw [clusterEntries, length_map, length_range']
  obtain ⟨ht, hget⟩ := @getElem?_flatMap_range _ (clusterEntries pclusters b)
    (headLcn pclusters) pclusters.length (headLcn_zero _)
    (fun i hi => by rw [hlen, lclusters]; have := hrep i hi; omega)
  refine ⟨ht, fun i hi d hd => ?_⟩
  rw [hget i hi d (by rwa [hlen]), clusterEntries, getElem?_map,
    getElem?_range' hd, map_some, Nat.zero_add, Nat.one_mul]

section

variable (hrep : Representable layout.pclusters)
  (hlt : start layout.pclusters layout.pclusters.length < 2 ^ 64) (hb : b < 2 ^ 32)

include hrep hlt hb

/-- **The entries of a layout**, when no cluster is too long. -/
theorem buildLegacyIndexEntries_spec
    (hs : ∀ i < layout.pclusters.length, lclusters layout.pclusters i ≤ 2 ^ 16) :
    ∃ entries, buildLegacyIndexEntries layout b = .ok entries ∧
      HasEntries layout.pclusters b entries := by
  have hp := @pushPclusters_eq layout.pclusters b 0 hrep hlt hs (Nat.zero_le _)
  rw [start_zero, Nat.zero_mod, Nat.add_zero, drop_zero, Nat.sub_zero, ← range_eq_range', blockAddr,
    min_eq_left (Nat.le_sub_one_of_lt hb)] at hp
  obtain ⟨hlen, hget⟩ := @flatMap_clusterEntries layout.pclusters b hrep
  rw [buildLegacyIndexEntries, hp]
  simp only [ok_bind]
  split_ifs with ht
  · have hu16 : start layout.pclusters layout.pclusters.length % pclusterSize < 2 ^ 16 :=
      (start_mod_lt _ _).trans (by decide)
    refine ⟨_, by rw [u16FromUsize, if_pos hu16]; rfl, ?_, fun i hi d hd => ?_, fun _ => ?_⟩
    · simp only [length_append, length_singleton, headLcn, pclusterSize_eq] at *
      omega
    · rw [← hget i hi d hd, getElem?_append_left]
      exact (List.getElem?_eq_some_iff.1 (hget i hi d hd)).1
    · rw [getElem?_append_right hlen.le, hlen, Nat.sub_self]
      rfl
  · refine ⟨_, rfl, ?_, hget, fun h => absurd h ht⟩
    simp only [headLcn, pclusterSize_eq] at *
    omega

/-- A layout with a cluster that is too long is refused. -/
theorem buildLegacyIndexEntries_error (hi : i < layout.pclusters.length)
    (hl : 2 ^ 16 < lclusters layout.pclusters i) :
    buildLegacyIndexEntries layout b = .error (.internal "delta1 does not fit u16") := by
  have hp := @pushPclusters_error layout.pclusters b 0 hrep hlt i hl hi (Nat.zero_le i)
  rw [start_zero, Nat.zero_mod, Nat.add_zero, drop_zero, blockAddr,
    min_eq_left (Nat.le_sub_one_of_lt hb)] at hp
  rw [buildLegacyIndexEntries, hp]
  rfl

end

end Muak.Erofs
