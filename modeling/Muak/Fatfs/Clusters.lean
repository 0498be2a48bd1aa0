import Muak.Fatfs.Entry
import Muak.Foundations.Blocks

/-!
# Clusters and the table

`libs/fatfs/src/builder/clusters.rs` and `table.rs`: the directories and then the files get
consecutive clusters, and the table links the clusters of each.

* `assigned_of_assignClusters`: what is known of an allocation that succeeds.
* `getElem?_fillFatChains`: the entries of the table after the chains are filled in.
* `makeFat_spec`: the table of an allocation.
-/

namespace Muak.Fatfs

open U64 Bytes List

/-! ## Allocation -/

/-- The number of a cluster, if it is one of FAT32. -/
def clusterStart (nextCluster : ℕ) : Result UInt32 :=
  if nextCluster < 2 ^ 32 then .ok (UInt32.ofNat nextCluster)
  else .error (.fat "cluster index exceeds FAT32 range")

/-- The number of clusters of a directory is kept in 32 bits. -/
def dirCount (count : ℕ) : Result UInt32 :=
  if count < 2 ^ 32 then .ok (UInt32.ofNat count) else .error (.fat "too many clusters")

def advance (nextCluster count : ℕ) : Result ℕ :=
  okOr (checkedAdd nextCluster count) (.fat "cluster overflow")

/-- The loop over the directories: their starts and counts, and the next cluster. -/
def assignDirs (clusterBytes : ℕ) : ℕ → List ℕ → Result (List UInt32 × List UInt32 × ℕ)
  | nextCluster, [] => .ok ([], [], nextCluster)
  | nextCluster, size :: rest => do
    let count := divCeil size clusterBytes
    let start ← clusterStart nextCluster
    let narrow ← dirCount count
    let nextCluster ← advance nextCluster count
    let (starts, counts, last) ← assignDirs clusterBytes nextCluster rest
    .ok (start :: starts, narrow :: counts, last)

/-- The loop over the files. -/
def assignFiles (clusterBytes : ℕ) : ℕ → List FileMeta → Result (List UInt32 × List ℕ × ℕ)
  | nextCluster, [] => .ok ([], [], nextCluster)
  | nextCluster, file :: rest => do
    if 2 ^ 32 - 1 < file.size then
      .error (.fat ("file too large for FAT32 directory entry: " ++ toString file.size ++
        " bytes > " ++ toString (2 ^ 32 - 1)))
    let count := divCeil file.size clusterBytes
    let start ← clusterStart nextCluster
    let nextCluster ← advance nextCluster count
    let (starts, counts, last) ← assignFiles clusterBytes nextCluster rest
    .ok (start :: starts, count :: counts, last)

def FatLayout.clusterBytes (layout : FatLayout) : ℕ := wrappingMul layout.spc sectorSize

/-- Clusters for all directories, then for all files. -/
def assignClusters (files : List FileMeta) (layout : FatLayout) (dirSizes : List ℕ) :
    Result ClusterMap := do
  let (dirStarts, dirCounts, nextCluster) ←
    assignDirs layout.clusterBytes rootCluster dirSizes
  let (fileStarts, fileCounts, nextCluster) ←
    assignFiles layout.clusterBytes nextCluster files
  let used := wrappingSub nextCluster rootCluster
  if layout.dataClusterCount < used then
    .error (.fat ("need " ++ toString used ++ " data clusters but only " ++
      toString layout.dataClusterCount ++ " available"))
  .ok ⟨dirStarts, dirCounts, fileStarts, fileCounts, files.map FileMeta.size⟩

/-! ## What is allocated -/

/-- The first clusters of the directories and then of the files. -/
def ClusterMap.starts (map : ClusterMap) : List ℕ :=
  map.dirStarts.map UInt32.toNat ++ map.fileStarts.map UInt32.toNat

def ClusterMap.counts (map : ClusterMap) : List ℕ :=
  map.dirCounts.map UInt32.toNat ++ map.fileCounts

/-- An allocation of consecutive clusters. -/
structure Assigned (files : List FileMeta) (layout : FatLayout) (dirSizes : List ℕ)
    (map : ClusterMap) : Prop where
  starts : map.starts = Blocks.starts rootCluster map.counts
  dirStarts : map.dirStarts.length = dirSizes.length
  dirCounts : map.dirCounts.map UInt32.toNat = dirSizes.map (divCeil · layout.clusterBytes)
  fileCounts : map.fileCounts = files.map (divCeil ·.size layout.clusterBytes)
  fileSizes : map.fileSizes = files.map FileMeta.size
  used : map.counts.sum ≤ layout.dataClusterCount
  sizes : ∀ file ∈ files, file.size < 2 ^ 32

theorem clusterStart_eq_ok {nextCluster : ℕ} {start : UInt32}
    (h : clusterStart nextCluster = .ok start) : start.toNat = nextCluster := by
  unfold clusterStart at h
  split_ifs at h with hlt
  cases h
  exact UInt32.toNat_ofNat_of_lt' hlt

theorem dirCount_eq_ok {count : ℕ} {narrow : UInt32} (h : dirCount count = .ok narrow) :
    narrow.toNat = count := by
  unfold dirCount at h
  split_ifs at h with hlt
  cases h
  exact UInt32.toNat_ofNat_of_lt' hlt

theorem advance_eq_ok {nextCluster count last : ℕ} (h : advance nextCluster count = .ok last) :
    last = nextCluster + count ∧ last < 2 ^ 64 := by
  have ha := okOr_eq_ok_iff.1 h
  unfold checkedAdd at ha
  split_ifs at ha with hlt
  cases ha
  exact ⟨rfl, hlt⟩

variable {clusterBytes nextCluster last : ℕ}

theorem assignDirs_spec {sizes : List ℕ} {starts counts : List UInt32}
    (h : assignDirs clusterBytes nextCluster sizes = .ok (starts, counts, last)) :
    starts.map UInt32.toNat = Blocks.starts nextCluster (counts.map UInt32.toNat) ∧
      counts.map UInt32.toNat = sizes.map (divCeil · clusterBytes) ∧
      last = nextCluster + (counts.map UInt32.toNat).sum ∧
      (nextCluster < 2 ^ 64 → last < 2 ^ 64) := by
  induction sizes generalizing nextCluster starts counts with
  | nil =>
    cases h
    exact ⟨rfl, rfl, rfl, id⟩
  | cons size rest ih =>
    obtain ⟨start, hst, h⟩ := of_bind h
    obtain ⟨narrow, hn, h⟩ := of_bind h
    obtain ⟨next, hnx, h⟩ := of_bind h
    obtain ⟨⟨starts, counts, last⟩, hrest, h⟩ := of_bind h
    cases h
    obtain ⟨hs, hc, hl, hlt⟩ := ih hrest
    obtain ⟨rfl, hnx⟩ := advance_eq_ok hnx
    have hcn := dirCount_eq_ok hn
    refine ⟨?_, ?_, ?_, fun _ => hlt hnx⟩
    · rw [map_cons, map_cons, Blocks.starts, clusterStart_eq_ok hst, hcn, hs]
    · rw [map_cons, map_cons, hcn, hc]
    · rw [map_cons, sum_cons, hl, hcn, Nat.add_assoc]

variable {files : List FileMeta} (fat : List UInt32) {dirSizes : List ℕ} {layout : FatLayout}
  {map : ClusterMap}

theorem assignFiles_spec {starts : List UInt32} {counts : List ℕ}
    (h : assignFiles clusterBytes nextCluster files = .ok (starts, counts, last)) :
    starts.map UInt32.toNat = Blocks.starts nextCluster counts ∧
      counts = files.map (divCeil ·.size clusterBytes) ∧
      last = nextCluster + counts.sum ∧ (nextCluster < 2 ^ 64 → last < 2 ^ 64) ∧
      ∀ file ∈ files, file.size < 2 ^ 32 := by
  induction files generalizing nextCluster starts counts with
  | nil =>
    cases h
    exact ⟨rfl, rfl, rfl, id, fun file hf => by cases hf⟩
  | cons file rest ih =>
    rw [assignFiles] at h
    by_cases hsi : 2 ^ 32 - 1 < file.size
    · rw [if_pos hsi] at h
      cases h
    · rw [if_neg hsi] at h
      obtain ⟨start, hst, h⟩ := of_bind h
      obtain ⟨next, hn, h⟩ := of_bind h
      obtain ⟨⟨starts, counts, last⟩, hrest, h⟩ := of_bind h
      cases h
      obtain ⟨hs, hc, hl, hlt, hsz⟩ := ih hrest
      obtain ⟨rfl, hn⟩ := advance_eq_ok hn
      refine ⟨?_, ?_, ?_, fun _ => hlt hn, ?_⟩
      · rw [map_cons, Blocks.starts, clusterStart_eq_ok hst, hs]
      · rw [map_cons, hc]
      · rw [sum_cons, hl, Nat.add_assoc]
      · exact forall_mem_cons.2 ⟨by omega, hsz⟩

/-- **Allocation**: the directories and then the files, one after the other. -/
theorem assigned_of_assignClusters (h : assignClusters files layout dirSizes = .ok map) :
    Assigned files layout dirSizes map := by
  obtain ⟨⟨dirStarts, dirCounts, nextCluster⟩, hdi, h⟩ := of_bind h
  obtain ⟨⟨fileStarts, fileCounts, last⟩, hfi, h⟩ := of_bind h
  obtain ⟨hdr, hd, rfl, hn⟩ := assignDirs_spec hdi
  obtain ⟨hfl, hf, rfl, hl, hs⟩ := assignFiles_spec hfi
  have hlt := hl (hn (by decide))
  dsimp only at h
  rw [wrappingSub_of_le (by omega) hlt] at h
  split_ifs at h with hu
  · cases h
  · cases h
    refine ⟨?_, ?_, hd, hf, rfl, ?_, hs⟩
    · simp only [ClusterMap.starts, ClusterMap.counts]
      rw [Blocks.starts_append, hdr, hfl]
    · have hlen := congrArg length hdr
      have hc := congrArg length hd
      simpa using hlen.trans (by simpa using hc)
    · simp only [ClusterMap.counts, sum_append]
      omega

/-! ## The table -/

/-- The mark of the last cluster of a chain. -/
def fat32Eoc : UInt32 := 0x0FFFFFFF

/-- What the `j`th cluster of a chain is linked to. -/
def linkValue (start count j : ℕ) (eoc : UInt32) : UInt32 :=
  if wrappingAdd j 1 < count then
    if wrappingAdd (wrappingAdd start j) 1 < 2 ^ 32 then
      UInt32.ofNat (wrappingAdd (wrappingAdd start j) 1)
    else eoc
  else eoc

/-- The entries of a chain. -/
def fillFatChain (start count : ℕ) (eoc : UInt32) : List UInt32 :=
  (List.range count).foldl
    (fun fat j => fat.set (wrappingAdd start j) (linkValue start count j eoc)) fat

/-- The chains of some owners; a start without a count would have an empty one. -/
def fillFatChains (starts counts : List ℕ) : List UInt32 :=
  (starts.zip counts).foldl (fun fat owner => fillFatChain fat owner.1 owner.2 fat32Eoc) fat

/-- What a process can map on the targets with 64-bit addresses; a table that needs more cannot be
allocated. -/
def addressSpace : ℕ := 2 ^ 57

/-- The bytes of the table, or nothing when the allocation of its entries aborts the process. -/
def makeFat (map : ClusterMap) (layout : FatLayout) : Option Bytes :=
  let totalEntries := wrappingAdd layout.dataClusterCount 2
  let fatByteCount := wrappingMul layout.fatSectors sectorSize
  if addressSpace < totalEntries * fatEntrySize then none
  else
    let fat := ((List.replicate totalEntries 0).set 0 0x0FFFFFF8).set 1 fat32Eoc
    let fat := fillFatChains fat (map.dirStarts.map UInt32.toNat) (map.dirCounts.map UInt32.toNat)
    let fat := fillFatChains fat (map.fileStarts.map UInt32.toNat) map.fileCounts
    let bytes := fat.flatMap le32
    some (bytes ++ zeros (fatByteCount - bytes.length))

theorem length_foldl_set (place : ℕ → ℕ) (value : ℕ → UInt32) (js : List ℕ) (fat : List UInt32) :
    (js.foldl (fun fat j => fat.set (place j) (value j)) fat).length = fat.length := by
  induction js generalizing fat with
  | nil => rfl
  | cons j js ih => rw [foldl_cons, ih, length_set]

theorem getElem?_fillFatChain {fat : List UInt32} {start count : ℕ} (eoc : UInt32)
    (h : start + count < 2 ^ 64) (i : ℕ) :
    (fillFatChain fat start count eoc)[i]? =
      if start ≤ i ∧ i < start + count ∧ i < fat.length then
        some (linkValue start count (i - start) eoc)
      else fat[i]? := by
  -- the first `n` links, for every `n` up to the count
  have hf : ∀ n ≤ count, ((range n).foldl
        (fun fat j => fat.set (wrappingAdd start j) (linkValue start count j eoc)) fat)[i]? =
      if start ≤ i ∧ i < start + n ∧ i < fat.length then
        some (linkValue start count (i - start) eoc)
      else fat[i]? := by
    intro n hn
    induction n with
    | zero => rw [if_neg (by omega), range_zero, foldl_nil]
    | succ n ih =>
      rw [range_succ, foldl_append, foldl_cons, foldl_nil, wrappingAdd_of_lt (by omega),
        getElem?_set, length_foldl_set, ih (by omega)]
      by_cases hi : start + n = i
      · subst hi
        rw [if_pos rfl, Nat.add_sub_cancel_left]
        split_ifs with hlen hr hr
        · rfl
        · omega
        · omega
        · rw [getElem?_eq_none (by omega)]
      · rw [if_neg hi]
        have hif : (start ≤ i ∧ i < start + n ∧ i < fat.length) ↔
            start ≤ i ∧ i < start + (n + 1) ∧ i < fat.length := by
          omega
        simp [hif]
  exact hf count le_rfl

theorem length_fillFatChains (starts counts : List ℕ) :
    (fillFatChains fat starts counts).length = fat.length := by
  unfold fillFatChains
  induction starts.zip counts generalizing fat with
  | nil => rfl
  | cons owner rest ih => rw [foldl_cons, ih, fillFatChain, length_foldl_set]

theorem fillFatChains_append {starts counts : List ℕ} (h : starts.length = counts.length)
    (fat : List UInt32) (starts' counts' : List ℕ) :
    fillFatChains (fillFatChains fat starts counts) starts' counts' =
      fillFatChains fat (starts ++ starts') (counts ++ counts') := by
  rw [fillFatChains, fillFatChains, fillFatChains, zip_append h, foldl_append]

/-- Chains of consecutive clusters leave what is before them as it is, and each of them is filled
in. -/
theorem getElem?_fillFatChains {fat : List UInt32} {nextCluster : ℕ} {counts : List ℕ}
    (h : nextCluster + counts.sum < 2 ^ 64) :
    (∀ i < nextCluster,
      (fillFatChains fat (Blocks.starts nextCluster counts) counts)[i]? = fat[i]?) ∧
    ∀ (k : ℕ) start count j, (Blocks.starts nextCluster counts)[k]? = some start →
      counts[k]? = some count → j < count → start + j < fat.length →
      (fillFatChains fat (Blocks.starts nextCluster counts) counts)[start + j]? =
        some (linkValue start count j fat32Eoc) := by
  induction counts generalizing fat nextCluster with
  | nil => exact ⟨fun i _ => rfl, fun k start count j _ hcn => by cases hcn⟩
  | cons first rest ih =>
    rw [sum_cons] at h
    obtain ⟨hb, hc⟩ :=
      @ih (fillFatChain fat nextCluster first fat32Eoc) (nextCluster + first) (by omega)
    have hstep : fillFatChains fat (Blocks.starts nextCluster (first :: rest)) (first :: rest) =
        fillFatChains (fillFatChain fat nextCluster first fat32Eoc)
          (Blocks.starts (nextCluster + first) rest) rest := rfl
    rw [hstep]
    refine ⟨fun i hi => ?_, fun k start count j hs hcn hj hlen => ?_⟩
    · rw [hb i (by omega), getElem?_fillFatChain fat32Eoc (by omega), if_neg (by omega)]
    · cases k with
      | zero =>
        cases hs
        cases hcn
        rw [hb _ (by omega), getElem?_fillFatChain fat32Eoc (by omega), if_pos (by omega),
          Nat.add_sub_cancel_left]
      | succ k =>
        refine hc k start count j hs hcn hj ?_
        rwa [fillFatChain, length_foldl_set]

theorem linkValue_of_lt {start count j : ℕ} (h : start + count < 2 ^ 32) (hj : j < count) :
    linkValue start count j fat32Eoc =
      if j + 1 < count then UInt32.ofNat (start + j + 1) else fat32Eoc := by
  unfold linkValue
  rw [wrappingAdd_of_lt (by omega), wrappingAdd_of_lt (a := start) (by omega),
    wrappingAdd_of_lt (by omega)]
  split_ifs
  · rfl
  · omega
  · rfl

/-- **The table** of an allocation: entry by entry each cluster of an owner is linked to the next,
and the last one has the mark. -/
theorem makeFat_spec {bytes : Bytes} (hm : Assigned files layout dirSizes map)
    (hcn : layout.dataClusterCount < 2 ^ 31) (h : makeFat map layout = some bytes) :
    ∃ fat : List UInt32, fat.length = layout.dataClusterCount + 2 ∧ bytes = fat.flatMap le32 ++
        zeros (wrappingMul layout.fatSectors sectorSize - (fat.flatMap le32).length) ∧
      ∀ (k : ℕ) start count j, map.starts[k]? = some start → map.counts[k]? = some count →
        j < count →
        fat[start + j]? =
          some (if j + 1 < count then UInt32.ofNat (start + j + 1) else fat32Eoc) := by
  have hu := hm.used
  unfold makeFat at h
  dsimp only at h
  split_ifs at h
  cases h
  refine ⟨_, ?_, rfl, fun k start count j hst hc hj => ?_⟩
  · rw [length_fillFatChains, length_fillFatChains, length_set, length_set, length_replicate,
      wrappingAdd_of_lt (by omega)]
  · have hl : (map.dirStarts.map UInt32.toNat).length =
        (map.dirCounts.map UInt32.toNat).length := by
      rw [length_map, hm.dirStarts, hm.dirCounts, length_map]
    rw [hm.starts] at hst
    have hw := Blocks.starts_within hst hc
    rw [rootCluster] at hw
    have hs := hm.starts
    rw [ClusterMap.starts] at hs
    rw [fillFatChains_append hl, hs, ← ClusterMap.counts,
      (getElem?_fillFatChains (by rw [rootCluster]; omega)).2 k start count j hst hc hj ?_,
      linkValue_of_lt (by omega) hj]
    rw [length_set, length_set, length_replicate, wrappingAdd_of_lt (by omega)]
    omega

end Muak.Fatfs
