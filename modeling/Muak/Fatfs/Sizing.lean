import Muak.Fatfs.Image

/-!
# Sizing a volume

`image_size_for` of `libs/fatfs/src/builder/mod.rs`: the smallest volume for files of a total size,
found by growing it until its data clusters hold that many bytes, some for the directories and some
that stay free.

* `imageSizeFor_eq_ok`: the volume found has room for all of these bytes.
* `exists_assignClusters`: an allocation that needs no more clusters than there are succeeds.
* `volume_fits_iff`: exactly when the files fit the volume found for them. Every file and every
  directory ends with a cluster that is not full, which the total size does not show.
* `many_small_files`: forty small ones beside some large ones do not.
-/

namespace Muak.Fatfs

open U64 List

/-- Bytes for the clusters of directories. -/
def directoryOverhead : ℕ := 1 <<< 20

/-- Bytes that are to stay free. -/
def freeSlack : ℕ := 4 <<< 20

/-- The next size that is tried. -/
def grow (size : ℕ) : ℕ :=
  min (nextMultipleOf (saturatingAdd size freeSlack) sectorSize) maxImageSize

theorem lt_grow {size : ℕ} (h : size < maxImageSize) : size < grow size := by
  have hm : maxImageSize = 0xFFFFFFFF * 512 := by decide
  have hs : freeSlack = 4194304 := by decide
  unfold grow
  rw [saturatingAdd_of_lt (by omega), nextMultipleOf_of_lt (by decide) (by rw [sectorSize]; omega)]
  have hle := @le_divCeil_mul (size + freeSlack) sectorSize (by decide)
  omega

/-- The bytes of the data clusters. -/
def FatLayout.capacity (layout : FatLayout) : ℕ :=
  saturatingMul (saturatingMul layout.dataClusterCount layout.spc) sectorSize

/-- The loop: larger and larger volumes, the last one that there can be included. -/
def growUntil (target size : ℕ) : Result ℕ :=
  match compute size with
  | .error e => .error e
  | .ok geometry =>
    if target ≤ geometry.capacity then .ok size
    else if _h : maxImageSize ≤ size then .error (.fat "volume would exceed the FAT32 ceiling")
    else growUntil target (grow size)
termination_by maxImageSize - size
decreasing_by
  have := lt_grow (not_le.1 _h)
  omega

/-- What the volume is to hold. -/
def sizingTarget (totalData : ℕ) : ℕ :=
  saturatingAdd (saturatingAdd totalData directoryOverhead) freeSlack

/-- The size that is tried first. -/
def firstSize (totalData : ℕ) : ℕ :=
  nextMultipleOf (max (sizingTarget totalData) minImageSize) sectorSize

def imageSizeFor (totalData : ℕ) : Result ℕ :=
  growUntil (sizingTarget totalData) (firstSize totalData)

/-! ## The volume that is found -/

theorem growUntil_eq_ok {target start size : ℕ} (h : growUntil target start = .ok size) :
    start ≤ size ∧ ∃ l, compute size = .ok l ∧ target ≤ l.capacity := by
  fun_induction growUntil target start with
  | case1 start e hc => cases h
  | case2 start l hc hr =>
    cases h
    exact ⟨le_rfl, l, hc, hr⟩
  | case3 start l hc hr hm => cases h
  | case4 start l hc hr hm ih =>
    obtain ⟨hle, hf⟩ := ih h
    exact ⟨(lt_grow (not_le.1 hm)).le.trans hle, hf⟩

theorem sizingTarget_eq (totalData : ℕ) :
    sizingTarget totalData = min (totalData + 5 * 2 ^ 20) (2 ^ 64 - 1) := by
  have ho : directoryOverhead = 2 ^ 20 := by decide
  have hs : freeSlack = 4 * 2 ^ 20 := by decide
  rw [sizingTarget, saturatingAdd, saturatingAdd, maxValue]
  omega

/-- The first size is a multiple of the sector, unless the rounding wraps around. -/
theorem firstSize_cases (totalData : ℕ) :
    totalData + 5 * 2 ^ 20 ≤ 2 ^ 64 - 512 ∧ firstSize totalData =
        divCeil (max (sizingTarget totalData) minImageSize) sectorSize * sectorSize ∧
      minImageSize ≤ firstSize totalData ∨
    2 ^ 64 - 512 < totalData + 5 * 2 ^ 20 ∧ firstSize totalData = 0 ∧ firstSize totalData ≠
      divCeil (max (sizingTarget totalData) minImageSize) sectorSize * sectorSize := by
  have hmn : minImageSize = 66581 * 512 := by decide +kernel
  have ht := sizingTarget_eq totalData
  have hle := @le_divCeil_mul (max (sizingTarget totalData) minImageSize) sectorSize (by decide)
  unfold firstSize
  by_cases hw : 2 ^ 64 - 512 < totalData + 5 * 2 ^ 20
  · have hm : max (sizingTarget totalData) minImageSize = sizingTarget totalData := by omega
    have hz : nextMultipleOf (sizingTarget totalData) sectorSize = 0 := by
      rw [nextMultipleOf, sectorSize, if_neg (by omega)]
      omega
    rw [hm] at hle ⊢
    rw [hz]
    exact .inr ⟨hw, rfl, by omega⟩
  · rw [nextMultipleOf_of_lt (by decide) (by rw [sectorSize]; omega)]
    exact .inl ⟨by omega, rfl, by omega⟩

theorem dataClusterCount_mul_le {size : ℕ} {l : FatLayout} (h : compute size = .ok l)
    (hlo : 16 ≤ size / sectorSize) : l.dataClusterCount * l.spc < 2 ^ 32 := by
  have hs := sound_of_compute h hlo
  have hf := hs.fits
  have hm := div_sectorSize_lt (compute_eq_ok_iff.1 h).1
  rw [hs.sectors] at hf
  omega

/-- **The volume found** has room for the data, the directories and the slack. -/
theorem imageSizeFor_eq_ok {totalData size : ℕ} (h : imageSizeFor totalData = .ok size) :
    16 ≤ size / sectorSize ∧ ∃ l, compute size = .ok l ∧
      totalData + directoryOverhead + freeSlack ≤ l.dataClusterCount * l.clusterBytes := by
  obtain ⟨hle, l, hl, hr⟩ := growUntil_eq_ok h
  have hlo : 16 ≤ size / sectorSize := by
    have hm : minImageSize = 66581 * 512 := by decide +kernel
    obtain ⟨-, -, hf⟩ | ⟨-, hz, -⟩ := firstSize_cases totalData
    · have := hf.trans hle
      rw [sectorSize]
      omega
    · -- there is no volume of no sectors
      rw [imageSizeFor, hz, growUntil] at h
      cases h
  refine ⟨hlo, l, hl, ?_⟩
  have hc := dataClusterCount_mul_le hl hlo
  rw [FatLayout.capacity, @saturatingMul_of_lt l.dataClusterCount l.spc (by omega),
    saturatingMul_of_lt (by rw [sectorSize]; omega), sizingTarget_eq] at hr
  rw [(clusterBytes_of_compute hl).1, ← Nat.mul_assoc, Nat.add_assoc,
    show directoryOverhead + freeSlack = 5 * 2 ^ 20 by decide]
  rw [sectorSize] at hr ⊢
  omega

/-! ## Allocations that succeed -/

theorem exists_assignDirs {clusterBytes nextCluster : ℕ} {sizes : List ℕ}
    (h : nextCluster + (sizes.map (divCeil · clusterBytes)).sum < 2 ^ 32) :
    ∃ starts counts, assignDirs clusterBytes nextCluster sizes =
      .ok (starts, counts, nextCluster + (sizes.map (divCeil · clusterBytes)).sum) := by
  induction sizes generalizing nextCluster with
  | nil => exact ⟨[], [], rfl⟩
  | cons size rest ih =>
    rw [map_cons, sum_cons] at h ⊢
    obtain ⟨starts, counts, hrest⟩ := @ih (nextCluster + divCeil size clusterBytes) (by omega)
    refine ⟨UInt32.ofNat nextCluster :: starts,
      UInt32.ofNat (divCeil size clusterBytes) :: counts, ?_⟩
    rw [assignDirs, clusterStart, if_pos (by omega), ok_bind, dirCount, if_pos (by omega), ok_bind,
      advance, checkedAdd, if_pos (by omega), okOr_some, ok_bind, hrest, ok_bind, Nat.add_assoc]

theorem exists_assignFiles {clusterBytes nextCluster : ℕ} {files : List FileMeta}
    (hs : ∀ file ∈ files, file.size < 2 ^ 32)
    (h : nextCluster + (files.map (divCeil ·.size clusterBytes)).sum < 2 ^ 32) :
    ∃ starts counts, assignFiles clusterBytes nextCluster files =
      .ok (starts, counts, nextCluster + (files.map (divCeil ·.size clusterBytes)).sum) := by
  induction files generalizing nextCluster with
  | nil => exact ⟨[], [], rfl⟩
  | cons file rest ih =>
    rw [map_cons, sum_cons] at h ⊢
    obtain ⟨hsz, hs⟩ := forall_mem_cons.1 hs
    obtain ⟨starts, counts, hrest⟩ :=
      @ih (nextCluster + divCeil file.size clusterBytes) hs (by omega)
    refine ⟨UInt32.ofNat nextCluster :: starts, divCeil file.size clusterBytes :: counts, ?_⟩
    rw [assignFiles, if_neg (by omega)]
    rw [clusterStart, if_pos (by omega), ok_bind, advance, checkedAdd, if_pos (by omega), okOr_some,
      ok_bind, hrest, ok_bind, Nat.add_assoc]

/-- The clusters of the directories and of the files. -/
def clustersNeeded (clusterBytes : ℕ) (files : List FileMeta) (dirSizes : List ℕ) : ℕ :=
  (dirSizes.map (divCeil · clusterBytes)).sum + (files.map (divCeil ·.size clusterBytes)).sum

theorem exists_assignClusters {files : List FileMeta} {layout : FatLayout} {dirSizes : List ℕ}
    (hs : ∀ file ∈ files, file.size < 2 ^ 32) (hc : layout.dataClusterCount < 2 ^ 27)
    (h : clustersNeeded layout.clusterBytes files dirSizes ≤ layout.dataClusterCount) :
    ∃ map, assignClusters files layout dirSizes = .ok map := by
  unfold clustersNeeded at h
  have hroot : rootCluster = 2 := rfl
  obtain ⟨dirStarts, dirCounts, hd⟩ :=
    @exists_assignDirs layout.clusterBytes rootCluster dirSizes (by omega)
  obtain ⟨fileStarts, fileCounts, hf⟩ := @exists_assignFiles layout.clusterBytes
    (rootCluster + (dirSizes.map (divCeil · layout.clusterBytes)).sum) files hs (by omega)
  rw [assignClusters, hd, ok_bind]
  dsimp only
  rw [hf, ok_bind]
  dsimp only
  rw [wrappingSub_of_le (by omega) (by omega), if_neg (by omega)]
  exact ⟨_, rfl⟩

/-! ## Files that fit -/

section

variable {files : List FileMeta} {layout : FatLayout} {dirSizes : List ℕ} {map : ClusterMap}

theorem Assigned.sum_counts (h : Assigned files layout dirSizes map) :
    map.counts.sum = clustersNeeded layout.clusterBytes files dirSizes := by
  rw [ClusterMap.counts, h.dirCounts, h.fileCounts, sum_append, clustersNeeded]

/-- The number of free clusters that is written down. -/
theorem Assigned.freeClusters (h : Assigned files layout dirSizes map)
    (hc : layout.dataClusterCount < 2 ^ 27) :
    (FsInfo.fromMap map layout).freeClusters.toNat =
      layout.dataClusterCount - clustersNeeded layout.clusterBytes files dirSizes := by
  have hu := h.used
  rw [← h.sum_counts]
  rw [ClusterMap.counts, sum_append] at hu ⊢
  rw [FsInfo.fromMap, saturatingAdd_of_lt (by omega), narrow32, if_pos (by omega)]
  exact UInt32.toNat_ofNat_of_lt' (by rw [UInt32.size]; omega)

/-- What rounding up to whole clusters adds to a size. -/
def padding (clusterBytes size : ℕ) : ℕ := divCeil size clusterBytes * clusterBytes - size

/-- The clusters of the files hold the data and the padding. -/
theorem clustersNeeded_mul {clusterBytes : ℕ} (hp : 0 < clusterBytes) :
    clustersNeeded clusterBytes files dirSizes * clusterBytes =
      (files.map FileMeta.size).sum + (files.map (padding clusterBytes ·.size)).sum +
        (dirSizes.map (divCeil · clusterBytes * clusterBytes)).sum := by
  rw [clustersNeeded, Nat.add_mul, ← sum_map_mul_right, ← sum_map_mul_right, ← sum_map_add,
    Nat.add_comm]
  congr 2
  refine map_congr_left fun file _ => ?_
  have := @le_divCeil_mul file.size clusterBytes hp
  rw [padding]
  omega

variable (toUppercase : Char → List Char)

/-- Every name has a short form; and after the data, the padding of each file and the clusters of
each directory the slack is left. -/
def RoundingFits (files : List FileMeta) (layout : FatLayout) : Prop :=
  ∃ aliases, assignAliases toUppercase (DirIndex.collect files) files = .ok aliases ∧
    (files.map FileMeta.size).sum + (files.map (padding layout.clusterBytes ·.size)).sum +
      ((sizes toUppercase (DirIndex.collect files) files aliases).map
        (divCeil · layout.clusterBytes * layout.clusterBytes)).sum + freeSlack ≤
      layout.dataClusterCount * layout.clusterBytes

/-- The metadata are computed, and enough clusters are written down as free. -/
def LeavesSlack (files : List FileMeta) (imageSize : ℕ) : Prop :=
  ∃ P, precompute toUppercase files imageSize = some (.ok P) ∧
    freeSlack ≤ P.fsInfo.freeClusters.toNat * P.layout.clusterBytes

variable {toUppercase} in
theorem fsInfo_of_precompute {imageSize : ℕ} {P : Precomputed}
    (h : precompute toUppercase files imageSize = some (.ok P)) :
    P.fsInfo = FsInfo.fromMap P.clusterMap P.layout := by
  unfold precompute at h
  split at h
  · cases h
  · obtain ⟨fatBytes, -, hP⟩ := Option.map_eq_some_iff.1 h
    cases hP
    rfl

theorem leavesSlack_iff {imageSize : ℕ} (hs : ∀ file ∈ files, file.size < 2 ^ 32)
    (hl : compute imageSize = .ok layout) (hlo : 16 ≤ imageSize / sectorSize) :
    LeavesSlack toUppercase files imageSize ↔ RoundingFits toUppercase files layout := by
  have hc := dataClusterCount_lt hl hlo
  have hps := (clusterBytes_of_compute hl).2.1
  have hsl : 0 < freeSlack := by decide
  constructor
  · rintro ⟨P, hP, hf⟩
    obtain ⟨aliases, h⟩ := exists_planned_of_precompute hP
    obtain rfl := Except.ok.inj (hl.symm.trans h.layout)
    have ha := h.assigned
    rw [h.tree] at ha
    rw [fsInfo_of_precompute hP, ha.freeClusters hc, Nat.sub_mul] at hf
    refine ⟨aliases, h.tree ▸ h.names, ?_⟩
    rw [← clustersNeeded_mul hps]
    omega
  · rintro ⟨aliases, hal, hr⟩
    rw [← clustersNeeded_mul hps] at hr
    have hn : clustersNeeded layout.clusterBytes files
        (sizes toUppercase (DirIndex.collect files) files aliases) ≤ layout.dataClusterCount :=
      Nat.le_of_mul_le_mul_right ((Nat.le_add_right ..).trans hr) hps
    obtain ⟨map, hm⟩ := exists_assignClusters hs hc hn
    have hp : plan toUppercase files imageSize = .ok (layout, aliases, map) := by
      simp [plan, hl, hal, hm]
    have hft : ¬addressSpace < wrappingAdd layout.dataClusterCount 2 * fatEntrySize := by
      rw [wrappingAdd_of_lt (by omega), addressSpace, fatEntrySize]
      omega
    rw [LeavesSlack, precompute, hp]
    simp only [makeFat, if_neg hft]
    refine ⟨_, rfl, ?_⟩
    dsimp only
    rw [(assigned_of_assignClusters hm).freeClusters hc, Nat.sub_mul]
    omega

/-- The volume found for the files is found without an overflow, and leaves them the slack. -/
structure WellSized (files : List FileMeta) : Prop where
  exact : firstSize (files.map FileMeta.size).sum =
    divCeil (max (sizingTarget (files.map FileMeta.size).sum) minImageSize) sectorSize * sectorSize
  fits : ∀ size, imageSizeFor (files.map FileMeta.size).sum = .ok size →
    LeavesSlack toUppercase files size

end

/-- **Volumes found by their data.** A volume that is found always has room for the data, the
allowance for directories and the slack; the files fit it and leave the slack exactly if what
rounding to whole clusters adds does. The search is exact up to totals just below `2^64`. -/
theorem volume_fits_iff (toUppercase : Char → List Char) (files : List FileMeta)
    (hsizes : ∀ file ∈ files, file.size < 2 ^ 32) :
    let total := (files.map FileMeta.size).sum
    (∀ size, imageSizeFor total = .ok size → ∃ layout, compute size = .ok layout ∧
      total + directoryOverhead + freeSlack ≤ layout.dataClusterCount * layout.clusterBytes) ∧
    (WellSized toUppercase files ↔ total + directoryOverhead + freeSlack ≤ 2 ^ 64 - sectorSize ∧
      ∀ size layout, imageSizeFor total = .ok size → compute size = .ok layout →
        RoundingFits toUppercase files layout) := by
  intro total
  have hc : directoryOverhead + freeSlack = 5 * 2 ^ 20 := by decide
  have hf := firstSize_cases total
  refine ⟨fun size h => (imageSizeFor_eq_ok h).2, fun h => ⟨?_, ?_⟩, fun ⟨ht, h⟩ => ⟨?_, ?_⟩⟩
  · rw [sectorSize]
    obtain ⟨hle, -⟩ | ⟨-, -, hne⟩ := hf
    · omega
    · exact absurd h.exact hne
  · intro size layout hs hl
    exact (leavesSlack_iff toUppercase hsizes hl (imageSizeFor_eq_ok hs).1).1 (h.fits size hs)
  · rw [sectorSize] at ht
    obtain ⟨-, he, -⟩ | ⟨hlt, -⟩ := hf
    · exact he
    · omega
  · intro size hs
    obtain ⟨hlo, layout, hl, -⟩ := imageSizeFor_eq_ok hs
    exact (leavesSlack_iff toUppercase hsizes hl hlo).2 (h size layout hs hl)

/-- The smallest volume is right for one small file. -/
theorem wellSized_single : WellSized asciiUppercase [⟨"a", 1⟩] := by
  refine ((volume_fits_iff asciiUppercase [⟨"a", 1⟩] (by simp)).2).2 ⟨by decide, ?_⟩
  intro size layout hs hl
  have hc : compute 34089472 = .ok ⟨66581, 8, 524, 1, 65525⟩ := by decide +kernel
  have hf : imageSizeFor (map FileMeta.size [⟨"a", 1⟩]).sum = .ok 34089472 := by
    rw [imageSizeFor, show firstSize _ = 34089472 by decide +kernel, growUntil, hc]
    dsimp only
    rw [if_pos (by decide +kernel)]
  cases hf.symm.trans hs
  cases hc.symm.trans hl
  exact ⟨[[aliasA]], by decide +kernel, by decide +kernel⟩

/-! ## Forty small files -/

/-- Five large files and forty of one byte. -/
def smallFiles : List FileMeta :=
  (List.range 5).map (fun i => ⟨"data" ++ toString i, 3420159992⟩) ++
    (List.range 40).map fun i => ⟨toString i, 1⟩

/-- **Many small files** take up a part of the slack of the volume that is found for them. -/
theorem many_small_files : imageSizeFor (smallFiles.map FileMeta.size).sum = .ok 17110237184 ∧
    (∃ P, precompute asciiUppercase smallFiles 17110237184 = some (.ok P) ∧
      P.fsInfo.freeClusters.toNat * P.layout.clusterBytes < freeSlack) ∧
    ¬WellSized asciiUppercase smallFiles := by
  have hsm : (smallFiles.map FileMeta.size).sum = 17100800000 := by decide +kernel
  have hf : compute 17106042880 = .ok ⟨33410240, 8, 4080, 64, 521907⟩ := by decide +kernel
  have hs : compute 17110237184 = .ok ⟨33418432, 8, 4080, 64, 522035⟩ := by decide +kernel
  have hsz : imageSizeFor (smallFiles.map FileMeta.size).sum = .ok 17110237184 := by
    rw [hsm, imageSizeFor, show firstSize 17100800000 = 17106042880 by decide +kernel, growUntil,
      hf]
    dsimp only
    rw [if_neg (by decide +kernel), dif_neg (by decide +kernel),
      show grow 17106042880 = 17110237184 by decide +kernel, growUntil, hs]
    dsimp only
    rw [if_pos (by decide +kernel)]
  have hp : (plan asciiUppercase smallFiles 17110237184).map (fun found =>
      (found.1, (FsInfo.fromMap found.2.2 found.1).freeClusters)) =
      .ok (⟨33418432, 8, 4080, 64, 522035⟩, 119) := by decide +kernel
  obtain ⟨⟨layout, aliases, map⟩, hp, hfn⟩ := map_eq_ok_iff.1 hp
  obtain ⟨rfl, hfr⟩ := Prod.mk.inj hfn
  obtain ⟨P, hP, hfr, hb⟩ : ∃ P, precompute asciiUppercase smallFiles 17110237184 =
      some (.ok P) ∧ P.fsInfo.freeClusters = 119 ∧ P.layout.clusterBytes = 32768 := by
    rw [precompute, hp]
    exact ⟨_, rfl, hfr, (by decide : wrappingMul 64 sectorSize = 32768)⟩
  have hl : P.fsInfo.freeClusters.toNat * P.layout.clusterBytes < freeSlack := by
    rw [hfr, hb]
    decide
  refine ⟨hsz, ⟨P, hP, hl⟩, fun h => ?_⟩
  obtain ⟨P', hP', hsl⟩ := h.fits _ hsz
  cases hP.symm.trans hP'
  exact absurd hsl (not_le.2 hl)

end Muak.Fatfs
