import Mathlib.Algebra.Order.Group.Nat
import Muak.Foundations.Result
import Muak.Foundations.U64

/-!
# The geometry of a FAT32 volume

`libs/fatfs/src/layout.rs`: for the size of an image the largest cluster size is chosen that leaves
enough clusters for FAT32, and the table is made long enough for them.

* `testSpc_of_le`: the geometry for a cluster size, when no difference is negative.
* `sound_of_compute`: the geometry of at least 16 sectors is sound.
* `geometry_sound_iff`: exactly the sizes at which a difference wraps around are not.
* `image_of_ten_sectors`: there the volume has almost `2^64` clusters.
-/

namespace Muak.Fatfs

open U64 Option Nat

/-! ## Constants -/

def sectorSize : ℕ := 512

def dataAlignBytes : ℕ := 4 * 1024

def dataAlignSectors : ℕ := dataAlignBytes / sectorSize

def fatCount : ℕ := 2

def rootCluster : ℕ := 2

/-- The least number of clusters of FAT32. -/
def fat32MinClusters : ℕ := 0xFFF5

def reservedSectors : ℕ := 8

def fatEntrySize : ℕ := 4

def maxImageSize : ℕ := saturatingMul 0xFFFFFFFF sectorSize

/-- Why no image is built. -/
inductive FatError
  | fat (message : String)
  deriving DecidableEq

abbrev Result := Except FatError

/-- The numbers of sectors and clusters. -/
structure FatLayout where
  totalSectors : ℕ
  reservedSectors : ℕ
  fatSectors : ℕ
  spc : ℕ
  dataClusterCount : ℕ
  deriving DecidableEq

/-! ## The computation -/

/-- `align_fat_sectors`: the data region is to start at a page. -/
def alignFatSectors (fatSectors reservedSectors : ℕ) : ℕ :=
  let overhead := saturatingAdd reservedSectors (saturatingMul fatCount fatSectors)
  let aligned := saturatingMul (divCeil overhead dataAlignSectors) dataAlignSectors
  let pad := aligned - overhead
  saturatingAdd fatSectors (divCeil pad fatCount)

/-- The smallest image with enough clusters. -/
def minImageSize : ℕ :=
  let entriesPerSector := sectorSize / fatEntrySize
  let fatSectors := divCeil (saturatingAdd fat32MinClusters 2) (entriesPerSector - fatCount)
  let fatSectors := alignFatSectors fatSectors reservedSectors
  let totalSectors :=
    saturatingAdd (saturatingAdd fat32MinClusters reservedSectors)
      (saturatingMul fatCount fatSectors)
  saturatingMul totalSectors sectorSize

/-- `test_spc`: the length of a table and the number of clusters, for a cluster of `spc` sectors. -/
def testSpc (spc totalSectors rsvd rootSecs : ℕ) : Option (ℕ × ℕ) :=
  let dataSectors := wrappingSub totalSectors rsvd
  let totalClusters := dataSectors / spc
  if totalClusters = 0 then none
  else
    (checkedMul (saturatingAdd totalClusters 2) fatEntrySize).bind fun fatBytes =>
      let fatSectors := nextMultipleOf fatBytes sectorSize / sectorSize
      let fatSectors := alignFatSectors fatSectors rsvd
      let actualDataSectors :=
        wrappingSub (wrappingSub dataSectors (wrappingMul fatSectors fatCount)) rootSecs
      let finalClusters := actualDataSectors / spc
      if finalClusters = 0 then none else some (fatSectors, finalClusters)

/-- The geometry for a cluster size, if it leaves enough clusters. -/
def layoutFor (totalSectors spc : ℕ) : Option FatLayout :=
  ((testSpc spc totalSectors reservedSectors 0).filter (fat32MinClusters ≤ ·.2)).map fun found =>
    ⟨totalSectors, reservedSectors, found.1, spc, found.2⟩

def spcValues : List ℕ := [64, 32, 16, 8, 4, 2, 1]

/-- The layout with the first cluster size that is possible. -/
def compute (imageSize : ℕ) : Result FatLayout := do
  if maxImageSize < imageSize then
    .error (.fat ("image too large for FAT32: " ++ toString imageSize ++ " bytes > " ++
      toString maxImageSize))
  let totalSectors := imageSize / sectorSize
  if totalSectors < 2 then .error (.fat "image too small for reserved area")
  okOr (spcValues.findSome? (layoutFor totalSectors))
    (.fat "image size insufficient for any FAT type")

/-! ## Soundness -/

/-- The geometry fits the image. -/
structure Sound (l : FatLayout) (imageSize : ℕ) : Prop where
  sectors : l.totalSectors = imageSize / sectorSize
  fits : l.reservedSectors + fatCount * l.fatSectors + l.dataClusterCount * l.spc ≤ l.totalSectors
  entries : (l.dataClusterCount + 2) * fatEntrySize ≤ l.fatSectors * sectorSize
  clusters : fat32MinClusters ≤ l.dataClusterCount
  aligned : dataAlignBytes ∣ (l.reservedSectors + fatCount * l.fatSectors) * sectorSize

theorem alignFatSectors_eq {fatSectors : ℕ} (h : fatSectors < 2 ^ 40) :
    alignFatSectors fatSectors reservedSectors = (fatSectors + 3) / 4 * 4 := by
  unfold alignFatSectors
  simp only [fatCount, reservedSectors, dataAlignSectors, dataAlignBytes, sectorSize, divCeil]
  rw [saturatingMul_of_lt (a := 2) (by omega), saturatingAdd_of_lt (a := 8) (by omega),
    saturatingMul_of_lt (by omega), saturatingAdd_of_lt (by omega)]
  omega

/-- The length of a table for that many clusters. -/
def tableSectors (clusters : ℕ) : ℕ := 4 * ((clusters + 513) / 512)

theorem tableSectors_le {clusters dataSectors : ℕ} (hle : clusters ≤ dataSectors)
    (h : 8 ≤ dataSectors) : 2 * tableSectors clusters ≤ dataSectors := by
  unfold tableSectors
  omega

/-- The length of the table before the differences are taken. -/
theorem alignFatSectors_of_clusters {clusters : ℕ} (h : clusters < 2 ^ 32) :
    alignFatSectors (nextMultipleOf ((clusters + 2) * fatEntrySize) sectorSize / sectorSize)
      reservedSectors = tableSectors clusters := by
  have hn : nextMultipleOf ((clusters + 2) * fatEntrySize) sectorSize / sectorSize =
      (clusters + 129) / 128 := by
    simp only [fatEntrySize, sectorSize]
    rw [nextMultipleOf_of_lt (by omega) (by omega), divCeil]
    omega
  rw [alignFatSectors_eq (by omega), tableSectors]
  omega

/-- From 16 sectors on all differences are exact. -/
theorem testSpc_of_le {spc totalSectors : ℕ} (hlo : 16 ≤ totalSectors)
    (hhi : totalSectors < 2 ^ 32) :
    testSpc spc totalSectors reservedSectors 0 =
      let clusters := (totalSectors - 8) / spc
      let finalClusters := (totalSectors - 8 - 2 * tableSectors clusters) / spc
      if clusters = 0 ∨ finalClusters = 0 then none
      else some (tableSectors clusters, finalClusters) := by
  have hd : wrappingSub totalSectors reservedSectors = totalSectors - 8 :=
    wrappingSub_of_le (by simp only [reservedSectors]; omega) (by omega)
  have hc : (totalSectors - 8) / spc ≤ totalSectors - 8 := div_le_self ..
  have ht := tableSectors_le hc (by omega)
  unfold testSpc
  simp only [hd]
  generalize (totalSectors - 8) / spc = clusters at *
  have ha := @alignFatSectors_of_clusters clusters (by omega)
  rw [saturatingAdd_of_lt (by omega), checkedMul_of_lt (by simp only [fatEntrySize]; omega),
    bind_some, ha, fatCount, wrappingMul_of_lt (by omega), mul_comm _ 2,
    wrappingSub_of_le ht (by omega), wrappingSub_of_le (zero_le _) (by omega)]
  by_cases hz : clusters = 0
  · rw [if_pos hz, if_pos (.inl hz)]
  · simp [hz]

variable {l : FatLayout}

theorem layoutFor_eq_some_iff {totalSectors spc : ℕ} : layoutFor totalSectors spc = some l ↔
      ∃ found, testSpc spc totalSectors reservedSectors 0 = some found ∧
        fat32MinClusters ≤ found.2 ∧
        ⟨totalSectors, reservedSectors, found.1, spc, found.2⟩ = l := by
  simp [layoutFor, and_assoc]

/-- From 16 sectors on the geometry is sound. -/
theorem sound_of_le {imageSize spc : ℕ} (hlo : 16 ≤ imageSize / sectorSize)
    (hhi : imageSize / sectorSize < 2 ^ 32) (h : layoutFor (imageSize / sectorSize) spc = some l) :
    Sound l imageSize := by
  obtain ⟨⟨fatSectors, finalClusters⟩, hts, hm, rfl⟩ := layoutFor_eq_some_iff.1 h
  generalize htt : imageSize / sectorSize = totalSectors at *
  rw [testSpc_of_le hlo hhi] at hts
  dsimp only at hts
  split_ifs at hts
  rw [some.injEq, Prod.mk.injEq] at hts
  obtain ⟨hf, hcn⟩ := hts
  have hc : (totalSectors - 8) / spc ≤ totalSectors - 8 := div_le_self ..
  have ht := tableSectors_le hc (by omega)
  have hu : finalClusters * spc ≤ totalSectors - 8 - 2 * fatSectors := by
    rw [← hcn, ← hf]
    exact div_mul_le_self ..
  have he : finalClusters ≤ (totalSectors - 8) / spc := by
    rw [← hcn]
    exact Nat.div_le_div_right (Nat.sub_le ..)
  unfold tableSectors at hf ht
  refine ⟨htt.symm, ?_, ?_, hm, ?_⟩
  · simp only [reservedSectors, fatCount]
    omega
  · simp only [fatEntrySize, sectorSize]
    omega
  · simp only [reservedSectors, fatCount, dataAlignBytes, sectorSize]
    omega

variable {imageSize : ℕ}

theorem compute_eq_ok_iff :
    compute imageSize = .ok l ↔ imageSize ≤ maxImageSize ∧ 2 ≤ imageSize / sectorSize ∧
      spcValues.findSome? (layoutFor (imageSize / sectorSize)) = some l := by
  unfold compute
  by_cases hm : maxImageSize < imageSize
  · simp only [hm, not_le.2 hm, false_and, iff_false]
    exact fun h => by cases h
  · by_cases ht : imageSize / sectorSize < 2
    · simp only [hm, ht, not_le.2 ht, false_and, and_false, iff_false]
      exact fun h => by cases h
    · simp only [hm, ht, not_lt.1 hm, not_lt.1 ht, true_and]
      exact okOr_eq_ok_iff

theorem div_sectorSize_lt (h : imageSize ≤ maxImageSize) : imageSize / sectorSize < 2 ^ 32 := by
  have hm : maxImageSize = 0xFFFFFFFF * 512 := by decide
  rw [sectorSize]
  omega

theorem sound_of_compute (h : compute imageSize = .ok l) (hlo : 16 ≤ imageSize / sectorSize) :
    Sound l imageSize := by
  obtain ⟨hm, -, hf⟩ := compute_eq_ok_iff.1 h
  obtain ⟨spc, -, hl⟩ := List.exists_of_findSome?_eq_some hf
  exact sound_of_le hlo (div_sectorSize_lt hm) hl

theorem spc_mem_of_compute (h : compute imageSize = .ok l) : l.spc ∈ spcValues := by
  obtain ⟨-, -, hf⟩ := compute_eq_ok_iff.1 h
  obtain ⟨spc, hs, hl⟩ := List.exists_of_findSome?_eq_some hf
  obtain ⟨found, -, -, rfl⟩ := layoutFor_eq_some_iff.1 hl
  exact hs

/-- Large images have large clusters, so that every cluster has a number of 28 bits. -/
theorem dataClusterCount_lt (h : compute imageSize = .ok l) (hlo : 16 ≤ imageSize / sectorSize) :
    l.dataClusterCount < 2 ^ 27 := by
  have hs := sound_of_compute h hlo
  obtain ⟨hm, -, hfn⟩ := compute_eq_ok_iff.1 h
  have hsp := spc_mem_of_compute h
  have hhi := div_sectorSize_lt hm
  have hft := hs.fits
  rw [hs.sectors] at hft
  generalize imageSize / sectorSize = totalSectors at *
  by_cases hl : totalSectors < 2 ^ 23
  · have hp : ∀ spc ∈ spcValues, 0 < spc := by decide
    have hle := Nat.le_mul_of_pos_right l.dataClusterCount (hp _ hsp)
    omega
  · -- clusters of 64 sectors are enough, and they are tried first
    have ht := @testSpc_of_le 64 totalSectors hlo hhi
    rw [if_neg (by unfold tableSectors; omega)] at ht
    have hf := layoutFor_eq_some_iff.2
      ⟨_, ht, by simp only [fat32MinClusters, tableSectors]; omega, rfl⟩
    rw [spcValues, List.findSome?_cons, hf] at hfn
    cases hfn
    dsimp only
    omega

/-! ## Small images -/

/-- The image has fewer sectors than the reserved ones and the tables, so that a difference wraps
around. With exactly the reserved sectors there is nothing left to divide into clusters. -/
def Wraps (imageSize : ℕ) : Prop :=
  2 ≤ imageSize / sectorSize ∧ imageSize / sectorSize < 16 ∧ imageSize / sectorSize ≠ 8

theorem findSome?_layoutFor_of_lt : ∀ totalSectors < 16, 2 ≤ totalSectors →
    (spcValues.findSome? (layoutFor totalSectors) = none ↔ totalSectors = 8) ∧
    ∀ l ∈ spcValues.findSome? (layoutFor totalSectors),
      ¬l.reservedSectors + fatCount * l.fatSectors + l.dataClusterCount * l.spc ≤ totalSectors := by
  decide +kernel

/-- The number of clusters that a difference below zero makes. -/
theorem le_dataClusterCount_of_lt : ∀ totalSectors < 16, 2 ≤ totalSectors →
    ∀ l ∈ spcValues.findSome? (layoutFor totalSectors),
      2 ^ 57 ≤ l.dataClusterCount ∧ l.dataClusterCount + 2 < 2 ^ 64 := by
  decide +kernel

theorem not_sound_of_wraps (h : Wraps imageSize) :
    ∃ l, compute imageSize = .ok l ∧ ¬Sound l imageSize := by
  obtain ⟨ht, hs, height⟩ := h
  obtain ⟨hn, hf⟩ := findSome?_layoutFor_of_lt _ hs ht
  have hm : maxImageSize = 0xFFFFFFFF * 512 := by decide
  have hsz : imageSize ≤ maxImageSize := by
    rw [sectorSize] at hs
    omega
  obtain ⟨l, hl⟩ := ne_none_iff_exists'.1 fun h => height (hn.1 h)
  refine ⟨l, compute_eq_ok_iff.2 ⟨hsz, ht, hl⟩, fun hsn => hf l hl ?_⟩
  have hle := hsn.fits
  rwa [hsn.sectors] at hle

/-! ## All sizes -/

theorem exists_compute (hmn : minImageSize ≤ imageSize) (hm : imageSize ≤ maxImageSize) :
    ∃ l, compute imageSize = .ok l := by
  have hv : minImageSize = 66581 * 512 := by decide +kernel
  have hhi := div_sectorSize_lt hm
  have hlo : 66581 ≤ imageSize / sectorSize := by
    rw [sectorSize]
    omega
  -- clusters of one sector are always enough
  have ho : (layoutFor (imageSize / sectorSize) 1).isSome := by
    generalize imageSize / sectorSize = totalSectors at *
    have ht := @testSpc_of_le 1 totalSectors (by omega) hhi
    simp only [Nat.div_one, tableSectors] at ht
    rw [if_neg (by omega)] at ht
    refine isSome_iff_exists.2 ⟨_, layoutFor_eq_some_iff.2 ⟨_, ht, ?_, rfl⟩⟩
    simp only [fat32MinClusters]
    omega
  have hs : (spcValues.findSome? (layoutFor (imageSize / sectorSize))).isSome :=
    List.findSome?_isSome_iff.2 ⟨1, by decide, ho⟩
  obtain ⟨l, hl⟩ := isSome_iff_exists.1 hs
  exact ⟨l, compute_eq_ok_iff.2 ⟨hm, by omega, hl⟩⟩

/-- **The geometry is sound** for exactly the image sizes at which no difference wraps around, and
there is one for every size from the least to the largest. -/
theorem geometry_sound_iff (imageSize : ℕ) :
    ((∀ l, compute imageSize = .ok l → Sound l imageSize) ↔ ¬Wraps imageSize) ∧
    (minImageSize ≤ imageSize → imageSize ≤ maxImageSize → ∃ l, compute imageSize = .ok l) := by
  refine ⟨⟨fun h hw => ?_, fun h l hl => ?_⟩, exists_compute⟩
  · obtain ⟨l, hl, hn⟩ := not_sound_of_wraps hw
    exact hn (h l hl)
  · obtain ⟨-, ht, hf⟩ := compute_eq_ok_iff.1 hl
    by_cases hlo : 16 ≤ imageSize / sectorSize
    · exact sound_of_compute hl hlo
    · -- eight sectors have no geometry
      have height : imageSize / sectorSize = 8 := by
        by_contra hne
        exact h ⟨ht, by omega, hne⟩
      rw [(findSome?_layoutFor_of_lt _ (by omega) ht).1.2 height] at hf
      cases hf

/-- **An image of ten sectors** has a volume of almost `2^63` clusters. -/
theorem image_of_ten_sectors : compute 5120 = .ok ⟨10, 8, 4, 2, 9223372036854775805⟩ ∧
      ¬Sound ⟨10, 8, 4, 2, 9223372036854775805⟩ 5120 := by
  refine ⟨by decide +kernel, fun h => ?_⟩
  exact absurd h.fits (by decide)

end Muak.Fatfs
