import Muak.Fatfs.Writer

/-!
# What is on a FAT image

A reader of the image follows the table and the directories from the root.

* `Chain`, `readClusters`, `Reaches`: the clusters of a chain, their bytes, and what is found from
  the root on.
* `Allocated`: every directory and file has the clusters it needs and no others has them.
* `allocated_iff`: an image is allocated like this exactly if no file is empty.
* `empty_file_starts_at_three`: an empty file gets the number of a cluster that is not its own.
-/

namespace Muak.Fatfs

open U64 Bytes List Nat

/-! ## Reading an image -/

section Reading

variable (layout : FatLayout) (image : Bytes)

/-- The entry of a cluster in one of the copies of the table. -/
def fatEntry (copy cluster : ℕ) : Option UInt32 :=
  (slice image ((layout.reservedSectors + copy * layout.fatSectors) * sectorSize +
    cluster * fatEntrySize) fatEntrySize).map fun bytes => UInt32.ofNat (ofLe bytes)

/-- Where the data clusters begin. -/
def FatLayout.dataStart : ℕ :=
  (layout.reservedSectors + fatCount * layout.fatSectors) * sectorSize

/-- The bytes of some clusters. -/
def readClusters : List ℕ → Option Bytes
  | [] => some []
  | cluster :: rest =>
    (slice image (layout.dataStart + (cluster - rootCluster) * layout.clusterBytes)
      layout.clusterBytes).bind fun bytes => (readClusters rest).map (bytes ++ ·)

end Reading

/-- The clusters of a chain in a table, from the first one to the one with the mark. -/
inductive Chain (table : ℕ → Option UInt32) : ℕ → List ℕ → Prop
  | last {cluster : ℕ} (h : table cluster = some fat32Eoc) : Chain table cluster [cluster]
  | link {cluster : ℕ} {next : UInt32} {rest : List ℕ} (h : table cluster = some next)
      (hnext : next < 0x0FFFFFF8) (hrest : Chain table next.toNat rest) :
      Chain table cluster (cluster :: rest)

theorem Chain.unique {table : ℕ → Option UInt32} {cluster : ℕ} {first second : List ℕ}
    (hf : Chain table cluster first) (hs : Chain table cluster second) : first = second := by
  induction hf generalizing second with
  | last h =>
    cases hs with
    | last => rfl
    | link h' hn =>
      cases h.symm.trans h'
      exact absurd hn (by decide)
  | link h hn _ ih =>
    cases hs with
    | last h' =>
      cases h.symm.trans h'
      exact absurd hn (by decide)
    | link h' _ hrest =>
      cases h.symm.trans h'
      rw [ih hrest]

theorem chain_range' {table : ℕ → Option UInt32} {start count : ℕ} (hc : 0 < count)
    (he : start + count < 2 ^ 28 - 8)
    (h : ∀ j < count, table (start + j) =
      some (if j + 1 < count then UInt32.ofNat (start + j + 1) else fat32Eoc)) :
    Chain table start (range' start count) := by
  induction count generalizing start with
  | zero => exact absurd hc (lt_irrefl 0)
  | succ count ih =>
    have hf := h 0 hc
    by_cases ho : count = 0
    · subst ho
      exact .last hf
    · rw [if_pos (by omega)] at hf
      have hn : (UInt32.ofNat (start + 0 + 1)).toNat = start + 1 :=
        UInt32.toNat_ofNat_of_lt' (by change _ < 2 ^ 32; omega)
      refine .link hf ?_ ?_
      · rw [UInt32.lt_iff_toNat_lt]
        exact lt_of_lt_of_le (by omega) (show 2 ^ 28 - 8 ≤ (0x0FFFFFF8 : UInt32).toNat by decide)
      · rw [hn]
        refine ih (by omega) (by omega) fun j hj => ?_
        have hj' := h (j + 1) (by omega)
        rw [show start + (j + 1) = start + 1 + j by omega] at hj'
        rw [hj']
        simp

theorem readClusters_range' {layout : FatLayout} {image bytes : Bytes} {start count : ℕ}
    (hs : rootCluster ≤ start)
    (h : slice image (layout.dataStart + (start - rootCluster) * layout.clusterBytes)
      (count * layout.clusterBytes) = some bytes) :
    readClusters layout image (range' start count) = some bytes := by
  induction count generalizing start bytes with
  | zero =>
    obtain ⟨-, hlen, -⟩ := slice_eq_some_iff.1 h
    rw [zero_mul] at hlen
    rw [length_eq_zero_iff.1 hlen]
    rfl
  | succ count ih =>
    rw [succ_mul, add_comm (count * _)] at h
    obtain ⟨first, rest, hf, hrest, rfl⟩ := slice_add_eq_some h
    rw [add_assoc, ← succ_mul, show (start - rootCluster).succ = start + 1 - rootCluster by
      omega] at hrest
    rw [range'_succ, readClusters, hf, Option.bind_some, ih (by omega) hrest, Option.map_some]

/-! ## What was planned -/

/-- How the metadata of an image were computed. -/
structure Planned (toUppercase : Char → List Char) (files : List FileMeta) (imageSize : ℕ)
    (aliases : List (List Alias)) (P : Precomputed) : Prop where
  layout : compute imageSize = .ok P.layout
  tree : P.tree = DirIndex.collect files
  names : assignAliases toUppercase P.tree files = .ok aliases
  clusterMap :
    assignClusters files P.layout (sizes toUppercase P.tree files aliases) = .ok P.clusterMap
  fatBytes : makeFat P.clusterMap P.layout = some P.fatBytes
  dirData : P.dirData =
    (range P.tree.len).map (buildData toUppercase files P.tree P.clusterMap aliases)
  size : P.imageSize = imageSize

variable {toUppercase : Char → List Char} {files : List FileMeta} {imageSize : ℕ}
  {aliases : List (List Alias)} {P : Precomputed} {readers : List Reader}

theorem clusterBytes_of_compute {l : FatLayout} (h : compute imageSize = .ok l) :
    l.clusterBytes = l.spc * sectorSize ∧ 0 < l.clusterBytes ∧ 32 ∣ l.clusterBytes ∧
      l.clusterBytes < 2 ^ 16 := by
  have ha : ∀ spc ∈ spcValues, wrappingMul spc sectorSize = spc * sectorSize ∧
      0 < wrappingMul spc sectorSize ∧ 32 ∣ wrappingMul spc sectorSize ∧
      wrappingMul spc sectorSize < 2 ^ 16 := by
    decide
  exact ha _ (spc_mem_of_compute h)

theorem exists_planned_of_precompute (h : precompute toUppercase files imageSize = some (.ok P)) :
    ∃ aliases, Planned toUppercase files imageSize aliases P := by
  unfold precompute at h
  split at h
  · cases h
  · next layout aliases clusterMap hp =>
    obtain ⟨fatBytes, hf, hP⟩ := Option.map_eq_some_iff.1 h
    cases hP
    obtain ⟨l, hl, hp⟩ := of_bind hp
    obtain ⟨a, ha, hp⟩ := of_bind hp
    obtain ⟨m, hm, hp⟩ := of_bind hp
    cases hp
    exact ⟨aliases, hl, rfl, ha, hm, hf, rfl, rfl⟩

namespace Planned

section

variable (h : Planned toUppercase files imageSize aliases P)
include h

/-- A table for the clusters that a negative difference makes could not be allocated. -/
theorem le_sectors : 16 ≤ imageSize / sectorSize := by
  obtain ⟨-, ht, hf⟩ := compute_eq_ok_iff.1 h.layout
  by_contra hlt
  obtain ⟨hle, hc⟩ := le_dataClusterCount_of_lt _ (by omega) ht _ hf
  have hft := h.fatBytes
  unfold makeFat at hft
  rw [wrappingAdd_of_lt hc, if_pos (by simp only [addressSpace, fatEntrySize]; omega)] at hft
  cases hft

theorem sound : Sound P.layout imageSize := sound_of_compute h.layout h.le_sectors

theorem count_lt : P.layout.dataClusterCount < 2 ^ 27 := dataClusterCount_lt h.layout h.le_sectors

theorem assigned : Assigned files P.layout (sizes toUppercase P.tree files aliases) P.clusterMap :=
  assigned_of_assignClusters h.clusterMap

theorem reservedSectors_eq : P.layout.reservedSectors = reservedSectors := by
  obtain ⟨-, -, hf⟩ := compute_eq_ok_iff.1 h.layout
  obtain ⟨spc, -, hly⟩ := exists_of_findSome?_eq_some hf
  obtain ⟨found, -, -, hl⟩ := layoutFor_eq_some_iff.1 hly
  rw [← hl]

/-- The table as a list of entries, with zeros up to a whole number of sectors. -/
theorem exists_fat : ∃ (fat : List UInt32) (pad : ℕ),
    P.fatBytes = (fat.map le32).flatten ++ zeros pad ∧
    P.fatBytes.length = P.layout.fatSectors * sectorSize ∧
    ∀ (k : ℕ) start count j, P.clusterMap.starts[k]? = some start →
      P.clusterMap.counts[k]? = some count → j < count →
      fat[start + j]? =
        some (if j + 1 < count then UInt32.ofNat (start + j + 1) else fat32Eoc) := by
  have hcn := h.count_lt
  have he := h.sound.entries
  obtain ⟨fat, hlen, hb, hc⟩ := makeFat_spec h.assigned (by omega) h.fatBytes
  have hfl : (fat.flatMap le32).length = (P.layout.dataClusterCount + 2) * fatEntrySize := by
    rw [flatMap, length_flatten_of_length, length_map, hlen]
    intro bytes hb
    obtain ⟨entry, -, rfl⟩ := mem_map.1 hb
    exact length_le32 entry
  have hf := h.sound.fits
  rw [h.sound.sectors] at hf
  have hs := div_sectorSize_lt (compute_eq_ok_iff.1 h.layout).1
  have hm : wrappingMul P.layout.fatSectors sectorSize = P.layout.fatSectors * sectorSize := by
    refine wrappingMul_of_lt ?_
    simp only [fatCount, sectorSize] at hf hs ⊢
    omega
  refine ⟨fat, _, hb, ?_, hc⟩
  rw [hb, length_append, length_zeros]
  omega

end

end Planned

/-! ## Owners -/

/-- A directory or file of the image. -/
def Kind.Listed (files : List FileMeta) (P : Precomputed) : Kind → Prop
  | .directory index => index < P.tree.len
  | .file index => index < files.length

/-- The number of bytes of a directory or file. -/
def Kind.size (files : List FileMeta) (P : Precomputed) : Kind → ℕ
  | .directory index => (P.dirData.getD index []).length
  | .file index => ((files[index]?).map FileMeta.size).getD 0

/-- The directories come before the files. -/
def Kind.position (P : Precomputed) : Kind → ℕ
  | .directory index => index
  | .file index => P.tree.len + index

/-- The first cluster that was assigned. -/
def Kind.start (P : Precomputed) : Kind → UInt32
  | .directory index => P.clusterMap.dirStarts.getD index 2
  | .file index => P.clusterMap.fileStarts.getD index 2

/-- The bytes of the clusters of a directory or file. -/
def Kind.block (files : List FileMeta) (P : Precomputed) (readers : List Reader) : Kind → Bytes
  | .directory index => dirBlock P index
  | .file index => fileBlock P.layout.clusterBytes ((contents files readers).getD index [])

theorem Kind.position_injective {kind kind' : Kind} (hk : kind.Listed files P)
    (hk' : kind'.Listed files P) (h : kind.position P = kind'.position P) : kind = kind' := by
  cases kind <;> cases kind' <;> simp only [Kind.position, Kind.Listed] at * <;>
    first | (subst h; rfl) | omega | (congr 1; omega)

theorem map_length_contents (h : Supplied files readers) :
    (contents files readers).map length = files.map FileMeta.size := by
  induction h with
  | nil => rfl
  | cons hf _ ih =>
    rw [contents] at ih ⊢
    rw [zipWith_cons_cons, map_cons, map_cons, ih, length_take_of_le hf]

theorem getElem?_dataBlocks {kind : Kind} (hreaders : Supplied files readers)
    (hk : kind.Listed files P) :
    (dataBlocks P files readers)[kind.position P]? = some (kind.block files P readers) := by
  rw [dataBlocks]
  cases kind with
  | directory index =>
    have hlt : index < P.tree.len := hk
    rw [Kind.position, Kind.block, getElem?_append_left (by simpa using hlt)]
    simp [hlt]
  | file index =>
    have hlt : index < (contents files readers).length := by
      have hlen := congrArg length (map_length_contents hreaders)
      rw [length_map, length_map] at hlen
      exact hlen ▸ hk
    rw [Kind.position, Kind.block]
    simp [hlt]

namespace Planned

section

variable (h : Planned toUppercase files imageSize aliases P) {kind : Kind}
include h

theorem getD_dirData {dirIndex : ℕ} (hlt : dirIndex < P.tree.len) : P.dirData.getD dirIndex [] =
      buildData toUppercase files P.tree P.clusterMap aliases dirIndex := by
  rw [h.dirData, getD_eq_getElem?_getD, getElem?_map, getElem?_range hlt]
  rfl

theorem getElem?_counts (hk : kind.Listed files P) : P.clusterMap.counts[kind.position P]? =
      some (divCeil (kind.size files P) P.layout.clusterBytes) := by
  rw [ClusterMap.counts, h.assigned.dirCounts, h.assigned.fileCounts, sizes]
  cases kind with
  | directory index =>
    have hlt : index < P.tree.len := hk
    rw [Kind.position, Kind.size, h.getD_dirData hlt, length_buildData,
      getElem?_append_left (by simpa using hlt)]
    simp [hlt]
  | file index =>
    have hlt : index < files.length := hk
    rw [Kind.position, Kind.size]
    simp [hlt]

theorem getElem?_starts (hk : kind.Listed files P) :
    P.clusterMap.starts[kind.position P]? = some (kind.start P).toNat := by
  have hd : P.clusterMap.dirStarts.length = P.tree.len := by
    rw [h.assigned.dirStarts, sizes, length_map, length_range]
  have hf : P.clusterMap.dirStarts.length + P.clusterMap.fileStarts.length =
      P.tree.len + files.length := by
    have hlen := congrArg length h.assigned.starts
    rw [ClusterMap.counts, h.assigned.dirCounts, h.assigned.fileCounts, sizes] at hlen
    simpa [ClusterMap.starts] using hlen
  rw [ClusterMap.starts]
  cases kind with
  | directory index =>
    have hlt : index < P.tree.len := hk
    rw [Kind.position, Kind.start, getElem?_append_left (by simpa [hd] using hlt)]
    simp [hd, hlt]
  | file index =>
    have hlt : index < P.clusterMap.fileStarts.length := by
      have : index < files.length := hk
      omega
    rw [Kind.position, Kind.start]
    simp [hd, hlt]

theorem start_within (hk : kind.Listed files P) : rootCluster ≤ (kind.start P).toNat ∧
      (kind.start P).toNat + divCeil (kind.size files P) P.layout.clusterBytes ≤
        rootCluster + P.layout.dataClusterCount := by
  have hs := h.getElem?_starts hk
  rw [h.assigned.starts] at hs
  have hw := Blocks.starts_within hs (h.getElem?_counts hk)
  have hu := h.assigned.used
  omega

theorem start_disjoint {kind' : Kind} (hk : kind.Listed files P)
    (hk' : kind'.Listed files P) (hne : kind ≠ kind') :
    (kind.start P).toNat + divCeil (kind.size files P) P.layout.clusterBytes ≤
        (kind'.start P).toNat ∨
      (kind'.start P).toNat + divCeil (kind'.size files P) P.layout.clusterBytes ≤
        (kind.start P).toNat := by
  have hs := h.getElem?_starts hk
  have hs' := h.getElem?_starts hk'
  rw [h.assigned.starts] at hs hs'
  rcases lt_trichotomy (kind.position P) (kind'.position P) with hlt | heq | hlt
  · exact .inl (Blocks.starts_disjoint hlt hs (h.getElem?_counts hk) hs')
  · exact absurd (Kind.position_injective hk hk' heq) hne
  · exact .inr (Blocks.starts_disjoint hlt hs' (h.getElem?_counts hk') hs)

theorem dirBlock_eq {dirIndex : ℕ} (hlt : dirIndex < P.tree.len) :
    dirBlock P dirIndex = P.dirData.getD dirIndex [] ++
      zeros (divCeil (P.dirData.getD dirIndex []).length P.layout.clusterBytes *
        P.layout.clusterBytes - (P.dirData.getD dirIndex []).length) := by
  have hcn : (P.clusterMap.dirCounts.getD dirIndex 1).toNat =
      divCeil (P.dirData.getD dirIndex []).length P.layout.clusterBytes := by
    have hget : (P.clusterMap.dirCounts.map UInt32.toNat)[dirIndex]? =
        some (divCeil (P.dirData.getD dirIndex []).length P.layout.clusterBytes) := by
      rw [h.assigned.dirCounts, sizes, h.getD_dirData hlt, length_buildData]
      simp [hlt]
    rw [getElem?_map, Option.map_eq_some_iff] at hget
    obtain ⟨count, hcn, heq⟩ := hget
    rw [getD_eq_getElem?_getD, hcn, Option.getD_some, heq]
  have hle : divCeil (P.dirData.getD dirIndex []).length P.layout.clusterBytes ≤ 2 ^ 28 := by
    have hw := (@start_within _ _ _ _ _ h (.directory dirIndex) hlt).2
    have hc := h.count_lt
    rw [Kind.size, rootCluster] at hw
    omega
  have hm := Nat.mul_le_mul hle (clusterBytes_of_compute h.layout).2.2.2.le
  rw [dirBlock, hcn, wrappingMul_of_lt (lt_of_le_of_lt hm (by decide))]

theorem map_length_dataBlocks (hreaders : Supplied files readers) :
    (dataBlocks P files readers).map length =
      P.clusterMap.counts.map (· * P.layout.clusterBytes) := by
  have hp := (clusterBytes_of_compute h.layout).2.1
  have hb : ∀ data : Bytes, (fileBlock P.layout.clusterBytes data).length =
      divCeil data.length P.layout.clusterBytes * P.layout.clusterBytes := by
    intro data
    have hle := @le_divCeil_mul data.length P.layout.clusterBytes hp
    rw [fileBlock, length_append, length_zeros]
    omega
  rw [dataBlocks, ClusterMap.counts, h.assigned.dirCounts, h.assigned.fileCounts, sizes, map_append,
    map_append]
  simp only [map_map]
  congr 1
  · refine map_congr_left fun dirIndex hmm => ?_
    have hlt := mem_range.1 hmm
    have hle := @le_divCeil_mul (P.dirData.getD dirIndex []).length P.layout.clusterBytes hp
    simp only [Function.comp_apply]
    rw [h.dirBlock_eq hlt, length_append, length_zeros, ← @length_buildData toUppercase files
      P.tree P.clusterMap aliases, ← h.getD_dirData hlt]
    omega
  · have hm := congrArg (map fun size =>
      divCeil size P.layout.clusterBytes * P.layout.clusterBytes) (map_length_contents hreaders)
    simp only [map_map] at hm
    exact (map_congr_left fun data _ => hb data).trans hm

end

/-- The image: all that is used, and zeros. -/
def image (P : Precomputed) (files : List FileMeta) (readers : List Reader) : Bytes :=
  usedBytes P files readers ++ zeros (P.imageSize - (usedBytes P files readers).length)

section

variable (h : Planned toUppercase files imageSize aliases P) (hreaders : Supplied files readers)
  {kind : Kind}
include h

theorem length_reservedBytes :
    (reservedBytes P.layout P.fsInfo).length = P.layout.reservedSectors * sectorSize := by
  rw [Fatfs.length_reservedBytes h.reservedSectors_eq, h.reservedSectors_eq]

theorem length_fatBytes : P.fatBytes.length = P.layout.fatSectors * sectorSize := by
  obtain ⟨fat, pad, -, hlen, -⟩ := h.exists_fat
  exact hlen

include hreaders

theorem length_usedBytes_le : (usedBytes P files readers).length ≤ imageSize := by
  have hlen : (usedBytes P files readers).length =
      P.layout.dataStart + P.clusterMap.counts.sum * P.layout.clusterBytes := by
    simp only [usedBytes, length_append, length_flatten, h.length_reservedBytes, h.length_fatBytes,
      h.map_length_dataBlocks hreaders, FatLayout.dataStart]
    rw [sum_map_mul_right, map_id', fatCount, add_mul, mul_assoc]
    omega
  have hf := h.sound.fits
  rw [h.sound.sectors] at hf
  have hs := div_mul_le_self imageSize sectorSize
  calc (usedBytes P files readers).length
      ≤ P.layout.dataStart + P.layout.dataClusterCount * (P.layout.spc * sectorSize) := by
        rw [hlen, ← (clusterBytes_of_compute h.layout).1]
        exact Nat.add_le_add_left (Nat.mul_le_mul_right _ h.assigned.used) _
    _ = (P.layout.reservedSectors + fatCount * P.layout.fatSectors +
          P.layout.dataClusterCount * P.layout.spc) * sectorSize := by
        rw [FatLayout.dataStart, ← mul_assoc, ← add_mul]
    _ ≤ imageSize := (mul_le_mul_right _ hf).trans hs

theorem build_eq_image : build P readers = .ok (image P files readers) := by
  have hm := (compute_eq_ok_iff.1 h.layout).1
  have hv : maxImageSize < 2 ^ 64 := by decide
  have hle := h.length_usedBytes_le hreaders
  exact build_eq (clusterBytes_of_compute h.layout).2.1 h.assigned.fileSizes hreaders (by omega)
    (by rw [h.size]; omega)

theorem length_image : (image P files readers).length = imageSize := by
  have hle := h.length_usedBytes_le hreaders
  rw [image, length_append, length_zeros, h.size]
  omega

omit hreaders in
/-- Both copies of the table have the chains of all owners. -/
theorem fatEntry_image {copy j : ℕ} (hcopy : copy < fatCount) (hkind : kind.Listed files P)
    (hj : j < divCeil (kind.size files P) P.layout.clusterBytes) :
    fatEntry P.layout (image P files readers) copy ((kind.start P).toNat + j) =
      some (if j + 1 < divCeil (kind.size files P) P.layout.clusterBytes then
        UInt32.ofNat ((kind.start P).toNat + j + 1) else fat32Eoc) := by
  obtain ⟨fat, pad, hbytes, hlength, hchains⟩ := h.exists_fat
  have hentry := hchains _ _ _ j (h.getElem?_starts hkind) (h.getElem?_counts hkind) hj
  -- what comes before the copy, and after it
  obtain ⟨before, after, himage, hbefore⟩ : ∃ before after,
      image P files readers = before ++ (P.fatBytes ++ after) ∧
        before.length = (P.layout.reservedSectors + copy * P.layout.fatSectors) * sectorSize := by
    have hreserved := h.length_reservedBytes
    have hcases : copy = 0 ∨ copy = 1 := by
      rw [fatCount] at hcopy
      omega
    obtain ⟨rest, himage⟩ : ∃ rest, image P files readers =
        reservedBytes P.layout P.fsInfo ++ (P.fatBytes ++ (P.fatBytes ++ rest)) :=
      ⟨(dataBlocks P files readers).flatten ++
          zeros (P.imageSize - (usedBytes P files readers).length),
        by simp only [image, usedBytes, append_assoc]⟩
    rcases hcases with rfl | rfl
    · exact ⟨_, _, himage, by rw [hreserved, zero_mul, add_zero]⟩
    · refine ⟨reservedBytes P.layout P.fsInfo ++ P.fatBytes, rest, ?_, ?_⟩
      · rw [himage, append_assoc]
      · rw [length_append, hreserved, hlength, one_mul, add_mul]
  have hpieces : ∀ bytes ∈ fat.map le32, bytes.length = fatEntrySize := by
    intro bytes hmem
    obtain ⟨entry, -, rfl⟩ := mem_map.1 hmem
    exact length_le32 entry
  rw [fatEntry, himage, slice_append_right hbefore, hbytes, append_assoc,
    slice_flatten_of_length hpieces (by rw [getElem?_map, hentry]; rfl), Option.map_some,
    ofNat_ofLe_le32]

/-- The clusters of an owner hold its bytes. -/
theorem readClusters_image (hk : kind.Listed files P) :
    readClusters P.layout (image P files readers) (range' (kind.start P).toNat
          (divCeil (kind.size files P) P.layout.clusterBytes)) =
      some (kind.block files P readers) := by
  refine readClusters_range' (h.start_within hk).1 ?_
  have hb : (reservedBytes P.layout P.fsInfo ++ P.fatBytes ++ P.fatBytes).length =
      P.layout.dataStart := by
    rw [length_append, length_append, h.length_reservedBytes, h.length_fatBytes,
      FatLayout.dataStart, fatCount, add_mul, mul_assoc]
    omega
  have hs := h.getElem?_starts hk
  rw [h.assigned.starts] at hs
  rw [image, usedBytes, append_assoc, slice_append_right hb]
  exact Blocks.slice_flatten (h.map_length_dataBlocks hreaders) hs (h.getElem?_counts hk)
    (getElem?_dataBlocks hreaders hk) _

end

end Planned

/-! ## What is found -/

def Kind.attr : Kind → UInt8
  | .directory _ => attrDirectory
  | .file _ => attrArchive

/-- A reader that starts at the first cluster of the root and goes from directory to directory finds
an entry for this one, with this first cluster. The root has no entry. -/
inductive Reaches (files : List FileMeta) (P : Precomputed) (image : Bytes) : Kind → UInt32 → Prop
  | root : Reaches files P image (.directory 0) 2
  | child {dirIndex k : ℕ} {cluster : UInt32} {clusters : List ℕ} {bytes : Bytes}
      {entry : DirEntry} {name : String} {kind : Kind}
      (hdir : Reaches files P image (.directory dirIndex) cluster)
      (hchain : Chain (fatEntry P.layout image 0) cluster.toNat clusters)
      (hread : readClusters P.layout image clusters = some bytes)
      (hentry : (readDir bytes)[k]? = some entry)
      (hkind : (P.tree.entries files dirIndex)[k]? = some (name, kind))
      (hattr : entry.attr = kind.attr) : Reaches files P image kind entry.cluster

namespace Planned

section

variable (h : Planned toUppercase files imageSize aliases P) (hreaders : Supplied files readers)
  {kind : Kind}
include h

theorem length_dirData_pos {dirIndex : ℕ} (hlt : dirIndex < P.tree.len) :
    0 < (P.dirData.getD dirIndex []).length := by
  rw [h.getD_dirData hlt, length_buildData, sizeOfDir]
  split_ifs <;> omega

theorem chain_image {copy : ℕ} (hcp : copy < fatCount) (hk : kind.Listed files P)
    (hs : kind.size files P ≠ 0) :
    Chain (fatEntry P.layout (image P files readers) copy) (kind.start P).toNat
      (range' (kind.start P).toNat
        (divCeil (kind.size files P) P.layout.clusterBytes)) := by
  have hw := (h.start_within hk).2
  have hc := h.count_lt
  rw [rootCluster] at hw
  refine chain_range' ?_ (by omega) fun j hj => h.fatEntry_image hcp hk hj
  rw [pos_iff_ne_zero, Ne, divCeil_eq_zero_iff (clusterBytes_of_compute h.layout).2.1]
  exact hs

/-- The entries of a directory, read from its clusters. -/
theorem getElem?_readDir {dirIndex k : ℕ} {name : String} (hlt : dirIndex < P.tree.len)
    (hk : (P.tree.entries files dirIndex)[k]? = some (name, kind)) :
    ∃ entry, (readDir (dirBlock P dirIndex))[k]? = some entry ∧ entry.attr = kind.attr ∧
      entry.cluster = kind.start P := by
  obtain ⟨hlen, hv⟩ := assignAliases_spec h.names hlt
  -- the rest of the last cluster is a whole number of entries
  obtain ⟨pad, hp⟩ : ∃ pad, dirBlock P dirIndex =
      buildData toUppercase files P.tree P.clusterMap aliases dirIndex ++ zeros (32 * pad) := by
    have hd : 32 ∣ (buildData toUppercase files P.tree P.clusterMap aliases dirIndex).length := by
      rw [buildData, length_flatten_of_length fun slot => length_of_mem_dirSlots]
      exact dvd_mul_left ..
    rw [h.dirBlock_eq hlt, h.getD_dirData hlt]
    obtain ⟨pad, hp⟩ := dvd_sub ((clusterBytes_of_compute h.layout).2.2.1.mul_left (divCeil
      (buildData toUppercase files P.tree P.clusterMap aliases dirIndex).length
      P.layout.clusterBytes)) hd
    exact ⟨pad, by rw [hp]⟩
  have hl := (List.getElem?_eq_some_iff.1 hk).1
  obtain ⟨short, hs⟩ : ∃ short, (aliases.getD dirIndex [])[k]? = some short :=
    ⟨_, getElem?_eq_getElem (hlen ▸ hl)⟩
  refine ⟨entryOf files P.clusterMap kind short, ?_, ?_, ?_⟩
  · rw [hp, readDir_buildData hv, getElem?_map,
      (getElem?_zip_eq_some (z := ((name, kind), short))).2 ⟨hk, hs⟩]
    rfl
  · cases kind <;> rfl
  · cases kind <;> rfl

theorem start_root : Kind.start P (.directory 0) = 2 := by
  have hp := DirIndex.len_pos files
  rw [← h.tree] at hp
  have hs := @getElem?_starts _ _ _ _ _ h (.directory 0) hp
  have hcn := @getElem?_counts _ _ _ _ _ h (.directory 0) hp
  rw [h.assigned.starts] at hs
  cases hc : P.clusterMap.counts with
  | nil =>
    rw [hc] at hcn
    cases hcn
  | cons first rest =>
    rw [hc] at hs
    exact UInt32.toNat_inj.1 (Option.some.inj hs).symm

include hreaders

/-- What an entry of a directory that is found leads to. -/
theorem reaches_child {dirIndex : ℕ} {name : String} (hlt : dirIndex < P.tree.len)
    (hd : Reaches files P (image P files readers) (.directory dirIndex)
      (Kind.start P (.directory dirIndex)))
    (hm : (name, kind) ∈ P.tree.entries files dirIndex) :
    Reaches files P (image P files readers) kind (kind.start P) := by
  obtain ⟨k, hk⟩ := mem_iff_getElem?.1 hm
  obtain ⟨entry, he, ha, hc⟩ := h.getElem?_readDir hlt hk
  have hl : (Kind.directory dirIndex).Listed files P := hlt
  rw [← hc]
  exact .child hd (h.chain_image (by decide) hl (h.length_dirData_pos hlt).ne')
    (h.readClusters_image hreaders hl) he hk ha

/-- Every directory and file is found, where it was assigned. -/
theorem reaches_start (hr : ∀ file ∈ files, Relative file.path) (hk : kind.Listed files P) :
    Reaches files P (image P files readers) kind (kind.start P) := by
  have hd : ∀ length dirIndex, (P.tree.path dirIndex).toList.length = length →
      dirIndex < P.tree.len → Reaches files P (image P files readers) (.directory dirIndex)
        (Kind.start P (.directory dirIndex)) := by
    intro length
    induction length using Nat.strong_induction_on with
    | h length ih =>
      intro dirIndex hlen hlt
      by_cases hroot : dirIndex = 0
      · rw [hroot, h.start_root]
        exact .root
      · rw [h.tree] at hlt hlen
        obtain ⟨hl, hp, hne, hm⟩ := DirIndex.parentOf_collect hr hlt hroot
        have hs := length_parentPath hne
        rw [← hp, hlen] at hs
        rw [← h.tree] at hl hm hs
        refine h.reaches_child hreaders hl (ih _ hs _ rfl hl)
          (mem_append_left _ (mem_map.2 ⟨dirIndex, hm, rfl⟩))
  cases kind with
  | directory dirIndex => exact hd _ dirIndex rfl hk
  | file index =>
    obtain ⟨dirIndex, hlt, -, hm⟩ := DirIndex.exists_mem_files hk
    rw [← h.tree] at hlt hm
    exact h.reaches_child hreaders hlt (hd _ dirIndex rfl hlt)
      (mem_append_right _ (mem_map.2 ⟨index, hm, rfl⟩))

/-- Nothing else is found. -/
theorem eq_start_of_reaches {cluster : UInt32}
    (hr : Reaches files P (image P files readers) kind cluster) :
    kind.Listed files P ∧ cluster = kind.start P := by
  induction hr with
  | root =>
    refine ⟨?_, h.start_root.symm⟩
    have hp := DirIndex.len_pos files
    rw [← h.tree] at hp
    exact hp
  | @child dirIndex k cluster clusters bytes entry name kind hd hch hrd he hk _ ih =>
    obtain ⟨hl, rfl⟩ := ih
    have ho : Chain (fatEntry P.layout (image P files readers) 0) _ _ :=
      h.chain_image (by decide) hl (h.length_dirData_pos hl).ne'
    rw [hch.unique ho, h.readClusters_image hreaders hl] at hrd
    cases hrd
    obtain ⟨found, hf, -, hc⟩ := h.getElem?_readDir hl hk
    cases he.symm.trans hf
    refine ⟨?_, hc⟩
    have hm := mem_of_getElem? hk
    rw [h.tree] at hm
    cases kind with
    | directory index =>
      have hlt : index < (DirIndex.collect files).len := DirIndex.lt_of_mem_entries hm
      rwa [← h.tree] at hlt
    | file index => exact DirIndex.lt_of_mem_entries hm

end

end Planned

/-! ## Allocation -/

/-- The allocation of an image, with the first cluster and the chain of each directory and file. -/
structure AllocatedBy (files : List FileMeta) (contents : List Bytes) (P : Precomputed)
    (image : Bytes) (first : Kind → UInt32) (chain : Kind → List ℕ) : Prop where
  /-- All of them are found from the root on, with their first cluster. -/
  reached : ∀ kind : Kind, kind.Listed files P → Reaches files P image kind (first kind)
  /-- A directory other than the root is an entry of its parent. -/
  parent : ∀ dirIndex < P.tree.len, dirIndex ≠ 0 →
    P.tree.path (P.tree.parentOf dirIndex) = parentPath (P.tree.path dirIndex) ∧
      ∃ name, (name, .directory dirIndex) ∈ P.tree.entries files (P.tree.parentOf dirIndex)
  /-- A file is an entry of the directory that its path names. -/
  home : ∀ index file, files[index]? = some file → ∃ dirIndex < P.tree.len,
    P.tree.path dirIndex = parentPath file.path ∧
      ∃ name, (name, .file index) ∈ P.tree.entries files dirIndex
  /-- Whatever is not empty has its chain in both tables. -/
  owned : ∀ kind : Kind, kind.Listed files P → kind.size files P ≠ 0 → ∀ copy < fatCount,
    Chain (fatEntry P.layout image copy) (first kind).toNat (chain kind)
  /-- The chain has as many clusters as are needed. -/
  length : ∀ kind : Kind, kind.Listed files P →
    (chain kind).length = divCeil (kind.size files P) P.layout.clusterBytes
  within : ∀ kind : Kind, kind.Listed files P → ∀ cluster ∈ chain kind,
    rootCluster ≤ cluster ∧ cluster < rootCluster + P.layout.dataClusterCount
  disjoint : ∀ kind kind' : Kind, kind.Listed files P → kind'.Listed files P → kind ≠ kind' →
    (chain kind).Disjoint (chain kind')
  /-- The clusters of a file start with its bytes. -/
  data : ∀ index bytes, contents[index]? = some bytes →
    ∃ rest, readClusters P.layout image (chain (.file index)) = some (bytes ++ rest)
  /-- An empty file has no cluster, and its entry says so. -/
  empty : ∀ index file, files[index]? = some file → file.size = 0 → first (.file index) = 0
  size : sectorSize ∣ P.imageSize → image.length = P.imageSize

/-- The image is allocated by some numbers and chains. -/
def Allocated (files : List FileMeta) (contents : List Bytes) (P : Precomputed)
    (image : Bytes) : Prop :=
  ∃ first chain, AllocatedBy files contents P image first chain

section

variable (h : Planned toUppercase files imageSize aliases P) (hreaders : Supplied files readers)
include h hreaders

/-- Only the entries of empty files are not as they should be. -/
theorem Planned.allocatedBy (hrel : ∀ file ∈ files, Relative file.path)
    (hs : ∀ file ∈ files, file.size ≠ 0) :
    AllocatedBy files (contents files readers) P (image P files readers) (Kind.start P) fun kind =>
      range' (kind.start P).toNat (divCeil (kind.size files P) P.layout.clusterBytes) where
  reached kind hk := h.reaches_start hreaders hrel hk
  parent dirIndex hlt hne := by
    rw [h.tree] at hlt ⊢
    obtain ⟨-, hp, -, hmem⟩ := DirIndex.parentOf_collect hrel hlt hne
    exact ⟨hp, _, mem_append_left _ (mem_map.2 ⟨dirIndex, hmem, rfl⟩)⟩
  home index file hf := by
    obtain ⟨hlt, rfl⟩ := List.getElem?_eq_some_iff.1 hf
    obtain ⟨dirIndex, hl, hp, hmem⟩ := DirIndex.exists_mem_files hlt
    rw [h.tree]
    exact ⟨dirIndex, hl, hp, _, mem_append_right _ (mem_map.2 ⟨index, hmem, rfl⟩)⟩
  owned kind hk hsz copy hcp := h.chain_image hcp hk hsz
  length kind _ := length_range'
  within kind hk cluster hc := by
    have hw := h.start_within hk
    rw [mem_range'_1] at hc
    omega
  disjoint kind kind' hk hk' hne := by
    have hd := h.start_disjoint hk hk' hne
    intro cluster hc hc'
    rw [mem_range'_1] at hc hc'
    omega
  data index bytes hb := by
    have hlt : index < files.length := by
      have hlen := congrArg length (map_length_contents hreaders)
      rw [length_map, length_map] at hlen
      exact hlen ▸ (List.getElem?_eq_some_iff.1 hb).1
    have hr := h.readClusters_image hreaders (show (Kind.file index).Listed files P from hlt)
    rw [Kind.block, getD_eq_getElem?_getD, hb] at hr
    exact ⟨_, hr⟩
  empty index file hf hsz := absurd hsz (hs file (mem_of_getElem? hf))
  size _ := by rw [h.length_image hreaders, h.size]

/-- The entry of an empty file has the number of a data cluster. -/
theorem Planned.not_allocated {file : FileMeta} (hf : file ∈ files) (hs : file.size = 0) :
    ¬Allocated files (contents files readers) P (image P files readers) := by
  rintro ⟨first, chain, ha⟩
  obtain ⟨index, hi⟩ := mem_iff_getElem?.1 hf
  have hl : (Kind.file index).Listed files P := (List.getElem?_eq_some_iff.1 hi).1
  have hz := (h.eq_start_of_reaches hreaders (ha.reached _ hl)).2
  rw [ha.empty index file hi hs] at hz
  have hle := (h.start_within hl).1
  rw [← hz] at hle
  exact absurd hle (by decide)

end

/-! ## An image with one file -/

/-- The case conversion of the letters without marks. -/
def asciiUppercase (c : Char) : List Char := [c.toUpper]

/-- The short name of the file. -/
def aliasA : Alias := ⟨[65, 32, 32, 32, 32, 32, 32, 32, 32, 32, 32], rfl⟩

theorem collect_single (size : ℕ) : DirIndex.collect [⟨"a", size⟩] = ⟨[""], [[0]], [[]], [0]⟩ := by
  have hd : collectDirs [⟨"a", size⟩] = [""] := by
    have hn : ancestors "a" = [] := ancestors_of_none (by rfl)
    simp only [collectDirs, foldl_cons, registerAncestors, hn]
    rfl
  have hp : parentIndex [""] "a" = 0 := by decide +kernel
  have hl : linkChildren [""] = ([[]], [0]) := by decide +kernel
  simp [DirIndex.collect, hd, hl, groupFiles, hp]

theorem assignClusters_single {layout : FatLayout} {size : ℕ} (hsp : layout.spc ∈ spcValues)
    (hcn : fat32MinClusters ≤ layout.dataClusterCount) (hs : size < 2) :
    assignClusters [⟨"a", size⟩] layout [64] = .ok ⟨[2], [1], [3], [size], [size]⟩ := by
  have hdv : ∀ spc ∈ spcValues, divCeil 64 (wrappingMul spc sectorSize) = 1 ∧
      ∀ size < 2, divCeil size (wrappingMul spc sectorSize) = size := by
    decide
  obtain ⟨hdr, hfl⟩ := hdv _ hsp
  have hd : assignDirs layout.clusterBytes rootCluster [64] = .ok ([2], [1], 3) := by
    rw [assignDirs, FatLayout.clusterBytes, hdr]
    rfl
  have hc : size = 0 ∨ size = 1 := by omega
  have hf : assignFiles layout.clusterBytes 3 [⟨"a", size⟩] = .ok ([3], [size], 3 + size) := by
    rw [assignFiles, FatLayout.clusterBytes, hfl size hs]
    rcases hc with rfl | rfl <;> rfl
  rw [assignClusters, hd, ok_bind]
  dsimp only
  rw [hf, ok_bind]
  dsimp only
  rw [rootCluster, wrappingSub_of_le (by omega) (by omega), if_neg]
  · rfl
  · rw [fat32MinClusters] at hcn
    omega

/-- The metadata of an image with one file of at most one byte. -/
theorem exists_precompute_single {size : ℕ} (hsi : size < 2) :
    ∃ P, precompute asciiUppercase [⟨"a", size⟩] minImageSize = some (.ok P) ∧
      P.clusterMap = ⟨[2], [1], [3], [size], [size]⟩ := by
  obtain ⟨layout, hl⟩ := exists_compute le_rfl (by decide +kernel)
  have hs : 16 ≤ minImageSize / sectorSize := by decide +kernel
  have hnm : nameOf "a" = "a" := by decide +kernel
  have hn : assignNames asciiUppercase [] ["a"] = .ok [aliasA] := by decide +kernel
  have hf : fits asciiUppercase aliasA "a" = true := by decide +kernel
  have ha : assignAliases asciiUppercase ⟨[""], [[0]], [[]], [0]⟩ [⟨"a", size⟩] =
      .ok [[aliasA]] := by
    simp [assignAliases, DirIndex.len, DirIndex.entries, DirIndex.subdirs, DirIndex.files, hnm, hn]
  have hsz : sizes asciiUppercase ⟨[""], [[0]], [[]], [0]⟩ [⟨"a", size⟩] [[aliasA]] = [64] := by
    simp [sizes, sizeOfDir, DirIndex.len, DirIndex.entries, DirIndex.subdirs, DirIndex.files, hnm,
      entryBytesLen, hf]
  have hm := assignClusters_single (spc_mem_of_compute hl) (sound_of_compute hl hs).clusters hsi
  have hp : plan asciiUppercase [⟨"a", size⟩] minImageSize =
      .ok (layout, [[aliasA]], ⟨[2], [1], [3], [size], [size]⟩) := by
    simp [plan, collect_single, hl, ha, hsz, hm]
  have hc := dataClusterCount_lt hl hs
  have hft : ¬addressSpace < wrappingAdd layout.dataClusterCount 2 * fatEntrySize := by
    rw [wrappingAdd_of_lt (by omega), addressSpace, fatEntrySize]
    omega
  rw [precompute, hp]
  simp only [makeFat, if_neg hft]
  exact ⟨_, rfl, rfl⟩

/-- **Allocation on the image**: for all files with relative paths and all sizes of the image for
which there are metadata, the image is built, and every directory and file has its own clusters
exactly if no file is empty. -/
theorem allocated_iff (toUppercase : Char → List Char) (files : List FileMeta) (imageSize : ℕ)
    (P : Precomputed) (readers : List Reader) (hrel : ∀ file ∈ files, Relative file.path)
    (hP : precompute toUppercase files imageSize = some (.ok P))
    (hreaders : Supplied files readers) :
    ∃ image, build P readers = .ok image ∧
      (Allocated files (contents files readers) P image ↔ ∀ file ∈ files, file.size ≠ 0) := by
  obtain ⟨aliases, h⟩ := exists_planned_of_precompute hP
  refine ⟨_, h.build_eq_image hreaders, fun ha file hf hsz => ?_, fun hs => ?_⟩
  · exact h.not_allocated hreaders hf hsz ha
  · exact ⟨_, _, h.allocatedBy hreaders hrel hs⟩

/-- With one file of one byte the whole image is as it should be. -/
theorem allocated_single : ∃ P image, precompute asciiUppercase [⟨"a", 1⟩] minImageSize =
      some (.ok P) ∧ build P [⟨[7], fun _ => 0⟩] = .ok image ∧
    Allocated [⟨"a", 1⟩] [[7]] P image := by
  obtain ⟨P, hP, -⟩ := exists_precompute_single (show 1 < 2 by decide)
  obtain ⟨image, hb, hi⟩ := allocated_iff asciiUppercase [⟨"a", 1⟩] minImageSize P
    [⟨[7], fun _ => 0⟩] (by simp [Relative]) hP (.cons le_rfl .nil)
  exact ⟨P, image, hP, hb, hi.2 (by simp)⟩

/-- **An empty file** owns no cluster, but its entry has the number of the next free one. -/
theorem empty_file_starts_at_three : ∃ P image,
    precompute asciiUppercase [⟨"a", 0⟩] minImageSize = some (.ok P) ∧
      build P [⟨[], fun _ => 0⟩] = .ok image ∧
      Reaches [⟨"a", 0⟩] P image (.file 0) 3 ∧ ¬Allocated [⟨"a", 0⟩] [[]] P image := by
  obtain ⟨P, hP, hm⟩ := exists_precompute_single (show 0 < 2 by decide)
  obtain ⟨aliases, h⟩ := exists_planned_of_precompute hP
  have hreaders : Supplied [⟨"a", 0⟩] [⟨[], fun _ => 0⟩] := .cons le_rfl .nil
  have hr := h.reaches_start hreaders (by simp [Relative])
    (show (Kind.file 0).Listed [⟨"a", 0⟩] P from zero_lt_one)
  rw [Kind.start, hm] at hr
  exact ⟨P, _, hP, h.build_eq_image hreaders, hr,
    h.not_allocated hreaders (mem_singleton.2 rfl) rfl⟩

end Muak.Fatfs
