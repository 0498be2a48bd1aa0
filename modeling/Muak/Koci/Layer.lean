import Muak.Foundations.Dict
import Muak.Foundations.Overlay
import Muak.Koci.Scan

/-!
# Walking over the layers of an image

`toolchain/koci/src/pull/{fetch,layer}.rs`: all layers are scanned for markers, then the files of
all layers are streamed, without those that a marker of a later layer names.

* `walk`: the files that are streamed.
* `ociLayer`: what a layer means for the merged image.
* `walk_overlay_iff`: the files that are streamed are those of the merged image exactly if markers
  name what they hide.
-/

namespace Muak.Koci

open Overlay List Nat

/-! ## The source -/

/-- A file that is streamed, with the names of its path. -/
structure FileEntry where
  names : List Name
  file : File
  deriving DecidableEq

variable (whiteouts : Dict PathBuf ℕ) (names : List Name) (layer : List TarEntry)

/-- `entry(whiteout).or_insert(layer_idx)`. -/
def orInsert (layerIdx : ℕ) (target : PathBuf) : Dict PathBuf ℕ :=
  if (whiteouts.get? target).isSome then whiteouts else whiteouts.insert target layerIdx

/-- The loop over the layers. -/
def scanLayers : ℕ → List (List TarEntry) → Dict PathBuf ℕ → Except KociError (Dict PathBuf ℕ)
  | _, [], whiteouts => .ok whiteouts
  | layerIdx, layer :: layers, whiteouts => do
    let targets ← scanWhiteouts layer
    scanLayers (layerIdx + 1) layers (targets.foldl (orInsert · layerIdx) whiteouts)

/-- The first layer that hides each target. -/
def whiteoutMap (layers : List (List TarEntry)) : Except KociError (Dict PathBuf ℕ) :=
  if layers.length < 2 then .ok .empty else scanLayers 0 layers .empty

/-- A layer above removes the file. -/
def blockedByWhiteout (info : EntryInfo) (layerIdx : ℕ) (whiteouts : Dict PathBuf ℕ) : Bool :=
  match info with
  | .file names _ => (whiteouts.get? (.ofNames names)).any fun blocking => layerIdx < blocking
  | _ => false

/-- The file that the handler gets, if any. -/
def handleFileEntry : EntryInfo → List FileEntry
  | .file names file => [⟨names, file⟩]
  | _ => []

/-- The files of a layer that none above removes. -/
def extractLayer (layerIdx : ℕ) (whiteouts : Dict PathBuf ℕ) :
    List TarEntry → Except KociError (List FileEntry)
  | [] => .ok []
  | entry :: entries => do
    let info ← classifyTarEntry entry
    let rest ← extractLayer layerIdx whiteouts entries
    if blockedByWhiteout info layerIdx whiteouts then .ok rest
    else .ok (handleFileEntry info ++ rest)

/-- The loop over the layers. -/
def extractAll (whiteouts : Dict PathBuf ℕ) :
    ℕ → List (List TarEntry) → Except KociError (List FileEntry)
  | _, [] => .ok []
  | layerIdx, layer :: layers => do
    let files ← extractLayer layerIdx whiteouts layer
    let rest ← extractAll whiteouts (layerIdx + 1) layers
    .ok (files ++ rest)

/-- The files that the handler gets, in their order; the layers are their entries, after they were
downloaded. -/
def walk (layers : List (List TarEntry)) : Except KociError (List FileEntry) :=
  if 1 < layers.length then do
    let whiteouts ← whiteoutMap layers
    extractAll whiteouts 0 layers
  else extractAll .empty 0 layers

/-! ## Merged images -/

/-- A name is that of a marker, whatever its encoding is. -/
def isMarker (name : Name) : Bool := whiteoutPrefix.isPrefixOf name

/-- An entry hides the paths below the directory of an opaque marker, or the target of a whiteout
and everything below it. -/
def TarEntry.hides (entry : TarEntry) (names : List Name) : Bool :=
  match entry.names.getLast? with
  | none => false
  | some name =>
    if name = opaqueMarker then
      entry.names.dropLast.isPrefixOf names && entry.names.dropLast.length < names.length
    else if isMarker name then
      (entry.names.dropLast ++ [name.drop whiteoutPrefix.length]).isPrefixOf names
    else false

/-- The files of the entries at a path. -/
def filesAt (names : List Name) : List File :=
  (layer.filter (·.names = names)).map TarEntry.file

/-- A path is that of a marker, or none at all. -/
def NoFile : Prop := names = [] ∨ names.getLast?.any isMarker = true

instance decidableNoFile : Decidable (NoFile names) :=
  inferInstanceAs (Decidable (_ ∨ _))

/-- What a layer means for the merged image. -/
def ociLayer : Layer (List Name) File where
  files names := if NoFile names then [] else filesAt layer names
  hides names := layer.any (·.hides names)

/-- Layers of regular files and markers. -/
structure RegularLayers where
  layers : List (List TarEntry)
  regular : ∀ layer ∈ layers, ∀ entry ∈ layer, entry.entryType = .regular

namespace RegularLayers

variable (image : RegularLayers)

def merged : List Name → Option File := merge (image.layers.map ociLayer)

/-- The handler gets the file of every path of the merged image once, and no other one. -/
def FollowsOverlay : Prop :=
  ∃ files, walk image.layers = .ok files ∧ ∀ names,
    (files.filter (·.names = names)).map FileEntry.file = (image.merged names).toList

/-- Some marker of the layer has the target. -/
def Names (names : List Name) : Prop :=
  ∃ entry ∈ layer, whiteoutTargetInto entry.names = some (.ofNames names)

/-- A layer after the `i`-th has a marker for the path, and none up to the `i`-th has. -/
def NamedAbove (i : ℕ) (names : List Name) : Prop :=
  (∀ j layer, j ≤ i → image.layers[j]? = some layer → ¬Names layer names) ∧
    ∃ j layer, i < j ∧ image.layers[j]? = some layer ∧ Names layer names

/-- Paths are inside of the image, the merged image has no bookkeeping entries, and markers that are
not read as such are hidden themselves; a file is there again or hidden in a later layer exactly if
a marker for its path, and the first one, is in a later layer; and it is twice in a layer only
then. -/
structure Settled : Prop where
  inside : ∀ layer ∈ image.layers, ∀ entry ∈ layer, entry.Inside
  landmarks : ∀ name ∈ landmarks, image.merged [name] = none
  encoded : ∀ i layer, image.layers[i]? = some layer → ∀ entry ∈ layer, ∀ name,
    entry.names.getLast? = some name → isMarker name → isUtf8 name ∨ image.NamedAbove i entry.names
  replaced : ∀ i layer names, image.layers[i]? = some layer → (ociLayer layer).files names ≠ [] →
    ¬isBookkeeping names → (image.NamedAbove i names ↔ Replaced (image.layers.map ociLayer) i names)
  once : ∀ i layer names, image.layers[i]? = some layer →
    1 < ((ociLayer layer).files names).length → ¬isBookkeeping names → image.NamedAbove i names

end RegularLayers

/-! ## What is streamed -/

/-- Entries at this path are files for the source. -/
def Streamed : Prop :=
  names ≠ [] ∧ whiteoutTargetInto names = none ∧ isBookkeeping names = false

instance decidableStreamed : Decidable (Streamed names) :=
  inferInstanceAs (Decidable (_ ∧ _ ∧ _))

/-- The first layer whose file at the path is not blocked. -/
def threshold (names : List Name) : ℕ :=
  (whiteouts.get? (.ofNames names)).getD 0

section

variable {whiteouts : Dict PathBuf ℕ} {layerIdx : ℕ}

theorem blockedByWhiteout_file {names : List Name} {file : File} :
    blockedByWhiteout (.file names file) layerIdx whiteouts =
      decide (layerIdx < threshold whiteouts names) := by
  rw [blockedByWhiteout, threshold]
  cases whiteouts.get? (.ofNames names) with
  | none => exact (decide_eq_false (not_lt_zero _)).symm
  | some blocking => rfl

theorem filesAt_cons (entry : TarEntry) (layer : List TarEntry) (names : List Name) :
    filesAt (entry :: layer) names =
      (if entry.names = names then [entry.file] else []) ++ filesAt layer names := by
  unfold filesAt
  by_cases hn : entry.names = names
  · rw [filter_cons_of_pos (by simpa using hn), if_pos hn]
    rfl
  · rw [filter_cons_of_neg (by simpa using hn), if_neg hn]
    rfl

theorem filesAt_eq_nil_iff {layer : List TarEntry} {names : List Name} :
    filesAt layer names = [] ↔ ∀ entry ∈ layer, entry.names ≠ names := by
  rw [filesAt, map_eq_nil_iff, filter_eq_nil_iff]
  exact forall₂_congr fun entry _ => by rw [decide_eq_true_eq]

/-- A regular entry is streamed if its path is that of a file and no marker blocks it. -/
theorem exists_classify {entry : TarEntry} (hi : entry.Inside)
    (hr : entry.entryType = .regular) : ∃ info, classifyTarEntry entry = .ok info ∧
      (if blockedByWhiteout info layerIdx whiteouts then [] else handleFileEntry info) =
        if Streamed entry.names ∧ threshold whiteouts entry.names ≤ layerIdx then
          [⟨entry.names, entry.file⟩] else [] := by
  refine ⟨_, classifyTarEntry_eq hi hr, ?_⟩
  cases ht : whiteoutTargetInto entry.names with
  | some target =>
    have hnt : ¬(Streamed entry.names ∧ threshold whiteouts entry.names ≤ layerIdx) := by
      rintro ⟨⟨-, hn, -⟩, -⟩
      cases ht.symm.trans hn
    rw [if_neg hnt]
    rfl
  | none =>
    by_cases hs : entry.names = [] ∨ isBookkeeping entry.names = true
    · have hnt : ¬(Streamed entry.names ∧ threshold whiteouts entry.names ≤ layerIdx) := by
        rintro ⟨⟨hne, -, hbk⟩, -⟩
        rcases hs with he | htr
        · exact hne he
        · cases hbk.symm.trans htr
      rw [if_pos hs, if_neg hnt]
      rfl
    · obtain ⟨hne, hbk⟩ := not_or.1 hs
      rw [if_neg hs, blockedByWhiteout_file]
      by_cases hb : layerIdx < threshold whiteouts entry.names
      · rw [if_pos (decide_eq_true hb), if_neg fun ha => not_lt.2 ha.2 hb]
      · rw [if_neg (by rwa [decide_eq_true_eq]), if_pos ⟨⟨hne, ht,
          Bool.eq_false_iff.2 hbk⟩, Nat.le_of_not_lt hb⟩]
        rfl

/-- The files of a layer that are streamed. -/
theorem extractLayer_eq {layer : List TarEntry}
    (h : ∀ entry ∈ layer, entry.Inside ∧ entry.entryType = .regular) :
    ∃ files, extractLayer layerIdx whiteouts layer = .ok files ∧ ∀ names,
      (files.filter (·.names = names)).map FileEntry.file =
        if Streamed names ∧ threshold whiteouts names ≤ layerIdx then filesAt layer names
        else [] := by
  induction layer with
  | nil =>
    refine ⟨[], rfl, fun names => ?_⟩
    split_ifs <;> rfl
  | cons entry layer ih =>
    obtain ⟨⟨hi, hr⟩, hrest⟩ := forall_mem_cons.1 h
    obtain ⟨files, hf, ha⟩ := ih hrest
    obtain ⟨info, hinf, he⟩ := @exists_classify whiteouts layerIdx entry hi hr
    have hc : extractLayer layerIdx whiteouts (entry :: layer) =
        .ok ((if blockedByWhiteout info layerIdx whiteouts then [] else handleFileEntry info) ++
          files) := by
      rw [extractLayer, hinf, ok_bind, hf]
      split_ifs <;> rfl
    refine ⟨_, hc, fun names => ?_⟩
    rw [he, filter_append, map_append, ha, filesAt_cons]
    by_cases hn : entry.names = names
    · subst hn
      rw [if_pos rfl]
      split_ifs <;> simp
    · rw [if_neg hn]
      split_ifs <;> simp [hn]

/-- The files of all layers that are streamed: those from the threshold on. -/
theorem extractAll_eq {layers : List (List TarEntry)}
    (h : ∀ layer ∈ layers, ∀ entry ∈ layer, entry.Inside ∧ entry.entryType = .regular) :
    ∃ files, extractAll whiteouts layerIdx layers = .ok files ∧ ∀ names,
      (files.filter (·.names = names)).map FileEntry.file = if Streamed names then
        (layers.drop (threshold whiteouts names - layerIdx)).flatMap (filesAt · names) else [] := by
  induction layers generalizing layerIdx with
  | nil =>
    refine ⟨[], rfl, fun names => ?_⟩
    rw [drop_nil]
    split_ifs <;> rfl
  | cons layer layers ih =>
    obtain ⟨hly, hl⟩ := forall_mem_cons.1 h
    obtain ⟨first, hfr, hf⟩ := @extractLayer_eq whiteouts layerIdx layer hly
    obtain ⟨rest, hrest, hr⟩ := @ih (layerIdx + 1) hl
    refine ⟨first ++ rest, by rw [extractAll, hfr, ok_bind, hrest, ok_bind], fun names => ?_⟩
    rw [filter_append, map_append, hf, hr]
    by_cases hs : Streamed names
    · rw [if_pos hs, if_pos hs]
      by_cases hle : threshold whiteouts names ≤ layerIdx
      · rw [if_pos ⟨hs, hle⟩, Nat.sub_eq_zero_of_le hle,
          Nat.sub_eq_zero_of_le (Nat.le_succ_of_le hle)]
        rfl
      · obtain ⟨d, hd⟩ : ∃ d, threshold whiteouts names - layerIdx = d + 1 :=
          ⟨threshold whiteouts names - layerIdx - 1, by omega⟩
        rw [if_neg fun ha => hle ha.2, hd, drop_succ_cons, nil_append,
          show threshold whiteouts names - (layerIdx + 1) = d by omega]
    · rw [if_neg hs, if_neg hs, if_neg fun ha => hs ha.1, append_nil]

end

/-! ## Markers -/

theorem get?_orInsert (layerIdx : ℕ) (first target : PathBuf) :
    (orInsert whiteouts layerIdx first).get? target =
      (whiteouts.get? target).or (if target = first then some layerIdx else none) := by
  unfold orInsert
  cases hf : whiteouts.get? first with
  | some blocking =>
    rw [Option.isSome_some, if_pos rfl]
    by_cases ht : target = first
    · rw [ht, hf, Option.some_or]
    · rw [if_neg ht, Option.or_none]
  | none =>
    rw [Option.isSome_none, if_neg Bool.false_ne_true, Dict.get?_insert]
    by_cases ht : target = first
    · rw [if_pos ht, if_pos ht, ht, hf, Option.none_or]
    · rw [if_neg ht, if_neg ht, Option.or_none]

theorem get?_foldl_orInsert (targets : List PathBuf) (layerIdx : ℕ) (whiteouts : Dict PathBuf ℕ)
    (target : PathBuf) : (targets.foldl (orInsert · layerIdx) whiteouts).get? target =
      (whiteouts.get? target).or (if target ∈ targets then some layerIdx else none) := by
  induction targets generalizing whiteouts with
  | nil =>
    exact (Option.or_none).symm
  | cons first targets ih =>
    rw [foldl_cons, ih, get?_orInsert, Option.or_assoc]
    congr 1
    by_cases hf : target = first
    · rw [if_pos hf, Option.some_or, if_pos (mem_cons.2 (.inl hf))]
    · rw [if_neg hf]
      exact if_congr (by rw [mem_cons, or_iff_right hf]) rfl rfl

/-- The targets of the markers of a layer. -/
def targets : List PathBuf :=
  layer.filterMap fun entry => whiteoutTargetInto entry.names

theorem scanWhiteouts_eq {layer : List TarEntry}
    (h : ∀ entry ∈ layer, entry.Inside ∧ entry.entryType = .regular) :
    scanWhiteouts layer = .ok (targets layer) := by
  induction layer with
  | nil => rfl
  | cons entry layer ih =>
    obtain ⟨⟨hi, hr⟩, hrest⟩ := forall_mem_cons.1 h
    rw [scanWhiteouts, classifyTarEntry_eq hi hr, ok_bind, ih hrest, ok_bind, targets, targets]
    cases ht : whiteoutTargetInto entry.names with
    | some target => rw [filterMap_cons, ht]
    | none =>
      rw [filterMap_cons, ht]
      split_ifs <;> rfl

variable {layers : List (List TarEntry)}

/-- A target is mapped to the first layer with a marker for it. -/
theorem scanLayers_eq {layerIdx : ℕ} {whiteouts : Dict PathBuf ℕ}
    (h : ∀ layer ∈ layers, ∀ entry ∈ layer, entry.Inside ∧ entry.entryType = .regular) :
    ∃ result, scanLayers layerIdx layers whiteouts = .ok result ∧ ∀ target,
      result.get? target = (whiteouts.get? target).or
        ((layers.findIdx? (target ∈ targets ·)).map (· + layerIdx)) := by
  induction layers generalizing layerIdx whiteouts with
  | nil =>
    refine ⟨whiteouts, rfl, fun target => ?_⟩
    exact (Option.or_none).symm
  | cons layer layers ih =>
    obtain ⟨hly, hl⟩ := forall_mem_cons.1 h
    obtain ⟨result, hr, ha⟩ := @ih (layerIdx + 1)
      ((targets layer).foldl (orInsert · layerIdx) whiteouts) hl
    refine ⟨result, by rw [scanLayers, scanWhiteouts_eq hly, ok_bind, hr], fun target => ?_⟩
    rw [ha, get?_foldl_orInsert, Option.or_assoc, findIdx?_cons]
    congr 1
    by_cases hm : target ∈ targets layer
    · rw [if_pos hm, if_pos (decide_eq_true hm), Option.some_or, Option.map_some, Nat.zero_add]
    · rw [if_neg hm, if_neg (by rwa [decide_eq_true_eq]), Option.map_map]
      exact congrArg (Option.map · _) (funext fun i => (Nat.add_right_comm i 1 layerIdx).symm)

variable {files : List FileEntry}

theorem inside_of_extractLayer {whiteouts : Dict PathBuf ℕ} {layerIdx : ℕ} {layer : List TarEntry}
    (h : extractLayer layerIdx whiteouts layer = .ok files) : ∀ entry ∈ layer, entry.Inside := by
  induction layer generalizing files with
  | nil => exact nofun
  | cons entry layer ih =>
    obtain ⟨info, hi, h⟩ := of_bind h
    obtain ⟨rest, hrest, -⟩ := of_bind h
    exact forall_mem_cons.2 ⟨inside_of_classify hi, ih hrest⟩

theorem inside_of_extractAll {whiteouts : Dict PathBuf ℕ} {layerIdx : ℕ}
    (h : extractAll whiteouts layerIdx layers = .ok files) :
    ∀ layer ∈ layers, ∀ entry ∈ layer, entry.Inside := by
  induction layers generalizing layerIdx files with
  | nil => exact nofun
  | cons layer layers ih =>
    obtain ⟨first, hf, h⟩ := of_bind h
    obtain ⟨rest, hrest, -⟩ := of_bind h
    exact forall_mem_cons.2 ⟨inside_of_extractLayer hf, ih hrest⟩

namespace RegularLayers

variable {image : RegularLayers}

variable {names : List Name}

theorem names_iff {layer : List TarEntry} :
    Names layer names ↔ PathBuf.ofNames names ∈ targets layer := mem_filterMap.symm

theorem namedAbove_iff {i : ℕ} : image.NamedAbove i names ↔
      i < (image.layers.findIdx? (PathBuf.ofNames names ∈ targets ·)).getD 0 := by
  cases hf : image.layers.findIdx? (PathBuf.ofNames names ∈ targets ·) with
  | none =>
    refine ⟨fun ⟨_, j, layer, _, hj, hn⟩ => ?_, fun hlt => absurd hlt (not_lt_zero _)⟩
    have hnt := findIdx?_eq_none_iff.1 hf layer (mem_of_getElem? hj)
    exact absurd (names_iff.1 hn) (of_decide_eq_false hnt)
  | some first =>
    obtain ⟨hlt, hm, hb⟩ := findIdx?_eq_some_iff_getElem.1 hf
    have hn := names_iff.2 (of_decide_eq_true hm)
    rw [Option.getD_some]
    constructor
    · rintro ⟨hnn, -⟩
      by_contra hge
      exact hnn first _ (Nat.le_of_not_lt hge) (getElem?_eq_getElem hlt) hn
    · refine fun hi => ⟨fun j layer hj hget ha => ?_, first, _, hi, getElem?_eq_getElem hlt, hn⟩
      obtain ⟨hjl, rfl⟩ := List.getElem?_eq_some_iff.1 hget
      exact hb j (by omega) (decide_eq_true (names_iff.1 ha))

/-- The files that are streamed: at each path, those of all layers from the threshold on. -/
theorem walk_eq (hi : ∀ layer ∈ image.layers, ∀ entry ∈ layer, entry.Inside) :
    ∃ (files : List FileEntry) (t : List Name → ℕ), walk image.layers = .ok files ∧
      (∀ i names, i < t names ↔ image.NamedAbove i names) ∧ ∀ names,
        (files.filter (·.names = names)).map FileEntry.file = if Streamed names then
          (image.layers.drop (t names)).flatMap (filesAt · names) else [] := by
  have ha : ∀ layer ∈ image.layers, ∀ entry ∈ layer, entry.Inside ∧ entry.entryType = .regular :=
    fun layer hl entry he =>
      ⟨hi layer hl entry he, image.regular layer hl entry he⟩
  by_cases hm : 1 < image.layers.length
  · obtain ⟨whiteouts, hw, hget⟩ := @scanLayers_eq image.layers 0 .empty ha
    obtain ⟨files, hf, hn⟩ := @extractAll_eq whiteouts 0 image.layers ha
    refine ⟨files, threshold whiteouts, ?_, fun i names => ?_, hn⟩
    · rw [walk, if_pos hm, whiteoutMap, if_neg (by omega), hw, ok_bind, hf]
    · rw [namedAbove_iff, threshold, hget]
      cases image.layers.findIdx? (PathBuf.ofNames names ∈ targets ·) <;> rfl
  · obtain ⟨files, hf, hn⟩ := @extractAll_eq .empty 0 image.layers ha
    refine ⟨files, threshold .empty, ?_, fun i names => ?_, hn⟩
    · rw [walk, if_neg hm, hf]
    · refine ⟨fun hlt => absurd hlt (not_lt_zero _), ?_⟩
      rintro ⟨-, j, layer, hlt, hj, -⟩
      have hls := (List.getElem?_eq_some_iff.1 hj).1
      omega

theorem inside_of_walk (h : walk image.layers = .ok files) :
    ∀ layer ∈ image.layers, ∀ entry ∈ layer, entry.Inside := by
  unfold walk at h
  split_ifs at h
  · obtain ⟨whiteouts, -, h⟩ := of_bind h
    exact inside_of_extractAll h
  · exact inside_of_extractAll h

/-! ## The merged image -/

theorem streamed_iff_of_file (h : ¬NoFile names) :
    Streamed names ↔ isBookkeeping names = false := by
  obtain ⟨hne, hm⟩ := not_or.1 h
  refine ⟨fun hs => hs.2.2, fun hb => ⟨hne, ?_, hb⟩⟩
  rw [whiteoutTargetInto]
  cases hl : names.getLast? with
  | none => rfl
  | some name =>
    rw [hl] at hm
    have ho : name ≠ opaqueMarker := by
      rintro rfl
      exact hm (by decide)
    dsimp only
    rw [if_neg ho, if_neg (show ¬whiteoutPrefix.isPrefixOf name from hm), ite_self]

theorem streamed_iff_of_noFile (h : NoFile names) :
    Streamed names ↔ ∃ name, names.getLast? = some name ∧ isUtf8 name = false := by
  constructor
  · rintro ⟨hne, ht, -⟩
    refine ⟨names.getLast hne, getLast?_eq_some_getLast hne, Bool.eq_false_iff.2 fun hu => ?_⟩
    have hm : isMarker (names.getLast hne) = true := by
      have ha := h.resolve_left hne
      rwa [getLast?_eq_some_getLast hne] at ha
    rw [whiteoutTargetInto, getLast?_eq_some_getLast hne] at ht
    dsimp only at ht
    rw [if_pos (show whiteoutPrefix.isPrefixOf _ = true from hm)] at ht
    split_ifs at ht
  · rintro ⟨name, hl, hu⟩
    have hne : names ≠ [] := by
      rintro rfl
      cases hl
    have hm : isMarker name = true := by
      have ha := h.resolve_left hne
      rwa [hl] at ha
    refine ⟨hne, ?_, Bool.eq_false_iff.2 fun hb => ?_⟩
    · rw [whiteoutTargetInto, hl]
      dsimp only
      rw [if_neg (by rw [hu]; exact Bool.false_ne_true)]
    · obtain ⟨landmark, hmm, heq⟩ := any_eq_true.1 hb
      rw [of_decide_eq_true heq] at hl
      cases hl
      exact absurd hm ((by decide : ∀ name ∈ landmarks, ¬isMarker name = true) _ hmm)

theorem merged_of_noFile (h : NoFile names) : image.merged names = none := by
  rw [Option.eq_none_iff_forall_ne_some]
  intro file hf
  obtain ⟨i, layer, hi, hl, -⟩ := merge_eq_some_iff.1 hf
  rw [getElem?_map] at hi
  obtain ⟨entries, -, rfl⟩ := Option.map_eq_some_iff.1 hi
  rw [ociLayer] at hl
  dsimp only at hl
  rw [if_pos h] at hl
  cases hl

theorem flatMap_filesAt_eq_iff {t : ℕ} (h : ¬NoFile names) :
    (image.layers.drop t).flatMap (filesAt · names) = (image.merged names).toList ↔
      ∀ i layer, image.layers[i]? = some layer → (ociLayer layer).files names ≠ [] →
        (i < t ↔ Replaced (image.layers.map ociLayer) i names) ∧
          (1 < ((ociLayer layer).files names).length → i < t) := by
  have hf : (image.layers.drop t).flatMap (filesAt · names) =
      ((image.layers.map ociLayer).drop t).flatMap (·.files names) := by
    rw [← map_drop, flatMap_map]
    refine congrArg (flatMap · _) (funext fun layer => ?_)
    exact (if_neg h).symm
  rw [hf, merged, flatMap_drop_eq_merge_iff]
  simp only [getElem?_map, Option.map_eq_some_iff]
  exact ⟨fun ha i layer hi => ha i _ ⟨layer, hi, rfl⟩,
    fun ha i layer ⟨entries, hi, heq⟩ => heq ▸ ha i entries hi⟩

theorem isBookkeeping_iff : isBookkeeping names = true ↔ ∃ name ∈ landmarks, names = [name] := by
  rw [isBookkeeping, any_eq_true]
  exact exists_congr fun name => and_congr_right fun _ => decide_eq_true_iff

end RegularLayers

/-- **Layers.** The files that are streamed are those of the merged image exactly for settled
layers. -/
theorem walk_overlay_iff (image : RegularLayers) : image.FollowsOverlay ↔ image.Settled := by
  constructor
  · rintro ⟨files, hw, hf⟩
    have hins := RegularLayers.inside_of_walk hw
    obtain ⟨files', t, hw', ht, hst⟩ := RegularLayers.walk_eq hins
    obtain rfl := Except.ok.inj (hw.symm.trans hw')
    have hp (names : List Name) := (hst names).symm.trans (hf names)
    have hfl {i : ℕ} {layer : List TarEntry} {names : List Name}
        (hi : image.layers[i]? = some layer) (hne : (ociLayer layer).files names ≠ [])
        (hb : ¬isBookkeeping names) : (i < t names ↔ Replaced (image.layers.map ociLayer) i names) ∧
            (1 < ((ociLayer layer).files names).length → i < t names) := by
      have hno : ¬NoFile names := fun hno => hne (if_pos hno)
      have heq := hp names
      rw [if_pos ((RegularLayers.streamed_iff_of_file hno).2 (Bool.eq_false_iff.2 hb))] at heq
      exact (RegularLayers.flatMap_filesAt_eq_iff hno).1 heq i layer hi hne
    refine ⟨hins, fun name hnm => ?_, fun i layer hi entry hen name hls hm => ?_,
      fun i layer names hi hne hb => ?_, fun i layer names hi htw hb => ?_⟩
    · have heq := hp [name]
      have hb := RegularLayers.isBookkeeping_iff.2 ⟨name, hnm, rfl⟩
      rw [if_neg fun hs => absurd hb (Bool.eq_false_iff.1 hs.2.2)] at heq
      exact Option.toList_eq_nil_iff.1 heq.symm
    · by_cases hu : isUtf8 name = true
      · exact .inl hu
      · have hno : NoFile entry.names := .inr (by rw [hls]; exact hm)
        have heq := hp entry.names
        rw [if_pos ((RegularLayers.streamed_iff_of_noFile hno).2
          ⟨name, hls, Bool.eq_false_iff.2 hu⟩), RegularLayers.merged_of_noFile hno] at heq
        refine .inr ((ht i _).1 ?_)
        by_contra hge
        have hnl := flatMap_eq_nil_iff.1 heq layer (mem_drop_iff.2 ⟨i, Nat.le_of_not_lt hge, hi⟩)
        exact filesAt_eq_nil_iff.1 hnl entry hen rfl
    · rw [← ht]
      exact (hfl hi hne hb).1
    · exact (ht i names).1 ((hfl hi (ne_nil_of_length_pos (by omega)) hb).2 htw)
  · rintro ⟨hins, hl, he, hr, ho⟩
    obtain ⟨files, t, hw, ht, hst⟩ := RegularLayers.walk_eq hins
    refine ⟨files, hw, fun names => ?_⟩
    rw [hst]
    by_cases hno : NoFile names
    · rw [RegularLayers.merged_of_noFile hno]
      by_cases hs : Streamed names
      · obtain ⟨name, hls, hu⟩ := (RegularLayers.streamed_iff_of_noFile hno).1 hs
        rw [if_pos hs]
        refine flatMap_eq_nil_iff.2 fun layer hly => ?_
        obtain ⟨i, hge, hi⟩ := mem_drop_iff.1 hly
        rw [filesAt_eq_nil_iff]
        rintro entry hen rfl
        have hm : isMarker name = true := by
          have ha := hno.resolve_left hs.1
          rwa [hls] at ha
        rcases he i layer hi entry hen name hls hm with htr | hn
        · cases hu.symm.trans htr
        · exact not_lt.2 hge ((ht i _).2 hn)
      · exact if_neg hs
    · by_cases hb : isBookkeeping names = true
      · obtain ⟨name, hnm, rfl⟩ := RegularLayers.isBookkeeping_iff.1 hb
        rw [hl name hnm, if_neg fun hs => absurd hb (Bool.eq_false_iff.1 hs.2.2)]
        rfl
      · rw [if_pos ((RegularLayers.streamed_iff_of_file hno).2 (Bool.eq_false_iff.2 hb)),
          RegularLayers.flatMap_filesAt_eq_iff hno]
        intro i layer hi hne
        rw [ht]
        exact ⟨hr i layer names hi hne hb,
          fun htw => ho i layer names hi htw hb⟩

/-- A file with one byte. -/
def byteEntry (path : Bytes) (byte : UInt8) : TarEntry :=
  ⟨path, .regular, some 1, none, [byte]⟩

/-- The second layer has the file `b` of the first one again, and a whiteout of the directory `a` of
its other one. -/
def removedDirectory : RegularLayers where
  layers := [[byteEntry [0x61, 0x2f, 0x63] 1, byteEntry [0x62] 1],
    [byteEntry (whiteoutPrefix ++ [0x61]) 0, byteEntry [0x62] 2]]
  regular := by decide

/-- The file of the removed directory is streamed, and both versions of the other one are. -/
theorem removed_directory_streamed :
    walk removedDirectory.layers = .ok [⟨[[0x61], [0x63]], ⟨1, 0o644, [1]⟩⟩,
      ⟨[[0x62]], ⟨1, 0o644, [1]⟩⟩, ⟨[[0x62]], ⟨1, 0o644, [2]⟩⟩] ∧
    removedDirectory.merged [[0x61], [0x63]] = none ∧
    removedDirectory.merged [[0x62]] = some ⟨1, 0o644, [2]⟩ ∧ ¬removedDirectory.FollowsOverlay := by
  have hw : walk removedDirectory.layers = .ok [⟨[[0x61], [0x63]], ⟨1, 0o644, [1]⟩⟩,
      ⟨[[0x62]], ⟨1, 0o644, [1]⟩⟩, ⟨[[0x62]], ⟨1, 0o644, [2]⟩⟩] := by decide +kernel
  have hm : removedDirectory.merged [[0x61], [0x63]] = none := by decide +kernel
  refine ⟨hw, hm, by decide +kernel, ?_⟩
  rintro ⟨files, hf, ha⟩
  obtain rfl := Except.ok.inj (hw.symm.trans hf)
  have hr := ha [[0x61], [0x63]]
  exact absurd hr (by decide +kernel)

end Muak.Koci
