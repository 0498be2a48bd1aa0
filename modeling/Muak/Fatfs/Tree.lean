import Mathlib.Data.List.Sort
import Mathlib.Data.String.Basic

/-!
# The directories of a list of files

`libs/fatfs/src/tree.rs`: the directories are the root and all that the paths of the files name, in
the order of their lengths, and each file and each directory belongs to its parent.

* `WellFormed`: the root comes first, every directory is listed once, and so is its parent.
* `wellFormed_collectDirs`: this is the case for relative paths.
* `parentOf_collect`, `exists_mem_files`: every directory but the root, and every file, is an entry
  of a directory.
-/

namespace Muak.Fatfs

open List

structure FileMeta where
  path : String
  size : ℕ
  deriving DecidableEq

/-! ## Paths -/

/-- What is before and after the last slash. -/
def rsplit (path : String) : Option (String × String) :=
  match path.toList.reverse.dropWhile (· ≠ '/') with
  | [] => none
  | _ :: before =>
    some (String.ofList before.reverse,
      String.ofList (path.toList.reverse.takeWhile (· ≠ '/')).reverse)

def parentPath (path : String) : String := ((rsplit path).map Prod.fst).getD ""

def nameOf (path : String) : String := ((rsplit path).map Prod.snd).getD path

theorem eq_of_rsplit {path before after : String} (h : rsplit path = some (before, after)) :
    path.toList = before.toList ++ '/' :: after.toList := by
  have hs := takeWhile_append_dropWhile (p := (· ≠ '/')) (l := path.toList.reverse)
  unfold rsplit at h
  split at h
  · cases h
  · next c rest hd =>
    cases h
    have hc : c = '/' := by
      have := head?_dropWhile_not (· ≠ '/') path.toList.reverse
      rw [hd] at this
      simpa using this
    rw [hd, hc] at hs
    have hr := congrArg reverse hs
    simpa using hr.symm

theorem length_of_rsplit {path before after : String} (h : rsplit path = some (before, after)) :
    before.toList.length < path.toList.length := by
  rw [eq_of_rsplit h, length_append, length_cons]
  omega

/-- The directories that a path names, the longest first. -/
def ancestors (path : String) : List String :=
  match _h : rsplit path with
  | none => []
  | some (before, _) => before :: ancestors before
termination_by path.toList.length
decreasing_by exact length_of_rsplit _h

theorem ancestors_of_none {path : String} (h : rsplit path = none) : ancestors path = [] := by
  rw [ancestors]
  split
  · rfl
  · next hs => cases h.symm.trans hs

theorem ancestors_of_some {path before after : String} (h : rsplit path = some (before, after)) :
    ancestors path = before :: ancestors before := by
  rw [ancestors]
  split
  · next hn => cases h.symm.trans hn
  · next hs =>
    cases h.symm.trans hs
    rfl

/-- A path goes on with a slash after each directory that it names. -/
theorem exists_of_mem_ancestors {path dir : String} (h : dir ∈ ancestors path) :
    ∃ rest, path.toList = dir.toList ++ '/' :: rest := by
  fun_induction ancestors path with
  | case1 => cases h
  | case2 path before after hs ih =>
    have hp := eq_of_rsplit hs
    rcases mem_cons.1 h with rfl | h
    · exact ⟨_, hp⟩
    · obtain ⟨rest, hrest⟩ := ih h
      rw [hrest] at hp
      exact ⟨rest ++ '/' :: after.toList, by simpa using hp⟩

/-- With a directory a path names all that the directory's own path names. -/
theorem ancestors_subset {path dir : String} (h : dir ∈ ancestors path) :
    ancestors dir ⊆ ancestors path := by
  fun_induction ancestors path with
  | case1 => cases h
  | case2 path before after hs ih =>
    rcases mem_cons.1 h with rfl | h
    · exact subset_cons_self ..
    · exact subset_cons_of_subset _ (ih h)

theorem parentPath_eq (path : String) :
    (rsplit path = none ∧ parentPath path = "") ∨ parentPath path ∈ ancestors path := by
  cases h : rsplit path with
  | none => exact .inl ⟨rfl, by rw [parentPath, h]; rfl⟩
  | some parts =>
    refine .inr ?_
    rw [ancestors_of_some h, parentPath, h]
    exact mem_cons_self

theorem length_parentPath {path : String} (h : path ≠ "") :
    (parentPath path).toList.length < path.toList.length := by
  cases hs : rsplit path with
  | none =>
    have hne : path.toList ≠ [] := by simpa using h
    rw [parentPath, hs]
    exact length_pos_iff.2 hne
  | some parts =>
    rw [parentPath, hs]
    exact length_of_rsplit hs

/-! ## The index -/

/-- A directory or a file, by its number. -/
inductive Kind
  | directory (index : ℕ)
  | file (index : ℕ)
  deriving DecidableEq

/-- The directories of the paths, with what is in each. -/
structure DirIndex where
  dirs : List String
  filesByDir : List (List ℕ)
  subdirsByDir : List (List ℕ)
  parent : List ℕ

namespace DirIndex

variable (tree : DirIndex)

def len : ℕ := tree.dirs.length

def path (dirIndex : ℕ) : String := tree.dirs.getD dirIndex ""

def parentOf (dirIndex : ℕ) : ℕ := tree.parent.getD dirIndex 0

def files (dirIndex : ℕ) : List ℕ := tree.filesByDir.getD dirIndex []

def subdirs (dirIndex : ℕ) : List ℕ := tree.subdirsByDir.getD dirIndex []

/-- Entries of a directory in emission order: subdirectories, then files. -/
def entries (files : List FileMeta) (dirIndex : ℕ) : List (String × Kind) :=
  (tree.subdirs dirIndex).map (fun child => (nameOf (tree.path child), .directory child)) ++
    (tree.files dirIndex).map fun index =>
      (((files[index]?).map fun file => nameOf file.path).getD "", .file index)

end DirIndex

/-- `register_ancestors`: the directories that were not seen before are appended. -/
def registerAncestors (seen : List String) (path : String) : List String :=
  (ancestors path).foldl (fun seen dir => if dir ∈ seen then seen else seen ++ [dir]) seen

/-- The order of the directories: by length, and then by text. -/
def Precedes (left right : String) : Prop :=
  left.utf8ByteSize < right.utf8ByteSize ∨ left.utf8ByteSize = right.utf8ByteSize ∧ left ≤ right

instance decidablePrecedes : DecidableRel Precedes := fun _ _ => inferInstanceAs (Decidable (_ ∨ _))

def collectDirs (files : List FileMeta) : List String :=
  ("" :: files.foldl (fun seen file => registerAncestors seen file.path) []).insertionSort Precedes

/-- The index of a path in the map; a later entry replaces an earlier one. -/
def indexOf (dirs : List String) (path : String) : Option ℕ :=
  if path ∈ dirs then some (dirs.length - 1 - dirs.reverse.idxOf path) else none

/-- The index of the parent, and of the root where it is unknown. -/
def parentIndex (dirs : List String) (path : String) : ℕ :=
  (indexOf dirs (parentPath path)).getD 0

/-- `group_files`: the files of each directory, in the order of the list. -/
def groupFiles (files : List FileMeta) (dirs : List String) : List (List ℕ) :=
  (range dirs.length).map fun dirIndex =>
    (range files.length).filter fun index =>
      (files[index]?).any fun file => parentIndex dirs file.path = dirIndex

/-- `link_children`: the subdirectories of each directory, and the parent of each. -/
def linkChildren (dirs : List String) : List (List ℕ) × List ℕ :=
  ((range dirs.length).map fun parent =>
    (range dirs.length).filter fun dirIndex =>
      parentIndex dirs (dirs.getD dirIndex "") = parent ∧ parent ≠ dirIndex,
   dirs.zipIdx.map fun dir =>
    if parentIndex dirs dir.1 = dir.2 then 0 else parentIndex dirs dir.1)

/-- The directories of all paths. -/
def DirIndex.collect (files : List FileMeta) : DirIndex :=
  let dirs := collectDirs files
  ⟨dirs, groupFiles files dirs, (linkChildren dirs).1, (linkChildren dirs).2⟩

/-! ## Well-formedness -/

/-- The path does not start with a slash. -/
def Relative (path : String) : Prop := path.toList.head? ≠ some '/'

/-- The root comes first, every directory is listed once, and so is its parent. -/
structure WellFormed (dirs : List String) : Prop where
  nodup : dirs.Nodup
  root : dirs[0]? = some ""
  closed : ∀ dir ∈ dirs, parentPath dir ∈ dirs

theorem registerAncestors_spec (seen : List String) (path : String) :
    (∀ dir, dir ∈ registerAncestors seen path ↔ dir ∈ seen ∨ dir ∈ ancestors path) ∧
      (seen.Nodup → (registerAncestors seen path).Nodup) := by
  unfold registerAncestors
  induction ancestors path generalizing seen with
  | nil => simp
  | cons first rest ih =>
    obtain ⟨hm, hn⟩ := ih (if first ∈ seen then seen else seen ++ [first])
    rw [foldl_cons]
    refine ⟨fun dir => ?_, fun h => hn ?_⟩
    · rw [hm, mem_cons]
      split_ifs with hf
      · constructor
        · tauto
        · rintro (h | rfl | h) <;> tauto
      · rw [mem_append, mem_singleton, or_assoc]
    · split_ifs with hf
      · exact h
      · exact nodup_append.2 ⟨h, nodup_singleton first, fun a ha b hb heq =>
          hf (by rwa [← mem_singleton.1 hb, ← heq])⟩

theorem foldl_registerAncestors_spec (files : List FileMeta) (seen : List String) :
    (∀ dir, dir ∈ files.foldl (fun seen file => registerAncestors seen file.path) seen ↔
        dir ∈ seen ∨ ∃ file ∈ files, dir ∈ ancestors file.path) ∧
      (seen.Nodup →
        (files.foldl (fun seen file => registerAncestors seen file.path) seen).Nodup) := by
  induction files generalizing seen with
  | nil => simp
  | cons file rest ih =>
    obtain ⟨hm, hn⟩ := ih (registerAncestors seen file.path)
    obtain ⟨hf, hs⟩ := registerAncestors_spec seen file.path
    refine ⟨fun dir => ?_, fun h => hn (hs h)⟩
    rw [foldl_cons, hm, hf, or_assoc]
    simp

theorem mem_collectDirs {files : List FileMeta} {dir : String} :
    dir ∈ collectDirs files ↔ dir = "" ∨ ∃ file ∈ files, dir ∈ ancestors file.path := by
  rw [collectDirs, mem_insertionSort, mem_cons, (foldl_registerAncestors_spec files []).1]
  simp

theorem nodup_collectDirs {files : List FileMeta} (h : ∀ file ∈ files, Relative file.path) :
    (collectDirs files).Nodup := by
  rw [collectDirs, (perm_insertionSort _ _).nodup_iff, nodup_cons]
  obtain ⟨hm, hn⟩ := foldl_registerAncestors_spec files []
  refine ⟨fun hroot => ?_, hn nodup_nil⟩
  -- a path that names the root as a directory starts with a slash
  rcases (hm "").1 hroot with hnl | ⟨file, hf, hd⟩
  · cases hnl
  · obtain ⟨rest, hrest⟩ := exists_of_mem_ancestors hd
    exact h file hf (by rw [hrest]; rfl)

instance totalPrecedes : Std.Total Precedes :=
  ⟨fun left right => by
    rcases Nat.lt_trichotomy left.utf8ByteSize right.utf8ByteSize with h | h | h
    · exact .inl (.inl h)
    · exact (le_total left right).imp (fun hle => .inr ⟨h, hle⟩) fun hle => .inr ⟨h.symm, hle⟩
    · exact .inr (.inl h)⟩

instance transPrecedes : IsTrans String Precedes :=
  ⟨fun a b c hab hbc => by
    rcases hab with hab | ⟨hab, hle⟩ <;> rcases hbc with hbc | ⟨hbc, hle'⟩
    · exact .inl (hab.trans hbc)
    · exact .inl (hbc ▸ hab)
    · exact .inl (hab ▸ hbc)
    · exact .inr ⟨hab.trans hbc, hle.trans hle'⟩⟩

/-- Nothing but the root is as short as the root, so it comes first. -/
theorem getElem?_collectDirs_zero (files : List FileMeta) : (collectDirs files)[0]? = some "" := by
  have hs : (collectDirs files).Pairwise Precedes := pairwise_insertionSort ..
  have hroot : "" ∈ collectDirs files := mem_collectDirs.2 (.inl rfl)
  cases hdirs : collectDirs files with
  | nil =>
    rw [hdirs] at hroot
    cases hroot
  | cons first rest =>
    rw [hdirs] at hs hroot
    rcases mem_cons.1 hroot with heq | hrest
    · rw [← heq]
      rfl
    · have hf := rel_of_pairwise_cons hs hrest
      have hz : first.utf8ByteSize = 0 := by
        rcases hf with h | h
        · exact absurd h (Nat.not_lt_zero _)
        · exact h.1
      rw [String.utf8ByteSize_eq_zero_iff.1 hz]
      rfl

theorem wellFormed_collectDirs {files : List FileMeta} (h : ∀ file ∈ files, Relative file.path) :
    WellFormed (collectDirs files) where
  nodup := nodup_collectDirs h
  root := getElem?_collectDirs_zero files
  closed dir hd := by
    rw [mem_collectDirs] at hd ⊢
    rcases parentPath_eq dir with ⟨-, hp⟩ | hp
    · exact .inl hp
    · rcases hd with rfl | ⟨file, hf, hm⟩
      · rw [ancestors_of_none (by rfl)] at hp
        cases hp
      · exact .inr ⟨file, hf, ancestors_subset hm hp⟩

/-! ## Parents -/

theorem getElem?_indexOf {dirs : List String} {path : String} (h : path ∈ dirs) :
    ∃ index, indexOf dirs path = some index ∧ dirs[index]? = some path := by
  have hr : path ∈ dirs.reverse := mem_reverse.2 h
  have hlt := idxOf_lt_length_of_mem hr
  rw [length_reverse] at hlt
  refine ⟨_, if_pos h, ?_⟩
  rw [← getElem?_reverse hlt, getElem?_idxOf hr]

theorem getElem?_parentIndex {dirs : List String} {path : String} (h : parentPath path ∈ dirs) :
    dirs[parentIndex dirs path]? = some (parentPath path) := by
  obtain ⟨index, hi, hget⟩ := getElem?_indexOf h
  rwa [parentIndex, hi]

section

variable {dirs : List String} (hdirs : WellFormed dirs) {dirIndex : ℕ}
include hdirs

theorem WellFormed.ne_empty {path : String} (hget : dirs[dirIndex]? = some path)
    (hne : dirIndex ≠ 0) : path ≠ "" := by
  rintro rfl
  have hlt := (List.getElem?_eq_some_iff.1 hget).1
  exact hne ((getElem?_inj hlt hdirs.nodup).1 (hget.trans hdirs.root.symm))

/-- Every directory but the root has another one as its parent. -/
theorem WellFormed.parentIndex_ne {path : String} (hget : dirs[dirIndex]? = some path)
    (hne : dirIndex ≠ 0) : parentIndex dirs path ≠ dirIndex := by
  intro heq
  have hp := getElem?_parentIndex (hdirs.closed path (mem_of_getElem? hget))
  rw [heq, hget, Option.some.injEq] at hp
  have hlen := length_parentPath (hdirs.ne_empty hget hne)
  rw [← hp] at hlen
  exact lt_irrefl _ hlen

end

variable {files : List FileMeta}

namespace DirIndex

theorem path_collect {dirIndex : ℕ} {path : String}
    (h : (collectDirs files)[dirIndex]? = some path) : (collect files).path dirIndex = path := by
  exact congrArg (Option.getD · "") h

/-- What is known of a directory other than the root: its parent is listed with the parent's path,
and it has the directory as an entry. -/
theorem parentOf_collect (hr : ∀ file ∈ files, Relative file.path) {dirIndex : ℕ}
    (hlt : dirIndex < (collect files).len) (hne : dirIndex ≠ 0) :
    (collect files).parentOf dirIndex < (collect files).len ∧
      (collect files).path ((collect files).parentOf dirIndex) =
        parentPath ((collect files).path dirIndex) ∧
      (collect files).path dirIndex ≠ "" ∧
      dirIndex ∈ (collect files).subdirs ((collect files).parentOf dirIndex) := by
  have hdirs := wellFormed_collectDirs hr
  have hget : (collectDirs files)[dirIndex]? = some (collectDirs files)[dirIndex] :=
    getElem?_eq_getElem hlt
  generalize (collectDirs files)[dirIndex] = path at hget
  have ho := hdirs.parentIndex_ne hget hne
  have hp := getElem?_parentIndex (hdirs.closed path (mem_of_getElem? hget))
  have hpr : (collect files).parentOf dirIndex = parentIndex (collectDirs files) path := by
    rw [parentOf, collect, linkChildren, getD_eq_getElem?_getD, getElem?_map, getElem?_zipIdx, hget]
    simp [ho]
  have hl := (List.getElem?_eq_some_iff.1 hp).1
  rw [hpr, path_collect hp, path_collect hget]
  refine ⟨hl, rfl, hdirs.ne_empty hget hne, ?_⟩
  rw [subdirs, collect, linkChildren, getD_eq_getElem?_getD, getElem?_map, getElem?_range hl,
    Option.map_some, Option.getD_some, mem_filter,
    mem_range, decide_eq_true_eq, getD_eq_getElem?_getD, hget]
  exact ⟨hlt, rfl, ho⟩

/-- Every file is an entry of a directory. -/
theorem exists_mem_files {index : ℕ} (hlt : index < files.length) :
    ∃ dirIndex < (collect files).len, (collect files).path dirIndex = parentPath files[index].path ∧
      index ∈ (collect files).files dirIndex := by
  have hm : parentPath files[index].path ∈ collectDirs files := by
    rw [mem_collectDirs]
    exact (parentPath_eq _).imp And.right fun h => ⟨_, getElem_mem hlt, h⟩
  have hl := (List.getElem?_eq_some_iff.1 (getElem?_parentIndex hm)).1
  refine ⟨_, hl, path_collect (getElem?_parentIndex hm), ?_⟩
  rw [DirIndex.files, collect, groupFiles, getD_eq_getElem?_getD, getElem?_map, getElem?_range hl,
    Option.map_some, Option.getD_some, mem_filter,
    mem_range, getElem?_eq_getElem hlt]
  exact ⟨hlt, by simp⟩

theorem exists_of_mem_getD_map {n dirIndex x : ℕ} {f : ℕ → List ℕ}
    (h : x ∈ ((range n).map f).getD dirIndex []) : ∃ j, x ∈ f j := by
  rw [getD_eq_getElem?_getD, getElem?_map] at h
  cases hget : (range n)[dirIndex]? with
  | none =>
    rw [hget] at h
    cases h
  | some j =>
    rw [hget] at h
    exact ⟨j, h⟩

/-- Nothing but listed directories and files is an entry. -/
theorem lt_of_mem_entries {dirIndex : ℕ} {name : String} {kind : Kind}
    (h : (name, kind) ∈ (collect files).entries files dirIndex) :
    match kind with
    | .directory index => index < (collect files).len
    | .file index => index < files.length := by
  rw [entries, mem_append] at h
  rcases h with h | h
  · obtain ⟨child, hc, heq⟩ := mem_map.1 h
    cases heq
    obtain ⟨parent, hm⟩ := exists_of_mem_getD_map hc
    exact mem_range.1 (mem_filter.1 hm).1
  · obtain ⟨index, hi, heq⟩ := mem_map.1 h
    cases heq
    obtain ⟨parent, hm⟩ := exists_of_mem_getD_map hi
    exact mem_range.1 (mem_filter.1 hm).1

theorem len_pos (files : List FileMeta) : 0 < (collect files).len :=
  (List.getElem?_eq_some_iff.1 (getElem?_collectDirs_zero files)).1

end DirIndex

end Muak.Fatfs
