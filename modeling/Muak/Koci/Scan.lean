import Muak.Foundations.Bytes
import Muak.Foundations.Result

/-!
# Entries of a layer

`toolchain/koci/src/pull/{paths,scan}.rs`: the entries of the archive of a layer are files of the
image, or markers that hide files of the layers below.

* `normalizeEntryPathInto`, `whiteoutTargetInto`: the path of an entry and the target of a marker.
* `classifyTarEntry`: what an entry is.
* `classifyTarEntry_eq`: what a regular entry is.
-/

namespace Muak.Koci

open List

/-! ## Paths -/

/-- The part of a path between two slashes. -/
abbrev Name := Bytes

inductive Component
  | rootDir
  | curDir
  | parentDir
  | normal (name : Name)
  deriving DecidableEq

def dot : Name := [0x2e]

def dotDot : Name := [0x2e, 0x2e]

/-- A part of a path behind the first, where `.` means nothing. -/
def component (part : Name) : Option Component :=
  if part = [] ∨ part = dot then none
  else if part = dotDot then some .parentDir
  else some (.normal part)

/-- `Path::components`. -/
def components (path : Bytes) : List Component :=
  match path.splitOn 0x2f with
  | [] => []
  | first :: rest =>
    (if first = [] then (if rest = [] then [] else [.rootDir])
      else if first = dot then [.curDir]
      else (component first).toList) ++ rest.filterMap component

/-- A path up to the equality of paths, for which slashes and dots at its end do not count. -/
abbrev PathBuf := List Component

/-- `PathBuf::push` of a single part. -/
def PathBuf.push (buf : PathBuf) (part : Name) : PathBuf :=
  if part = [] then buf
  else if part = dot then (if buf = [] then [.curDir] else buf)
  else if part = dotDot then buf ++ [.parentDir]
  else buf ++ [.normal part]

/-- The path of these names. -/
def PathBuf.ofNames (names : List Name) : PathBuf := names.map .normal

/-- The bytes of a path. -/
def render (names : List Name) : Bytes := intercalate [0x2f] names

/-- Why a layer is refused. -/
inductive KociError
  /-- A message, with the path that is displayed behind it. -/
  | layerExtractionError (message : String) (path : Bytes)
  deriving DecidableEq

/-- The loop over the components. -/
def pushComponents (raw : Bytes) : List Component → List Name → Except KociError (List Name)
  | [], buf => .ok buf
  | .normal part :: rest, buf => pushComponents raw rest (buf ++ [part])
  | .curDir :: rest, buf => pushComponents raw rest buf
  | .rootDir :: rest, buf => pushComponents raw rest buf
  | .parentDir :: _, _ =>
    .error (.layerExtractionError "OCI layer entry escapes extraction root: " raw)

/-- The names that are left of a path; without any, there is no entry. -/
def normalizeEntryPathInto (raw : Bytes) : Except KociError (List Name) :=
  pushComponents raw (components raw) []

/-- `.wh.`. -/
def whiteoutPrefix : Name := [0x2e, 0x77, 0x68, 0x2e]

/-- `.wh..wh..opq`. -/
def opaqueMarker : Name := whiteoutPrefix ++ whiteoutPrefix ++ [0x2e, 0x6f, 0x70, 0x71]

/-- `OsStr::to_str` gives a text. -/
def isUtf8 (name : Name) : Bool := (String.fromUTF8? ⟨name.toArray⟩).isSome

/-- The target of a marker. -/
def whiteoutTargetInto (buf : List Name) : Option PathBuf :=
  match buf.getLast? with
  | none => none
  | some fileName =>
    if isUtf8 fileName then
      if fileName = opaqueMarker then some (.ofNames buf.dropLast)
      else if whiteoutPrefix.isPrefixOf fileName then
        some (PathBuf.push (.ofNames buf.dropLast) (fileName.drop whiteoutPrefix.length))
      else none
    else none

/-! ## Entries -/

/-- What an entry of an archive is. -/
inductive EntryType
  | regular | directory | symlink | hardLink | other
  deriving DecidableEq

/-- An entry of an archive; a size or mode that cannot be read is missing. -/
structure TarEntry where
  path : Bytes
  entryType : EntryType
  size : Option ℕ
  mode : Option ℕ
  data : Bytes

/-- The size, the mode and the content of a file. -/
structure File where
  size : ℕ
  mode : ℕ
  data : Bytes
  deriving DecidableEq

/-- The file of an entry; the defaults are those of the source. -/
def TarEntry.file (entry : TarEntry) : File :=
  ⟨entry.size.getD 0, entry.mode.getD 0o644, entry.data⟩

/-- What becomes of an entry. -/
inductive EntryInfo
  | skip
  | whiteout (target : PathBuf)
  | file (names : List Name) (file : File)

def unsupportedEntry (kind : String) (names : List Name) : KociError :=
  .layerExtractionError ("Unsupported " ++ kind ++ " entry in OCI layer: ") (render names)

/-- `.prefetch.landmark` and `.no.prefetch.landmark`. -/
def landmarks : List Name :=
  let landmark : Name := [0x2e, 0x70, 0x72, 0x65, 0x66, 0x65, 0x74, 0x63, 0x68, 0x2e, 0x6c, 0x61,
    0x6e, 0x64, 0x6d, 0x61, 0x72, 0x6b]
  [landmark, [0x2e, 0x6e, 0x6f] ++ landmark]

/-- The entries that an eStargz blob has for itself. -/
def isBookkeeping (names : List Name) : Bool := landmarks.any (names = [·])

/-- A file, a whiteout or nothing. -/
def classifyTarEntry (entry : TarEntry) : Except KociError EntryInfo := do
  let names ← normalizeEntryPathInto entry.path
  if names = [] then .ok .skip
  else
    match whiteoutTargetInto names with
    | some target => .ok (.whiteout target)
    | none =>
      match entry.entryType with
      | .directory => .ok .skip
      | .symlink => .error (unsupportedEntry "symlink" names)
      | .hardLink => .error (unsupportedEntry "hard link" names)
      | .other =>
        .error (.layerExtractionError "Unsupported OCI layer entry type for " (render names))
      | .regular =>
        if isBookkeeping names then .ok .skip
        else .ok (.file names entry.file)

/-- The targets of the markers of a layer. -/
def scanWhiteouts : List TarEntry → Except KociError (List PathBuf)
  | [] => .ok []
  | entry :: entries => do
    let info ← classifyTarEntry entry
    let whiteouts ← scanWhiteouts entries
    match info with
    | .whiteout target => .ok (target :: whiteouts)
    | _ => .ok whiteouts

/-! ## Names -/

/-- The names in a path. -/
def TarEntry.names (entry : TarEntry) : List Name :=
  (components entry.path).filterMap fun
    | .normal name => some name
    | _ => none

/-- No part of the path leads out of its directory. -/
def TarEntry.Inside (entry : TarEntry) : Prop := .parentDir ∉ components entry.path

variable {parts : List Component}

theorem pushComponents_eq {raw : Bytes} (buf : List Name) (h : .parentDir ∉ parts) :
    pushComponents raw parts buf = .ok (buf ++ parts.filterMap fun
      | .normal name => some name
      | _ => none) := by
  induction parts generalizing buf with
  | nil => rw [pushComponents, filterMap_nil, append_nil]
  | cons part parts ih =>
    rw [mem_cons, not_or] at h
    cases part with
    | parentDir => exact absurd rfl h.1
    | normal name =>
      rw [pushComponents, ih _ h.2, append_assoc]
      rfl
    | rootDir =>
      rw [pushComponents, ih _ h.2]
      rfl
    | curDir =>
      rw [pushComponents, ih _ h.2]
      rfl

theorem inside_of_pushComponents {raw : Bytes} {buf names : List Name}
    (h : pushComponents raw parts buf = .ok names) : .parentDir ∉ parts := by
  induction parts generalizing buf with
  | nil => exact not_mem_nil
  | cons part parts ih =>
    cases part with
    | parentDir => cases h
    | normal name => exact not_mem_cons_of_ne_of_not_mem nofun (ih h)
    | rootDir => exact not_mem_cons_of_ne_of_not_mem nofun (ih h)
    | curDir => exact not_mem_cons_of_ne_of_not_mem nofun (ih h)

variable {entry : TarEntry}

theorem normalizeEntryPathInto_eq (h : entry.Inside) :
    normalizeEntryPathInto entry.path = .ok entry.names := pushComponents_eq [] h

theorem inside_of_classify {info : EntryInfo} (h : classifyTarEntry entry = .ok info) :
    entry.Inside := by
  obtain ⟨names, hn, -⟩ := of_bind h
  exact inside_of_pushComponents hn

theorem classifyTarEntry_eq (hi : entry.Inside) (hr : entry.entryType = .regular) :
    classifyTarEntry entry = .ok (
      match whiteoutTargetInto entry.names with
      | some target => .whiteout target
      | none =>
        if entry.names = [] ∨ isBookkeeping entry.names then .skip
        else .file entry.names entry.file) := by
  rw [classifyTarEntry, normalizeEntryPathInto_eq hi, ok_bind, hr]
  by_cases he : entry.names = []
  · rw [he]
    rfl
  rw [if_neg he]
  cases whiteoutTargetInto entry.names with
  | some target => rfl
  | none =>
    by_cases hb : isBookkeeping entry.names = true
    · rw [if_pos hb, if_pos (.inr hb)]
    · rw [if_neg hb, if_neg (not_or.2 ⟨he, hb⟩)]

end Muak.Koci
