import Muak.Foundations.Path
import Muak.Workloadd.Actor

/-!
# Uploads

`upload_file` of `services/workloadd/src/ipc/mod.rs` and `handle_upload_file` of
`services/workloadd/src/actor/state.rs`: a stream brings a file name, the identifier of a machine
and the contents of a file for the directory of this machine.

* `uploadFile_written_iff`: when a file is written, and where.
* `upload_confined_iff`: the file is one of the machine exactly if the identifier, wherever it leads
  to a directory, is that of a known machine.
* `upload_to_etc`: an absolute identifier leads anywhere.

The announced size only reserves memory. The file name loses its slashes; the identifier does not,
and it is not looked up in the actor.
-/

namespace Muak.Workloadd

open Muak.Path

/-! ## The stream -/

inductive UploadFileRequest
  | metadata (filename : String) (size : ℤ) (vmId : String)
  | chunk (bytes : Bytes)
  | unset
  deriving DecidableEq

structure UploadFileResponse where
  path : String
  error : String
  deriving DecidableEq

/-- What a stream has brought so far. -/
structure Received where
  filename : String
  vmId : Option String
  data : Bytes
  deriving DecidableEq

/-- What a message adds. -/
def Received.add (received : Received) : UploadFileRequest → Received
  | .metadata filename _ vmId =>
    { received with
      filename
      vmId := if vmId = "" then received.vmId else some vmId }
  | .chunk bytes => { received with data := received.data ++ bytes }
  | .unset => received

/-- The whole stream; an error in it ends the request. -/
def receive (stream : List (Except String UploadFileRequest)) : Except String Received :=
  stream.foldlM (fun received chunk => chunk.map received.add) ⟨"", none, []⟩

/-! ## The file system -/

/-- The directories and the files that are there. -/
structure FileSystem where
  tree : Tree
  isFile : Location → Bool

namespace FileSystem

variable (fs : FileSystem)

/-- `Path::exists`; with a slash at the end it has to be a directory. -/
def pathExists (path : String) : Bool :=
  match fs.tree.locate path with
  | .ok loc => fs.tree.isDir loc || (fs.isFile loc && path.toList.getLast? ≠ some '/')
  | .error _ => false

/-- The place of a file that is to be written. -/
def target (path : String) : Except String Location :=
  match fs.tree.locate path with
  | .ok loc => if fs.tree.isDir loc then .error "Is a directory (os error 21)" else .ok loc
  | .error e => .error e

end FileSystem

/-- What is in a file after a write of it, if it was opened. -/
def WriteOutcome.contents (data : Bytes) : WriteOutcome → Option Bytes
  | .done => some data
  | .failed written | .crashed written => written.map data.take

/-- The result of a write; after a crash there is none. -/
def WriteOutcome.result (message : String) : WriteOutcome → Option (Except String Unit)
  | .done => some (.ok ())
  | .failed _ => some (.error message)
  | .crashed _ => none

/-! ## The handlers -/

def dataDir : String := "/run/data"

def safeFilename (filename : String) : String :=
  String.ofList (filename.toList.map fun c => if c ∈ ['/', '\\', '\x00'] then '_' else c)

/-- A file with what is in it after a command, if one was written, and the answer. -/
abbrev Upload (α : Type) := Option (Location × Bytes) × Option (Except String α)

section
variable (fs : FileSystem) (o : WriteOutcome) (message : String)

/-- Write the file into the directory of the machine. -/
def handleUploadFile (filename : String) (data : Bytes) (vmId : Option String) : Upload String :=
  match vmId with
  | none => (none, some (.error "vm_id is required for file uploads"))
  | some vmId =>
    let vmDir := join dataDir vmId
    if ¬fs.pathExists vmDir then
      (none, some (.error ("VM directory not found: " ++ vmId ++ ". Create the VM first.")))
    else
      let path := join vmDir (safeFilename filename)
      match fs.target path with
      | .error e => (none, some (.error e))
      | .ok loc =>
        ((o.contents data).map (loc, ·),
          (o.result message).map fun result => result.map fun _ => path)

/-- The answer to an upload: a failure of the actor is told in it. -/
def uploadResponse : Except String String → UploadFileResponse
  | .ok path => ⟨path, ""⟩
  | .error e => ⟨"", "Failed to upload file: " ++ e⟩

/-- Receive the stream and write the file. -/
def uploadFile (stream : List (Except String UploadFileRequest)) : Upload UploadFileResponse :=
  match receive stream with
  | .error e => (none, some (.error e))
  | .ok received =>
    if received.filename = "" then (none, some (.error "filename is required"))
    else
      let uploaded := handleUploadFile fs o message received.filename received.data received.vmId
      (uploaded.1, uploaded.2.map fun result => .ok (uploadResponse result))

end

/-! ## Confinement -/

variable {fs : FileSystem} {o : WriteOutcome} {message : String}
  {stream : List (Except String UploadFileRequest)} (actor : VmActor) {loc : Location}

theorem safeFilename_ne_empty {filename : String} (h : filename ≠ "") :
    safeFilename filename ≠ "" := by
  simpa [safeFilename] using h

theorem slash_notMem_safeFilename (filename : String) : '/' ∉ (safeFilename filename).toList := by
  rw [safeFilename, String.toList_ofList, List.mem_map]
  rintro ⟨c, -, hc⟩
  split_ifs at hc with hm
  · exact absurd hc (by decide)
  · exact hm (by simp [hc])

theorem FileSystem.target_eq_ok_iff {path : String} :
    fs.target path = .ok loc ↔ fs.tree.locate path = .ok loc ∧ fs.tree.isDir loc = false := by
  unfold FileSystem.target
  cases hl : fs.tree.locate path with
  | error e => simp
  | ok place =>
    dsimp only
    split_ifs with hd
    · simp only [Except.ok.injEq, false_iff, not_and]
      rintro rfl
      simp [hd]
    · simp only [Except.ok.injEq, iff_self_and]
      rintro rfl
      simpa using hd

/-- **When a file is written**: the stream has a name and an identifier, the directory made of the
identifier exists, and the file in it can be opened. -/
theorem uploadFile_written_iff {data : Bytes} :
    (uploadFile fs o message stream).1 = some (loc, data) ↔
      ∃ received vmId, receive stream = .ok received ∧ received.filename ≠ "" ∧
        received.vmId = some vmId ∧ fs.pathExists (join dataDir vmId) = true ∧
        fs.target (join (join dataDir vmId) (safeFilename received.filename)) = .ok loc ∧
        o.contents received.data = some data := by
  unfold uploadFile
  cases hr : receive stream with
  | error e => simp
  | ok received =>
    simp only [Except.ok.injEq, exists_and_left, exists_eq_left']
    by_cases hn : received.filename = ""
    · simp [hn]
    · simp only [ne_eq, hn]
      cases hid : received.vmId with
      | none => simp [handleUploadFile]
      | some vmId =>
        simp only [handleUploadFile, Option.some.injEq, exists_eq_left']
        by_cases he : fs.pathExists (join dataDir vmId) = true
        · simp only [he]
          cases fs.target (join (join dataDir vmId) (safeFilename received.filename)) with
          | error e => simp
          | ok place => simp [and_comm]
        · simp [he]

/-- A file is written only for a known machine, and then right in the directory of this machine. -/
def UploadConfined (fs : FileSystem) (o : WriteOutcome) (message : String)
    (stream : List (Except String UploadFileRequest)) : Prop :=
  ∀ loc data, (uploadFile fs o message stream).1 = some (loc, data) →
    ∃ received vmId name, receive stream = .ok received ∧ received.vmId = some vmId ∧
      vmId ∈ actor.vms.keys ∧ IsName name ∧ loc = components dataDir ++ [vmId, name]

/-- The identifier is that of a known machine and a plain name, or it leads to no directory in which
the file can be opened. -/
def NamesVm (fs : FileSystem) (o : WriteOutcome) (stream : List (Except String UploadFileRequest)) :
    Prop :=
  ∀ received vmId, receive stream = .ok received → received.filename ≠ "" →
    received.vmId = some vmId → fs.pathExists (join dataDir vmId) = true →
    (∃ loc, fs.target (join (join dataDir vmId) (safeFilename received.filename)) = .ok loc) →
    (o.contents received.data).isSome → vmId ∈ actor.vms.keys ∧ IsName vmId

/-- A file that is opened in the directory of a plain name is right in it. -/
theorem eq_of_target {vmId filename : String} (hid : IsName vmId) (hne : filename ≠ "")
    (h : fs.target (join (join dataDir vmId) (safeFilename filename)) = .ok loc) :
    IsName (safeFilename filename) ∧ loc = components dataDir ++ [vmId, safeFilename filename] := by
  obtain ⟨hl, hfl⟩ := FileSystem.target_eq_ok_iff.1 h
  have hr : ∀ {name : String}, '/' ∉ name.toList → name.toList.head? ≠ some '/' :=
    fun hs hh => hs (List.mem_of_mem_head? hh)
  have hs := slash_notMem_safeFilename filename
  have hc : components (join (join dataDir vmId) (safeFilename filename)) =
      ["run", "data", vmId] ++ [safeFilename filename] := by
    rw [components_join _ (hr hs), components_join _ (hr hid.no_slash),
      components_of_not_mem hid.ne_empty hid.no_slash,
      components_of_not_mem (safeFilename_ne_empty hne) hs]
    rfl
  have hdr : follow [] ["run", "data", vmId] = ["run", "data", vmId] := by
    simp [follow, enter, hid.ne_dot, hid.ne_dotdot]
  obtain ⟨-, hp, hf⟩ := fs.tree.locate_eq_ok_iff.1 hl
  rw [hc] at hp hf
  have hi : fs.tree.isDir ["run", "data", vmId] = true := hp _ (by rw [passed_concat, hdr]; simp)
  change enter (follow [] ["run", "data", vmId]) (safeFilename filename) = loc at hf
  rw [hdr, enter] at hf
  -- the other two names would lead to a directory
  split_ifs at hf with hdt hd
  · rw [← hf, hi] at hfl
    cases hfl
  · have hpr : fs.tree.isDir ["run", "data"] = true := fs.tree.parent _ vmId hi
    rw [← hf] at hfl
    exact absurd hpr (by simpa using hfl)
  · exact ⟨⟨safeFilename_ne_empty hne, hs, hdt, hd⟩, hf.symm⟩

/-- **Confinement of uploads**: a file is written only for a known machine and right in its
directory, exactly if the identifier is that of a known machine wherever a file can be opened at
all. -/
theorem upload_confined_iff (fs : FileSystem) (o : WriteOutcome) (message : String)
    (stream : List (Except String UploadFileRequest)) :
    UploadConfined actor fs o message stream ↔ NamesVm actor fs o stream := by
  constructor
  · rintro h received vmId hr hn hid he ⟨loc, hl⟩ ho
    obtain ⟨data, hd⟩ := Option.isSome_iff_exists.1 ho
    obtain ⟨received', vmId', name, hr', hid', hk, -, heq⟩ := h loc data
      (uploadFile_written_iff.2 ⟨received, vmId, hr, hn, hid, he, hl, hd⟩)
    obtain rfl := Except.ok.inj (hr.symm.trans hr')
    obtain rfl := Option.some.inj (hid.symm.trans hid')
    refine ⟨hk, ?_⟩
    -- a location consists of names
    obtain ⟨-, -, hf⟩ := fs.tree.locate_eq_ok_iff.1 (FileSystem.target_eq_ok_iff.1 hl).1
    have hm : vmId ∈ loc := by
      rw [heq]
      simp
    exact isName_of_mem_follow_components _ vmId (hf.symm ▸ hm)
  · intro h loc data hw
    obtain ⟨received, vmId, hr, hn, hid, he, hl, hd⟩ := uploadFile_written_iff.1 hw
    obtain ⟨hk, hp⟩ := h received vmId hr hn hid he ⟨loc, hl⟩ (by simp [hd])
    obtain ⟨hs, heq⟩ := eq_of_target hp hn hl
    exact ⟨received, vmId, _, hr, hid, hk, hs, heq⟩

/-- **A file outside the data directory**: with the identifier `/etc`, and no machine at all, the
upload of `shadow` is written to `/etc/shadow`. -/
theorem upload_to_etc :
    let actor : VmActor := { vms := Dict.empty, pendingRestarts := [], kvmAvailable := true }
    let fs : FileSystem :=
      { tree := Tree.spanning [["run", "data"], ["etc"]], isFile := fun _ => false }
    let stream : List (Except String UploadFileRequest) :=
      [.ok (.metadata "shadow" 2 "/etc"), .ok (.chunk [1, 2])]
    uploadFile fs .done "" stream =
        (some (["etc", "shadow"], [1, 2]), some (.ok ⟨"/etc/shadow", ""⟩)) ∧
      ¬ UploadConfined actor fs .done "" stream := by
  intro actor fs stream
  have hu : uploadFile fs .done "" stream =
      (some (["etc", "shadow"], [1, 2]), some (.ok ⟨"/etc/shadow", ""⟩)) := by decide +kernel
  refine ⟨hu, fun h => ?_⟩
  obtain ⟨received, vmId, name, -, -, hk, -, -⟩ := h _ _ (congrArg Prod.fst hu)
  exact absurd hk List.not_mem_nil

end Muak.Workloadd
