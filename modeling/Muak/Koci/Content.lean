import Muak.Foundations.Files
import Muak.Foundations.Run

/-!
# The store of layers

`toolchain/koci/src/pull/content.rs` and `stream_blob` of `download.rs`: a blob is streamed into a
staging file while it is hashed, and renamed into the store when its digest was verified. Any number
of tasks of any number of processes share one directory.

* `step`: the system calls of the ingests, one at a time, with crashes and garbage collection.
* `Store.Addressed`: a file of the store has just the bytes that were verified.
* `Orderly`: processes do not take each other's staging files.
* `Store.Sound`: what an ingest has hashed is what its staging file and its buffer have.
* `addressed_of_orderly`: in an orderly run the files of the store have just the bytes that were
  verified.
-/

namespace Muak.Koci.Content

open List Function

/-! ## The source -/

/-- `ingest/` and `blobs/sha256/` below the cache root. -/
inductive Path
  | staging (name : String)
  | blob (hash : String)
  deriving DecidableEq

/-- What an ingest waits for: an answer to its request, the next bytes of the staging file that are
hashed again, the next frame (after the pending bytes are written), or the rename. -/
inductive Phase
  | requested
  | hashing (file position : ℕ)
  | streaming (pending : Bytes)
  | verified
  deriving DecidableEq

/-- An ingest, with the bytes that its verifier got. -/
structure Ingest where
  process : ℕ
  hash : String
  stagingPath : String
  file : ℕ
  resumable : Bool
  resumeOffset : ℕ
  verifier : Bytes
  phase : Phase

/-- The statics of a process. -/
structure Process where
  claimedStages : List String
  ingestSeq : ℕ

/-- The directory and all ingests; the bytes that were verified for each file of the store are only
there for the specification. -/
structure Store where
  files : Files Path
  processes : ℕ → Process
  ingests : ℕ → Option Ingest
  verified : String → Option Bytes

def Store.empty : Store := ⟨.empty, fun _ => ⟨[], 0⟩, fun _ => none, fun _ => none⟩

def sha256Prefix : List Char := ['s', 'h', 'a', '2', '5', '6', ':']

/-- `strip_prefix("sha256:")`. -/
def stripSha256 (digest : String) : Option String :=
  if sha256Prefix.isPrefixOf digest.toList then
    some (String.ofList (digest.toList.drop sha256Prefix.length))
  else none

variable (process : Process)

/-- Claim a name, unless another task of the process has it. -/
def claimStaging (name : String) : Option Process :=
  if name ∈ process.claimedStages then none
  else some { process with claimedStages := name :: process.claimedStages }

def releaseStaging (name : String) : Process :=
  { process with claimedStages := process.claimedStages.filter (· ≠ name) }

/-- The name of a staging file that is not that of the digest. -/
def detachedPath (hash : String) : String :=
  hash ++ "." ++ toString process.ingestSeq ++ ".part"

namespace Store

variable (s : Store)

def setIngest (task : ℕ) (ingest : Ingest) : Store :=
  { s with ingests := update s.ingests task (some ingest) }

/-- Open a staging file and start an ingest of it. -/
def openStaging (task process : ℕ) (next : Process) (hash stagingPath : String) (resumable : Bool) :
    Store :=
  let opened := s.files.openFile (.staging stagingPath)
  setIngest { s with
    files := opened.1
    processes := update s.processes process next } task {
      process := process
      hash := hash
      stagingPath := stagingPath
      file := opened.2
      resumable := resumable
      resumeOffset := if resumable then (opened.1.content opened.2).length else 0
      verifier := []
      phase := .requested }

/-- `Content::blob_writer`: the staging file of the digest if no other task of the process has it,
or else one with a number of its own. -/
def blobWriter (task process : ℕ) (hash : String) : Store :=
  let canonical := hash ++ ".part"
  match claimStaging (s.processes process) canonical with
  | some claimed => s.openStaging task process claimed hash canonical true
  | none =>
    s.openStaging task process
      { s.processes process with ingestSeq := (s.processes process).ingestSeq + 1 } hash
      (detachedPath (s.processes process) hash) false

/-- `Drop for Ingest`. -/
def dropIngest (task : ℕ) (ingest : Ingest) (committed : Bool) : Store :=
  { s with
    files := if !committed && !ingest.resumable then s.files.unlink (.staging ingest.stagingPath)
      else s.files
    processes := update s.processes ingest.process
      (releaseStaging (s.processes ingest.process) ingest.stagingPath)
    ingests := update s.ingests task none }

/-- `Ingest::restart`. -/
def restart (task : ℕ) (ingest : Ingest) (phase : Phase) : Store :=
  setIngest { s with files := s.files.write ingest.file [] } task
    { ingest with
      resumeOffset := 0
      phase := phase }

/-- The next bytes of `Ingest::hash_prefix`, at least one if there are any left. -/
def hashPrefix (task : ℕ) (ingest : Ingest) (file position n : ℕ) : Store :=
  let chunk := (((s.files.content file).take ingest.resumeOffset).drop position).take (n + 1)
  if chunk = [] then
    if position = ingest.resumeOffset then s.setIngest task { ingest with phase := .streaming [] }
    else s.dropIngest task ingest false
  else s.setIngest task { ingest with
    verifier := ingest.verifier ++ chunk
    phase := .hashing file (position + chunk.length) }

/-- The answer to the request: the rest of the blob, or all of it. -/
def respond (task : ℕ) (ingest : Ingest) (isPartial : Bool) : Store :=
  if 0 < ingest.resumeOffset then
    if isPartial then
      match s.files.names (.staging ingest.stagingPath) with
      | some file => s.setIngest task { ingest with phase := .hashing file 0 }
      | none => s.dropIngest task ingest false
    else s.restart task ingest (.streaming [])
  else s.setIngest task { ingest with phase := .streaming [] }

/-- The rename of `Ingest::commit`, after the digest was verified. -/
def commit (task : ℕ) (ingest : Ingest) : Store :=
  match s.files.rename (.staging ingest.stagingPath) (.blob ingest.hash) with
  | none => s.dropIngest task ingest false
  | some files => dropIngest { s with
      files := files
      verified := update s.verified ingest.hash (some ingest.verifier) } task ingest true

end Store

/-- What happens next. -/
inductive Event
  /-- The blob was not found, so a task starts an ingest. -/
  | start (task process : ℕ) (digest : String)
  /-- The range cannot be satisfied. -/
  | rangeNotSatisfiable (task : ℕ)
  | response (task : ℕ) (isPartial : Bool)
  | readPrefix (task n : ℕ)
  /-- A frame of the body is hashed. -/
  | frame (task : ℕ) (data : Bytes)
  /-- The next `n` bytes of the frame are written. -/
  | write (task n : ℕ)
  /-- The body is complete. -/
  | verify (task : ℕ)
  | rename (task : ℕ)
  /-- An error, or the task is cancelled. -/
  | drop (task : ℕ)
  | crash (process : ℕ)
  /-- A staging file is collected as stale. -/
  | collect (name : String)

section

variable (sha256 : Bytes → String)

/-- A step of a task that has an ingest. -/
def taskStep (s : Store) (task : ℕ) (ingest : Ingest) : Event → Store
  | .rangeNotSatisfiable _ =>
    if ingest.phase = .requested ∧ 0 < ingest.resumeOffset then s.restart task ingest .requested
    else s
  | .response _ isPartial =>
    if ingest.phase = .requested then s.respond task ingest isPartial else s
  | .readPrefix _ n =>
    match ingest.phase with
    | .hashing file position => s.hashPrefix task ingest file position n
    | _ => s
  | .frame _ data =>
    if ingest.phase = .streaming [] then
      s.setIngest task { ingest with
        verifier := ingest.verifier ++ data
        phase := .streaming data }
    else s
  | .write _ n =>
    match ingest.phase with
    | .streaming pending =>
      Store.setIngest { s with
        files := s.files.write ingest.file (s.files.content ingest.file ++ pending.take n) } task
        { ingest with phase := .streaming (pending.drop n) }
    | _ => s
  | .verify _ =>
    if ingest.phase = .streaming [] then
      if sha256 ingest.verifier = ingest.hash then
        s.setIngest task { ingest with phase := .verified }
      else s.dropIngest task { ingest with resumable := false } false
    else s
  | .rename _ => if ingest.phase = .verified then s.commit task ingest else s
  | .drop _ => s.dropIngest task ingest false
  | _ => s

/-- The task of an event. -/
def Event.task : Event → Option ℕ
  | .rangeNotSatisfiable task | .response task _ | .readPrefix task _ | .frame task _
  | .write task _ | .verify task | .rename task | .drop task => some task
  | .start .. | .crash _ | .collect _ => none

/-- An event that is not possible changes nothing. -/
def step (s : Store) (event : Event) : Store :=
  match event with
  | .start task process digest =>
    match s.ingests task, stripSha256 digest with
    | none, some hash => s.blobWriter task process hash
    | _, _ => s
  | .crash process => { s with
      processes := update s.processes process ⟨[], 0⟩
      ingests := fun task => (s.ingests task).filter (·.process ≠ process) }
  | .collect name => { s with files := s.files.unlink (.staging name) }
  | event =>
    match event.task with
    | none => s
    | some task =>
      match s.ingests task with
      | none => s
      | some ingest => taskStep sha256 s task ingest event

end

/-! ## Content addressing -/

/-- A file of the store has just the bytes that were verified, and they hash to its name. -/
def Store.Addressed (sha256 : Bytes → String) (s : Store) : Prop :=
  ∀ hash content, s.files.read (.blob hash) = some content →
    s.verified hash = some content ∧ sha256 content = hash

/-- Processes keep out of each other's way. The staging file of a digest is taken only if no ingest
of another process and no detached one has it open; the name of a detached ingest is new; and no
file that an ingest has open is collected. -/
def Orderly (s : Store) : Event → Prop
  | .start task process digest => ∀ hash, s.ingests task = none → stripSha256 digest = some hash →
    if hash ++ ".part" ∈ (s.processes process).claimedStages then
      s.files.names (.staging (detachedPath (s.processes process) hash)) = none
    else ∀ other ingest, s.ingests other = some ingest →
      ingest.process ≠ process ∨ ingest.resumable = false → ingest.stagingPath ≠ hash ++ ".part"
  | .collect name => ∀ task ingest, s.ingests task = some ingest → ingest.stagingPath ≠ name
  | _ => True

/-! ## The invariant -/

/-- What the bytes of its staging file are to an ingest. -/
def Ingest.Holds (sha256 : Bytes → String) (ingest : Ingest) (content : Bytes) : Prop :=
  match ingest.phase with
  | .requested => ingest.verifier = [] ∧ content.length = ingest.resumeOffset
  | .hashing file position => file = ingest.file ∧ content.length = ingest.resumeOffset ∧
    position ≤ content.length ∧ ingest.verifier = content.take position
  | .streaming pending => content ++ pending = ingest.verifier
  | .verified => content = ingest.verifier ∧ sha256 content = ingest.hash

/-- An ingest has the file at its staging path open, and claimed it if it is the one of the
digest. -/
structure Store.Live (sha256 : Bytes → String) (s : Store) (ingest : Ingest) : Prop where
  named : s.files.names (.staging ingest.stagingPath) = some ingest.file
  holds : ingest.Holds sha256 (s.files.content ingest.file)
  claimed : ingest.resumable = true →
    ingest.stagingPath ∈ (s.processes ingest.process).claimedStages

/-- No two ingests have the same staging file, and the store is content addressed. -/
structure Store.Sound (sha256 : Bytes → String) (s : Store) : Prop where
  live : ∀ task ingest, s.ingests task = some ingest → s.Live sha256 ingest
  alone : ∀ task other ingest ingest', s.ingests task = some ingest →
    s.ingests other = some ingest' → ingest.stagingPath = ingest'.stagingPath → task = other
  addressed : s.Addressed sha256

variable {sha256 : Bytes → String} {s t : Store} {event : Event} {task : ℕ} {ingest : Ingest}
  {committed : Bool}

theorem staging_ne_blob {name hash : String} : Path.staging name ≠ .blob hash := nofun

theorem sound_empty : Store.empty.Sound sha256 := ⟨nofun, nofun, nofun⟩

/-- The same names, and the same content of the files of the store. -/
theorem Store.Addressed.of_content (h : s.Addressed sha256)
    (hn : ∀ hash, t.files.names (.blob hash) = s.files.names (.blob hash))
    (hc : ∀ hash file, s.files.names (.blob hash) = some file →
      t.files.content file = s.files.content file)
    (hv : t.verified = s.verified) : t.Addressed sha256 := by
  intro hash content hr
  obtain ⟨file, hf, rfl⟩ := Option.map_eq_some_iff.1 hr
  rw [hn] at hf
  rw [hv, hc hash file hf]
  exact h hash _ (by rw [Files.read, hf]; rfl)

theorem names_dropIngest {p : Path} (h : p ≠ .staging ingest.stagingPath) :
    (s.dropIngest task ingest committed).files.names p = s.files.names p := by
  unfold Store.dropIngest
  split_ifs
  · exact update_of_ne h _ _
  · rfl

theorem content_dropIngest :
    (s.dropIngest task ingest committed).files.content = s.files.content := by
  unfold Store.dropIngest
  split_ifs <;> rfl

namespace Store.Sound

variable (h : s.Sound sha256) {files : Files Path}

include h

/-- The ingest of one task changes. -/
theorem of_update {value : Option Ingest} (hi : t.ingests = update s.ingests task value)
    (hn : ∀ next, value = some next → t.Live sha256 next ∧
      ∀ other ingest, other ≠ task → s.ingests other = some ingest →
        ingest.stagingPath ≠ next.stagingPath)
    (hol : ∀ other ingest, other ≠ task → s.ingests other = some ingest → t.Live sha256 ingest)
    (ha : t.Addressed sha256) : t.Sound sha256 := by
  have hc {other : ℕ} {ingest : Ingest} (ho : t.ingests other = some ingest) :
      other = task ∧ value = some ingest ∨ other ≠ task ∧ s.ingests other = some ingest := by
    rw [hi] at ho
    by_cases heq : other = task
    · rw [heq, update_self] at ho
      exact .inl ⟨heq, ho⟩
    · rw [update_of_ne heq] at ho
      exact .inr ⟨heq, ho⟩
  refine ⟨fun other ingest ho => ?_, fun left right ingest ingest' hl hr hp => ?_, ha⟩
  · rcases hc ho with ⟨-, hv⟩ | ⟨hne, ho⟩
    · exact (hn ingest hv).1
    · exact hol other ingest hne ho
  · rcases hc hl with ⟨rfl, hvl⟩ | ⟨hnl, hl⟩ <;> rcases hc hr with ⟨rfl, hvr⟩ | ⟨hnr, hr⟩
    · rfl
    · exact absurd hp.symm ((hn ingest hvl).2 right ingest' hnr hr)
    · exact absurd hp ((hn ingest' hvr).2 left ingest hnl hl)
    · exact h.alone left right ingest ingest' hl hr hp

/-- An ingest that goes on, after it wrote to its own file. -/
theorem advance (hi : s.ingests task = some ingest) {phase : Phase} {verifier : Bytes}
    {resumeOffset : ℕ} (hn : files.names = s.files.names)
    (hc : ∀ file, file ≠ ingest.file → files.content file = s.files.content file)
    (hnx : Ingest.Holds sha256 { ingest with phase, verifier, resumeOffset }
      (files.content ingest.file)) :
    (setIngest { s with files } task { ingest with phase, verifier, resumeOffset }).Sound
      sha256 := by
  have hl := h.live task ingest hi
  refine h.of_update rfl (fun _ hv => ?_) (fun other ingest' hne ho => ?_)
    (h.addressed.of_content (fun _ => by rw [setIngest, hn]) (fun _ file hf => hc file ?_) rfl)
  · cases hv
    exact ⟨⟨by rw [setIngest, hn]; exact hl.named, hnx, hl.claimed⟩,
      fun other ingest' hne ho heq => hne (h.alone _ _ _ _ ho hi heq)⟩
  · obtain ⟨hnm, hh, hcl⟩ := h.live other ingest' ho
    refine ⟨by rw [setIngest, hn]; exact hnm, ?_, hcl⟩
    -- another ingest has another file
    have hot : ingest'.file ≠ ingest.file := by
      intro heq
      have hs := s.files.names_inj _ _ _ hnm (heq ▸ hl.named)
      exact hne (h.alone _ _ _ _ ho hi (Path.staging.inj hs))
    rw [setIngest, hc _ hot]
    exact hh
  · rintro rfl
    cases s.files.names_inj _ _ _ hf hl.named

/-- An ingest that ends, and with it the file at its staging path or its name. -/
theorem finish (hi : s.ingests task = some ingest) {gone : Ingest} {committed : Bool}
    (hp : gone.stagingPath = ingest.stagingPath) {verified : String → Option Bytes}
    (hc : files.content = s.files.content)
    (hn : ∀ name, name ≠ ingest.stagingPath →
      files.names (.staging name) = s.files.names (.staging name))
    (ha : Store.Addressed sha256 { s with files := files, verified := verified }) :
    (dropIngest { s with files := files, verified := verified } task gone committed).Sound
      sha256 := by
  refine h.of_update rfl (fun _ hv => by cases hv) (fun other ingest' hne ho => ?_)
    (ha.of_content (fun _ => names_dropIngest nofun) (fun _ _ _ => by rw [content_dropIngest]) rfl)
  obtain ⟨hnm, hh, hcl⟩ := h.live other ingest' ho
  have hot : ingest'.stagingPath ≠ ingest.stagingPath :=
    fun heq => hne (h.alone _ _ _ _ ho hi heq)
  refine ⟨?_, ?_, fun hr => ?_⟩
  · rw [names_dropIngest fun heq => hot ((Path.staging.inj heq).trans hp), hn _ hot]
    exact hnm
  · rw [content_dropIngest, hc]
    exact hh
  · have hm := hcl hr
    rw [dropIngest]
    dsimp only
    by_cases hs : ingest'.process = gone.process
    · rw [hs, update_self, ← hs]
      exact mem_filter.2 ⟨hm, decide_eq_true (hp ▸ hot)⟩
    · rw [update_of_ne hs]
      exact hm

/-- The end of an ingest that commits nothing. -/
theorem dropIngest (hi : s.ingests task = some ingest) {gone : Ingest}
    (hp : gone.stagingPath = ingest.stagingPath) :
    (s.dropIngest task gone committed).Sound sha256 :=
  h.finish hi hp rfl (fun _ _ => rfl) h.addressed

/-- The rename: what was verified is the content of the file. -/
theorem commit (hi : s.ingests task = some ingest) (hp : ingest.phase = .verified) :
    (s.commit task ingest).Sound sha256 := by
  have hl := h.live task ingest hi
  have hh := hl.holds
  simp only [Ingest.Holds, hp] at hh
  obtain ⟨files, hr, hc, hn⟩ := Files.exists_rename (q := .blob ingest.hash) hl.named
  unfold Store.commit
  rw [hr]
  refine h.finish hi rfl hc (fun name hne => ?_) fun hash content hrd => ?_
  · rw [hn, update_of_ne staging_ne_blob, update_of_ne fun heq => hne (Path.staging.inj heq)]
  · obtain ⟨file, hf, rfl⟩ := Option.map_eq_some_iff.1 hrd
    dsimp only at hf ⊢
    rw [hn] at hf
    rw [hc]
    by_cases heq : hash = ingest.hash
    · rw [heq, update_self] at hf
      cases hf
      rw [heq, update_self, hh.1]
      exact ⟨rfl, hh.1 ▸ hh.2⟩
    · rw [update_of_ne fun hb => heq (Path.blob.inj hb), update_of_ne staging_ne_blob.symm] at hf
      rw [update_of_ne heq]
      exact h.addressed hash _ (by rw [Files.read, hf]; rfl)

/-- A staging file that no ingest has open is opened. -/
theorem openStaging {process : ℕ} {next : Process} {hash path : String} {resumable : Bool}
    (hf : ∀ other ingest, s.ingests other = some ingest → ingest.stagingPath ≠ path)
    (hnw : resumable = false → s.files.names (.staging path) = none)
    (hnx : (s.processes process).claimedStages ⊆ next.claimedStages)
    (hcla : resumable = true → path ∈ next.claimedStages) :
    (s.openStaging task process next hash path resumable).Sound sha256 := by
  have hc : (s.openStaging task process next hash path resumable).files.content =
      s.files.content := Files.content_openFile
  refine h.of_update rfl (fun _ hv => ?_) (fun other ingest' hne ho => ?_)
    (h.addressed.of_content (fun _ => Files.names_openFile_of_ne nofun) (fun _ _ _ => by rw [hc])
      rfl)
  · cases hv
    refine ⟨⟨Files.names_openFile, ⟨rfl, ?_⟩, fun hr => ?_⟩,
      fun other ingest' _ ho => hf other ingest' ho⟩
    · cases resumable with
      | true => rfl
      | false =>
        rw [hc]
        dsimp only
        rw [Files.content_openFile_of_names (hnw rfl)]
        rfl
    · change path ∈ (update s.processes process next process).claimedStages
      rw [update_self]
      exact hcla hr
  · obtain ⟨hn, hh, hcl⟩ := h.live other ingest' ho
    refine ⟨?_, by rw [hc]; exact hh, fun hr => ?_⟩
    · refine Eq.trans (Files.names_openFile_of_ne fun heq => ?_) hn
      exact hf other ingest' ho (Path.staging.inj heq)
    · change _ ∈ (update s.processes process next ingest'.process).claimedStages
      by_cases hs : ingest'.process = process
      · rw [hs, update_self]
        exact hnx (hs ▸ hcl hr)
      · rw [update_of_ne hs]
        exact hcl hr

theorem taskStep (hi : s.ingests task = some ingest) (event : Event) :
    (taskStep sha256 s task ingest event).Sound sha256 := by
  have hl := h.live task ingest hi
  have hh := hl.holds
  have hw {data : Bytes} {phase : Phase} {verifier : Bytes} {resumeOffset : ℕ}
      (hn : Ingest.Holds sha256 { ingest with phase, verifier, resumeOffset } data) :
      (setIngest { s with files := s.files.write ingest.file data } task
        { ingest with phase, verifier, resumeOffset }).Sound sha256 := by
    refine h.advance hi rfl (fun _ hne => Files.content_write_of_ne hne) ?_
    rw [Files.content_write hl.named]
    exact hn
  unfold Content.taskStep
  cases event with
  | start => exact h
  | crash => exact h
  | collect => exact h
  | rangeNotSatisfiable id =>
    dsimp only
    split_ifs with hp
    · simp only [Ingest.Holds, hp.1] at hh
      exact hw ⟨hh.1, rfl⟩
    · exact h
  | response id isPartial =>
    dsimp only
    split_ifs with hp
    · simp only [Ingest.Holds, hp] at hh
      unfold respond
      split_ifs with ho hpr
      · rw [hl.named]
        exact h.advance hi rfl (fun _ _ => rfl) ⟨rfl, hh.2, Nat.zero_le _, hh.1⟩
      · exact hw hh.1.symm
      · have hnl := length_eq_zero_iff.1 (hh.2.trans (Nat.eq_zero_of_not_pos ho))
        refine h.advance hi rfl (fun _ _ => rfl) ?_
        change s.files.content ingest.file ++ [] = ingest.verifier
        rw [hnl, hh.1, append_nil]
    · exact h
  | readPrefix id n =>
    dsimp only
    split
    · rename_i file position hp
      simp only [Ingest.Holds, hp] at hh
      obtain ⟨rfl, hlen, hps, hv⟩ := hh
      unfold hashPrefix
      rw [← hlen, take_length]
      dsimp only
      split_ifs with hc he
      · refine h.advance hi rfl (fun _ _ => rfl) ?_
        change s.files.content ingest.file ++ [] = ingest.verifier
        rw [hv, he, take_length, append_nil]
      · exact h.dropIngest hi rfl
      · refine h.advance hi rfl (fun _ _ => rfl) ⟨rfl, rfl, ?_, ?_⟩
        · rw [length_take, length_drop]
          omega
        · change ingest.verifier ++ _ = _
          rw [hv, @List.take_add _ _ position, ← prefix_iff_eq_take.1]
          exact take_prefix _ _
    · exact h
  | frame id data =>
    dsimp only
    split_ifs with hp
    · simp only [Ingest.Holds, hp, append_nil] at hh
      exact h.advance hi rfl (fun _ _ => rfl) (congrArg (· ++ data) hh)
    · exact h
  | write id n =>
    dsimp only
    split
    · rename_i pending hp
      simp only [Ingest.Holds, hp] at hh
      refine hw ?_
      change s.files.content ingest.file ++ pending.take n ++ pending.drop n = ingest.verifier
      rw [append_assoc, take_append_drop, hh]
    · exact h
  | verify id =>
    dsimp only
    split_ifs with hp hhs
    · simp only [Ingest.Holds, hp, append_nil] at hh
      exact h.advance hi rfl (fun _ _ => rfl) ⟨hh, hh ▸ hhs⟩
    · exact h.dropIngest hi rfl
    · exact h
  | rename id =>
    dsimp only
    split_ifs with hp
    · exact h.commit hi hp
    · exact h
  | drop id => exact h.dropIngest hi rfl

/-- A new ingest has a staging file of its own. -/
theorem blobWriter {process : ℕ} {digest hash : String} (hd : stripSha256 digest = some hash)
    (hi : s.ingests task = none) (ho : Orderly s (.start task process digest)) :
    (s.blobWriter task process hash).Sound sha256 := by
  have ho := ho hash hi hd
  unfold Store.blobWriter claimStaging
  dsimp only
  split_ifs at ho ⊢ with hm
  · -- a live ingest has a name, so none has the new one
    refine h.openStaging (fun other ingest hot heq => ?_) (fun _ => ho) (List.Subset.refl _)
      nofun
    cases (heq ▸ (h.live other ingest hot).named).symm.trans ho
  · refine h.openStaging (fun other ingest hot heq => ?_) nofun (subset_cons_self _ _)
      (fun _ => mem_cons_self)
    -- a resumable ingest of the same process has claimed its file
    refine ho other ingest hot ?_ heq
    by_contra hn
    rw [not_or, not_not, Bool.not_eq_false] at hn
    have hc := (h.live other ingest hot).claimed hn.2
    exact hm (hn.1 ▸ heq ▸ hc)

end Store.Sound

theorem step_of_task (he : event.task = some task) : step sha256 s event =
    match s.ingests task with
    | none => s
    | some ingest => taskStep sha256 s task ingest event := by
  cases event <;> cases he <;> rfl

/-- **One step**: every orderly one keeps the invariant. -/
theorem sound_step (h : s.Sound sha256) (ho : Orderly s event) :
    (step sha256 s event).Sound sha256 := by
  cases ht : event.task with
  | some task =>
    rw [step_of_task ht]
    cases hi : s.ingests task with
    | none => exact h
    | some ingest => exact h.taskStep hi event
  | none =>
    cases event with
    | start task process digest =>
      unfold step
      dsimp only
      split
      · rename_i hash hi hd
        exact h.blobWriter hd hi ho
      · exact h
    | crash process =>
      have hs {task : ℕ} {ingest : Ingest}
          (hi : (s.ingests task).filter (·.process ≠ process) = some ingest) :
          s.ingests task = some ingest ∧ ingest.process ≠ process := by
        simpa using hi
      refine ⟨fun task ingest hi => ?_, fun task other ingest ingest' hi hi' => ?_, h.addressed⟩
      · obtain ⟨hi, hne⟩ := hs hi
        obtain ⟨hn, hh, hc⟩ := h.live task ingest hi
        refine ⟨hn, hh, fun hr => ?_⟩
        change _ ∈ (update s.processes process ⟨[], 0⟩ ingest.process).claimedStages
        rw [update_of_ne hne]
        exact hc hr
      · exact h.alone task other ingest ingest' (hs hi).1 (hs hi').1
    | collect name =>
      refine ⟨fun task ingest hi => ?_, h.alone, ?_⟩
      · obtain ⟨hn, hh, hc⟩ := h.live task ingest hi
        refine ⟨Eq.trans (update_of_ne (fun heq => ?_) _ _) hn, hh, hc⟩
        exact ho task ingest hi (Path.staging.inj heq)
      · exact h.addressed.of_content (fun _ => update_of_ne (@staging_ne_blob name _).symm none _)
          (fun _ _ _ => rfl) rfl
    | _ => cases ht

/-- **Content addressing**: while processes keep out of each other's way, at any time and after any
crashes, the files of the store have just the bytes that were verified for them. -/
theorem addressed_of_orderly (sha256 : Bytes → String) (events : List Event)
    (h : Along (step sha256) Orderly .empty events) (done : List Event) (hd : done <+: events) :
    (runFrom (step sha256) .empty done).Addressed sha256 := by
  obtain ⟨rest, rfl⟩ := hd
  exact (runFrom_invariant (Store.Sound sha256) (fun _ _ => sound_step) sound_empty
    h.of_append).addressed

theorem stripSha256_append (hash : String) : stripSha256 ("sha256:" ++ hash) = some hash := by
  have hl : ("sha256:" ++ hash).toList = sha256Prefix ++ hash.toList := by
    rw [String.toList_append]
    rfl
  have hp : sha256Prefix.isPrefixOf (sha256Prefix ++ hash.toList) = true :=
    isPrefixOf_iff_prefix.2 (prefix_append _ _)
  rw [stripSha256, hl, if_pos hp, drop_left, String.ofList_toList]

/-- A download that is resumed after a crash, while a second task of the process has the same
blob. -/
def resumedDownload : List Event :=
  [.start 0 0 "sha256:a", .response 0 false, .frame 0 [1, 2], .write 0 1, .crash 0,
    .start 0 0 "sha256:a", .response 0 true, .start 1 0 "sha256:a", .readPrefix 0 4,
    .readPrefix 0 4, .frame 0 [2], .write 0 1, .verify 0, .rename 0]

/-- It is committed as a whole. -/
theorem addressed_of_orderly_resumed :
    (runFrom (step fun _ => "a") .empty resumedDownload).files.read (.blob "a") = some [1, 2] ∧
      (runFrom (step fun _ => "a") .empty resumedDownload).Addressed fun _ => "a" := by
  refine ⟨by decide, addressed_of_orderly _ resumedDownload ?_ _ (prefix_refl _)⟩
  have hd : stripSha256 "sha256:a" = some "a" := stripSha256_append "a"
  refine ⟨fun hash _ h => ?_, trivial, trivial, trivial, trivial, fun hash _ h => ?_, trivial,
    fun hash _ h => ?_, trivial, trivial, trivial, trivial, trivial, trivial, trivial⟩
  · exact (if_neg (not_mem_nil)).mpr nofun
  · cases hd.symm.trans h
    refine (if_neg (by decide)).mpr fun other ingest hi => ?_
    rcases other with _ | _ <;> cases hi
  · cases hd.symm.trans h
    exact (if_pos (by decide)).mpr (by decide)

/-- Two processes download the same blob of one byte. -/
def sharedDownload (sha256 : Bytes → String) : List Event :=
  [.start 0 0 ("sha256:" ++ sha256 [1]), .start 1 1 ("sha256:" ++ sha256 [1]), .response 0 false,
    .response 1 false, .frame 0 [1], .frame 1 [1], .write 0 1, .write 1 1, .verify 0]

/-- The staging file has the byte twice when the first one has verified its download. -/
theorem sharedDownload_spec : (runFrom (step sha256) .empty (sharedDownload sha256)).ingests 0 =
      some ⟨0, sha256 [1], sha256 [1] ++ ".part", 0, true, 0, [1], .verified⟩ ∧
    (runFrom (step sha256) .empty (sharedDownload sha256)).files.names
      (.staging (sha256 [1] ++ ".part")) = some 0 ∧
    (runFrom (step sha256) .empty (sharedDownload sha256)).files.content 0 = [1, 1] := by
  simp [sharedDownload, step, stripSha256_append, Store.empty, Event.task, taskStep,
    Store.blobWriter, claimStaging, Store.openStaging, Files.openFile, Files.empty,
    Store.setIngest, Store.respond, Files.write]

/-- Then it is committed, and is not what was verified. -/
theorem shared_download_unaddressed : ∃ events : (Bytes → String) → List Event,
    ∀ sha256, (runFrom (step sha256) .empty (events sha256)).files.read (.blob (sha256 [1])) =
      some [1, 1] ∧ ¬(runFrom (step sha256) .empty (events sha256)).Addressed sha256 := by
  refine ⟨fun sha256 => sharedDownload sha256 ++ [.rename 0], fun sha256 => ?_⟩
  obtain ⟨hi, hnm, hcn⟩ := @sharedDownload_spec sha256
  rw [runFrom_append]
  generalize runFrom (step sha256) .empty (sharedDownload sha256) = s at hi hnm hcn
  obtain ⟨files, hr, hc, hn⟩ := Files.exists_rename (q := .blob (sha256 [1])) hnm
  have hstep : runFrom (step sha256) s [.rename 0] = Store.dropIngest { s with
      files := files
      verified := update s.verified (sha256 [1]) (some [1]) } 0
        ⟨0, sha256 [1], sha256 [1] ++ ".part", 0, true, 0, [1], .verified⟩ true := by
    rw [runFrom_cons, @step_of_task sha256 s (.rename 0) 0 rfl, hi]
    change s.commit _ _ = _
    unfold Store.commit
    rw [hr]
  have hb : (runFrom (step sha256) s [.rename 0]).files.read (.blob (sha256 [1])) =
      some [1, 1] := by
    rw [hstep, Files.read, names_dropIngest staging_ne_blob.symm, content_dropIngest, hc, hn,
      update_self, Option.map_some, hcn]
  refine ⟨hb, fun ha => ?_⟩
  have hv := (ha _ _ hb).1
  rw [hstep] at hv
  change update s.verified (sha256 [1]) (some [1]) (sha256 [1]) = _ at hv
  rw [update_self] at hv
  exact absurd (Option.some.inj hv) (by decide)

end Muak.Koci.Content
