import Muak.Auth.Enrollment

/-!
# Failed approvals

`approve_csr` of `services/provisiond/src/ipc/auth.rs` once more, with everything that the operating
system may refuse: the certificate is signed and staged before the permissions are looked at and the
authorization state is written.

* `approveCsrWith_none`: without failures this is `approveCsr`.
* `atomic_iff`: when an approval that fails changes nothing.
* `failed_approval_handed_out`: the client fetches its certificate after the approval failed.
-/

namespace Muak.Auth

/-- Which operations of an approval fail, and their errors. -/
structure Faults where
  /-- Reading the request. -/
  read : Option String
  /-- The task that signs. -/
  task : Option String
  /-- Creating the directory of the staged certificates. -/
  createDir : Option String
  /-- Opening the file of the certificate. -/
  openCert : Option String
  /-- Writing it, after some characters. -/
  writeCert : Option (ℕ × String)
  /-- The text form of the authorization state. -/
  serialize : Option String
  writeAuth : Option String
  /-- Removing the request; this error is ignored. -/
  removePending : Bool

def Faults.none : Faults := ⟨.none, .none, .none, .none, .none, .none, .none, false⟩

/-- What the file of the certificate has in it then. -/
def Faults.written (faults : Faults) (certPem : String) : String :=
  match faults.writeCert with
  | some (n, _) => String.ofList (certPem.toList.take n)
  | .none => certPem

namespace Service

variable {κ δ : Type} (env : Env κ δ)

section

variable (s : Service κ δ) (faults : Faults)

/-- The request and the certificate that is signed for it. -/
def signWith (fingerprint : String) (seed : ℕ) : Except Status (String × δ) :=
  if s.hasFile env (pendingCsrPath fingerprint) = false then .error ⟨.notFound, "CSR not found"⟩
  else
    match faults.read, s.readToString env (pendingCsrPath fingerprint) with
    | some e, _ => .error ⟨.internal, "Failed to read CSR: " ++ e⟩
    | _, .error e => .error ⟨.internal, "Failed to read CSR: " ++ e⟩
    | .none, .ok csrPem =>
      match faults.task, s.signPendingCsr env csrPem seed with
      | some e, _ => .error ⟨.internal, "Task failed: " ++ e⟩
      | _, .error e => .error ⟨.internal, "Failed to sign CSR: " ++ e⟩
      | .none, .ok cert => .ok (csrPem, cert)

/-- The file that the certificate is written to. -/
def openStagingCert (fingerprint : String) : Except String String :=
  match faults.createDir, env.resolve (stagingCertPath fingerprint) with
  | some e, _ => .error e
  | _, .error e => .error e
  | .none, .ok file =>
    if env.isDir file then .error "Is a directory (os error 21)"
    else
      match faults.openCert with
      | some e => .error e
      | .none => .ok file

/-- Opening the file empties it, so that it has a part of the certificate when writing fails. -/
def storeStagingCert (fingerprint certPem : String) : Service κ δ × Except String Unit :=
  match openStagingCert env faults fingerprint with
  | .error e => (s, .error e)
  | .ok file =>
    ({ s with files := s.files.insert file (faults.written certPem) },
      match faults.writeCert with
      | some (_, e) => .error e
      | .none => .ok ())

/-- The state is written as a whole or not at all. -/
def addUserWith (fingerprint : String) (permissions : List Permission) (now : ℕ) :
    Service κ δ × Except String Unit :=
  match faults.serialize, faults.writeAuth with
  | some e, _ => ({ s with host := (s.host.tryCurrent env.codec).1 }, .error e)
  | .none, some e => ({ s with host := (s.host.tryCurrent env.codec).1 }, .error e)
  | .none, .none =>
    ({ s with host := s.host.addUserToAuth env.codec fingerprint permissions now }, .ok ())

/-- What is done after the certificate was signed. -/
def grantWith (fingerprint : String) (permissions : List String) (now : ℕ) (cert : δ) :
    Service κ δ × Except Status String :=
  let certPem := env.pki.encodeCert cert
  let stored := s.storeStagingCert env faults fingerprint certPem
  match stored.2 with
  | .error e => (stored.1, .error ⟨.internal, "Failed to store certificate: " ++ e⟩)
  | .ok () =>
    match expandAll permissions with
    | .error e => (stored.1, .error ⟨.invalidArgument, e⟩)
    | .ok permissions =>
      let added := stored.1.addUserWith env faults (env.pki.sha256 cert) permissions now
      match added.2 with
      | .error e => (added.1, .error ⟨.internal, "Failed to update auth config: " ++ e⟩)
      | .ok () =>
        (if faults.removePending then added.1
          else added.1.removeFile env (pendingCsrPath fingerprint), .ok certPem)

/-- `approve_csr`. -/
def approveCsrWith (fingerprint : String) (permissions : List String) (seed now : ℕ) :
    Service κ δ × Except Status String :=
  match s.signWith env faults fingerprint seed with
  | .error status => (s, .error status)
  | .ok signed =>
    let s : Service κ δ := { s with issued := s.issued ++ [⟨signed.1, signed.2⟩] }
    s.grantWith env faults fingerprint permissions now signed.2

end

/-! ## Without failures -/

variable {env} {s : Service κ δ} {faults : Faults} {fingerprint : String}
  {permissions : List String} {seed now : ℕ}

theorem hasFile_eq {path : String}
    (h : ∀ file, env.resolve path = .ok file → env.isDir file = false) :
    s.hasFile env path = (s.readToString env path).isOk := by
  unfold hasFile readToString
  cases hr : env.resolve path with
  | error e => rfl
  | ok file =>
    dsimp only
    rw [ok_bind, h file hr]
    cases s.files.get? file <;> rfl

theorem approveCsrWith_none (h : ∀ file, env.resolve (pendingCsrPath fingerprint) = .ok file →
      env.isDir file = false) :
    s.approveCsrWith env .none fingerprint permissions seed now =
      s.approveCsr env fingerprint permissions seed now := by
  unfold approveCsrWith approveCsr signWith
  rw [hasFile_eq h]
  cases s.readToString env (pendingCsrPath fingerprint) with
  | error e => rfl
  | ok csrPem =>
    simp only [Except.toBool, Faults.none]
    cases s.signPendingCsr env csrPem seed with
    | error e => rfl
    | ok cert =>
      simp only [grantWith, storeStagingCert, openStagingCert, writeFile]
      cases env.resolve (stagingCertPath fingerprint) with
      | error e => rfl
      | ok file =>
        cases hd : env.isDir file with
        | true => simp [hd]
        | false =>
          simp only [hd, ok_bind]
          cases expandAll permissions <;> rfl

/-! ## Atomicity -/

/-- All files and the authorization state are the same. -/
structure Unchanged (s t : Service κ δ) : Prop where
  files : ∀ path, t.files.get? path = s.files.get? path
  auth : t.host.file = s.host.file

/-- If the approval fails, nothing has changed. -/
def Atomic (env : Env κ δ) (s : Service κ δ) (faults : Faults) (fingerprint : String)
    (permissions : List String) (seed now : ℕ) : Prop :=
  ∀ status, (s.approveCsrWith env faults fingerprint permissions seed now).2 = .error status →
    Unchanged s (s.approveCsrWith env faults fingerprint permissions seed now).1

/-- A certificate is signed, and the file for it can be opened. -/
def Stages (env : Env κ δ) (s : Service κ δ) (faults : Faults) (fingerprint : String) (seed : ℕ)
    (cert : δ) (file : String) : Prop :=
  (∃ csrPem, s.signWith env faults fingerprint seed = .ok (csrPem, cert)) ∧
    openStagingCert env faults fingerprint = .ok file

/-- Nothing of what comes afterwards fails. -/
structure Completes (faults : Faults) (permissions : List String) : Prop where
  written : faults.writeCert = .none
  valid : ∀ pattern ∈ permissions, ∃ granted, Permission.expandPattern pattern = .ok granted
  serialized : faults.serialize = .none
  saved : faults.writeAuth = .none

theorem foldlM_expandPattern_isOk (patterns : List String) (start : List Permission) :
    (∃ granted, patterns.foldlM (fun permissions pattern => do
        let expanded ← Permission.expandPattern pattern
        .ok (permissions ++ expanded)) start = Except.ok (ε := String) granted) ↔
      ∀ pattern ∈ patterns, ∃ granted, Permission.expandPattern pattern = .ok granted := by
  induction patterns generalizing start with
  | nil => exact ⟨fun _ => nofun, fun _ => ⟨start, rfl⟩⟩
  | cons pattern patterns ih =>
    rw [List.forall_mem_cons, List.foldlM_cons]
    cases Permission.expandPattern pattern with
    | error e => exact ⟨fun ⟨_, h⟩ => (nomatch h), fun ⟨⟨_, h⟩, _⟩ => (nomatch h)⟩
    | ok expanded =>
      rw [ok_bind, ok_bind, ih]
      exact ⟨fun h => ⟨⟨expanded, rfl⟩, h⟩, fun h => h.2⟩

theorem expandAll_isOk : (∃ granted, expandAll permissions = .ok granted) ↔
    ∀ pattern ∈ permissions, ∃ granted, Permission.expandPattern pattern = .ok granted :=
  foldlM_expandPattern_isOk permissions []

theorem tryCurrent_file (codec : Codec κ) (host : Host κ) :
    (host.tryCurrent codec).1.file = host.file := by
  unfold Host.tryCurrent
  split
  · rfl
  · split_ifs <;> rfl

/-- Where something fails after the certificate was staged, it stays there. -/
theorem grantWith_of_not_completes (s : Service κ δ) (now : ℕ) (cert : δ) {file : String}
    (ho : openStagingCert env faults fingerprint = .ok file)
    (h : ¬Completes faults permissions) :
    ∃ status, (s.grantWith env faults fingerprint permissions now cert).2 = .error status ∧
      (s.grantWith env faults fingerprint permissions now cert).1.files =
        s.files.insert file (faults.written (env.pki.encodeCert cert)) ∧
      (s.grantWith env faults fingerprint permissions now cert).1.host.file = s.host.file := by
  unfold grantWith storeStagingCert
  rw [ho]
  cases hw : faults.writeCert with
  | some fault => exact ⟨_, rfl, rfl, rfl⟩
  | none =>
    cases he : expandAll permissions with
    | error e => exact ⟨_, rfl, rfl, rfl⟩
    | ok granted =>
      unfold addUserWith
      cases hs : faults.serialize with
      | some e => exact ⟨_, rfl, rfl, tryCurrent_file ..⟩
      | none =>
        cases ha : faults.writeAuth with
        | some e => exact ⟨_, rfl, rfl, tryCurrent_file ..⟩
        | none => exact absurd ⟨hw, expandAll_isOk.1 ⟨granted, he⟩, hs, ha⟩ h

theorem grantWith_of_completes {cert : δ} {file : String}
    (ho : openStagingCert env faults fingerprint = .ok file) (h : Completes faults permissions) :
    (s.grantWith env faults fingerprint permissions now cert).2 =
      .ok (env.pki.encodeCert cert) := by
  obtain ⟨granted, hg⟩ := expandAll_isOk.2 h.valid
  unfold grantWith storeStagingCert
  rw [ho]
  rw [h.written]
  rw [hg]
  unfold addUserWith
  rw [h.serialized, h.saved]

end Service

open Service in
/-- **Atomicity.** An approval that fails changes nothing exactly if nothing fails once a
certificate is staged, or the very same text was staged already. -/
theorem atomic_iff {κ δ : Type} (env : Env κ δ) (s : Service κ δ) (faults : Faults)
    (fingerprint : String) (permissions : List String) (seed now : ℕ) :
    Atomic env s faults fingerprint permissions seed now ↔
      ∀ cert file, Stages env s faults fingerprint seed cert file → Completes faults permissions ∨
          s.files.get? file = some (faults.written (env.pki.encodeCert cert)) := by
  unfold Atomic Stages approveCsrWith
  cases hsign : s.signWith env faults fingerprint seed with
  | error status =>
    exact ⟨fun _ cert file hstages => (nomatch hstages.1), fun _ _ _ => ⟨fun _ => rfl, rfl⟩⟩
  | ok signed =>
    dsimp only
    cases hopen : openStagingCert env faults fingerprint with
    | error e =>
      refine ⟨fun _ cert file hstages => (nomatch hstages.2), fun _ status _ => ?_⟩
      unfold grantWith storeStagingCert
      rw [hopen]
      exact ⟨fun _ => rfl, rfl⟩
    | ok file =>
      by_cases hcompletes : Completes faults permissions
      · refine ⟨fun _ _ _ _ => .inl hcompletes, fun _ status hstatus => ?_⟩
        rw [grantWith_of_completes hopen hcompletes] at hstatus
        cases hstatus
      · obtain ⟨status, hstatus, hfiles, hhost⟩ := grantWith_of_not_completes
          { s with issued := s.issued ++ [⟨signed.1, signed.2⟩] } now signed.2 hopen hcompletes
        constructor
        · rintro hatomic cert other ⟨⟨csrPem, hsigned⟩, hother⟩
          cases hsigned
          cases hother
          have hfile := (hatomic status hstatus).files file
          rw [hfiles, Dict.get?_insert, if_pos rfl] at hfile
          exact .inr hfile.symm
        · intro hall _ _
          refine ⟨fun path => ?_, hhost⟩
          rw [hfiles, Dict.get?_insert]
          split_ifs with hpath
          · rw [hpath]
            exact ((hall signed.2 file ⟨⟨signed.1, rfl⟩, rfl⟩).resolve_left hcompletes).symm
          · rfl

open Service in
/-- The request `r` is approved with a permission that does not exist: the approval fails, and the
client is given a certificate. -/
theorem failed_approval_handed_out :
    let submitted := (installed.submitCsr namedEnv "r").1
    let failed := submitted.approveCsrWith namedEnv .none "Kr" ["vm:reed"] 0 0
    (failed.2 = .error ⟨.invalidArgument, "Unknown permission: vm:reed"⟩ ∧
      (submitted.getCsrStatus namedEnv "Kr").2 = bare .pending ∧
      (failed.1.getCsrStatus namedEnv "Kr").2 = ⟨.approved, "Cr", "ca", "node"⟩) ∧
    ¬Atomic namedEnv submitted .none "Kr" ["vm:reed"] 0 0 := by
  intro submitted failed
  refine ⟨⟨rfl, by decide, by decide⟩, fun hatomic => ?_⟩
  have hfile := (hatomic _ rfl).files (stagingCertPath "Kr")
  revert hfile
  decide

end Muak.Auth
