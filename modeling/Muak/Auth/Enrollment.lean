import Muak.Auth.Cache
import Muak.Foundations.Dict
import Muak.Foundations.Path
import Mathlib.Logic.Function.Basic

/-!
# Enrollment

`services/provisiond/src/ipc/auth.rs`: a client submits a request for a certificate (a CSR), an
administrator approves it, the client fetches the certificate and acknowledges it, and the
administrator may revoke it. Pending requests and staged certificates are files under the name of
the fingerprint of the public key in the request; users and revoked certificates are kept in the
authorization state under the fingerprint of the certificate.

* `submitCsr_refused_iff`, `getCsrStatus_rejected_iff`: what the handlers look up.
* `enrollment_iff`: as they look up the fingerprint of the key, a second request is refused, and the
  certificate withheld, only if the fingerprint of the key itself is listed. In no run does an
  approval list it, and only an explicit request with it revokes it.
* `revoked_certificate_handed_out`: the certificate of a revoked client is still answered.

Parameters are the cryptography (`Pki`), the text format of the state and the resolution of paths by
the operating system. Files that exist can be read, and resolved paths that are no directories can
be written.
-/

namespace Muak.Auth

open Muak.Path (join)

/-! ## The environment -/

/-- The cryptography: keys and certificates in their binary form are of the type `δ`. -/
structure Pki (δ : Type) where
  /-- The public key of a request, unless the request cannot be parsed. -/
  publicKey : String → Except String δ
  /-- A certificate for a request, from the key and the certificate of the authority; the seed
  stands for the serial number and the time. -/
  sign : (csrPem caKeyPem caCertPem : String) → (seed : ℕ) → Except String δ
  encodeCert : δ → String
  /-- The digest in hexadecimal digits. -/
  sha256 : δ → String
  sha256_injective : Function.Injective sha256
  /-- The encoding of a certificate is not that of a public key. -/
  cert_ne_key : ∀ {csrPem caKeyPem caCertPem seed cert other key},
    sign csrPem caKeyPem caCertPem seed = .ok cert → publicKey other = .ok key → cert ≠ key

/-- What the service depends on. -/
structure Env (κ δ : Type) where
  codec : Codec κ
  pki : Pki δ
  /-- The file that a path stands for, or an error. -/
  resolve : String → Except String String
  /-- Whether a resolved path is a directory. -/
  isDir : String → Bool
  serverName : String

/-- A certificate and the request it was issued for. -/
structure Issued (δ : Type) where
  csrPem : String
  cert : δ

/-- The state of the service; `issued` is a log. -/
structure Service (κ δ : Type) where
  host : Host κ
  files : Dict String String
  issued : List (Issued δ)

/-- The codes of the errors it answers with. -/
inductive Code
  | invalidArgument
  | alreadyExists
  | notFound
  | internal
  deriving DecidableEq

/-- The error of a request. -/
structure Status where
  code : Code
  message : String
  deriving DecidableEq

/-- What has become of a request. -/
inductive CsrStatus
  | pending
  | approved
  | rejected
  | notFound
  deriving DecidableEq

/-- The answer to a question for the status. -/
structure CsrStatusResponse where
  status : CsrStatus
  certPem : String
  caPem : String
  serverName : String
  deriving DecidableEq

/-! ## Files -/

def secretsDir : String := "/run/state/secrets"

def pendingCsrPath (fingerprint : String) : String :=
  join (join secretsDir "pending") (fingerprint ++ ".pem")

def stagingCertPath (fingerprint : String) : String :=
  join (join secretsDir "staging") (fingerprint ++ ".crt")

def caCertPath : String := join secretsDir "ca.crt"

def caKeyPath : String := join secretsDir "ca.key"

namespace Service

variable {κ δ : Type} (env : Env κ δ) (s : Service κ δ)

/-- `fs::read_to_string`. -/
def readToString (path : String) : Except String String := do
  let file ← env.resolve path
  okOr (s.files.get? file) "No such file or directory (os error 2)"

/-- `Path::exists`, which holds of directories as well. -/
def hasFile (path : String) : Bool :=
  match env.resolve path with
  | .ok file => env.isDir file || (s.files.get? file).isSome
  | .error _ => false

/-- `fs::write`. -/
def writeFile (path contents : String) : Except String (Service κ δ) := do
  let file ← env.resolve path
  if env.isDir file then .error "Is a directory (os error 21)"
  else .ok { s with files := s.files.insert file contents }

/-- Removing a directory fails, and no file has its name. -/
def removeFile (path : String) : Service κ δ :=
  match env.resolve path with
  | .ok file => { s with files := s.files.erase file }
  | .error _ => s

/-! ## The handlers -/

/-- A user with this fingerprint is in the state. -/
def isUserAuthorized (fingerprint : String) : Service κ δ × Bool :=
  let (host, current) := s.host.tryCurrent env.codec
  ({ s with host }, current.any fun auth => auth.users.any (·.fingerprint = fingerprint))

def alreadyAuthorized : Status :=
  ⟨.alreadyExists, "A certificate with this fingerprint is already authorized"⟩

/-- A new request is kept until it is approved. -/
def submitCsr (csrPem : String) : Service κ δ × Except Status String :=
  match env.pki.publicKey csrPem with
  | .error e => (s, .error ⟨.invalidArgument, "Invalid CSR: " ++ e⟩)
  | .ok key =>
    let fingerprint := env.pki.sha256 key
    let (s, authorized) := s.isUserAuthorized env fingerprint
    if authorized then (s, .error alreadyAuthorized)
    else if s.hasFile env (pendingCsrPath fingerprint) then (s, .ok fingerprint)
    else
      match s.writeFile env (pendingCsrPath fingerprint) csrPem with
      | .error e => (s, .error ⟨.internal, "Failed to store CSR: " ++ e⟩)
      | .ok s => (s, .ok fingerprint)

/-- The certificate of the authority and the staged one. -/
def loadStagingCert (fingerprint : String) : Except String (String × String) := do
  let caPem ← s.readToString env caCertPath
  let certPem ← s.readToString env (stagingCertPath fingerprint)
  .ok (caPem, certPem)

/-- A response without a certificate. -/
def bare (status : CsrStatus) : CsrStatusResponse := ⟨status, "", "", ""⟩

/-- The answer according to the files. -/
def stagedStatus (fingerprint : String) : CsrStatusResponse :=
  match s.loadStagingCert env fingerprint with
  | .ok (caPem, certPem) => ⟨.approved, certPem, caPem, env.serverName⟩
  | .error _ => if s.hasFile env (pendingCsrPath fingerprint) then bare .pending else bare .notFound

/-- A revoked fingerprint is rejected, else the files decide. -/
def getCsrStatus (fingerprint : String) : Service κ δ × CsrStatusResponse :=
  let (host, current) := s.host.tryCurrent env.codec
  let s := { s with host }
  if current.any fun auth => fingerprint ∈ auth.revoked then (s, bare .rejected)
  else (s, s.stagedStatus env fingerprint)

/-- A certificate for the request, from the authority. -/
def signPendingCsr (csrPem : String) (seed : ℕ) : Except String δ := do
  let caKeyPem ← (s.readToString env caKeyPath).mapError ("CA key not found: " ++ ·)
  let caCertPem ← (s.readToString env caCertPath).mapError ("CA cert not found: " ++ ·)
  env.pki.sign csrPem caKeyPem caCertPem seed

/-- The permissions that all patterns stand for, unless one of them is not valid. -/
def expandAll (patterns : List String) : Except String (List Permission) :=
  patterns.foldlM (fun permissions pattern => do
    let expanded ← Permission.expandPattern pattern
    .ok (permissions ++ expanded)) []

/-- The request is signed, the certificate staged and the user added. -/
def approveCsr (fingerprint : String) (permissions : List String) (seed now : ℕ) :
    Service κ δ × Except Status String :=
  match s.readToString env (pendingCsrPath fingerprint) with
  | .error _ => (s, .error ⟨.notFound, "CSR not found"⟩)
  | .ok csrPem =>
    match s.signPendingCsr env csrPem seed with
    | .error e => (s, .error ⟨.internal, "Failed to sign CSR: " ++ e⟩)
    | .ok cert =>
      let s : Service κ δ := { s with issued := s.issued ++ [⟨csrPem, cert⟩] }
      let certPem := env.pki.encodeCert cert
      match s.writeFile env (stagingCertPath fingerprint) certPem with
      | .error e => (s, .error ⟨.internal, "Failed to store certificate: " ++ e⟩)
      | .ok s =>
        match expandAll permissions with
        -- the certificate stays where the client can fetch it
        | .error e => (s, .error ⟨.invalidArgument, e⟩)
        | .ok permissions =>
          let host := s.host.addUserToAuth env.codec (env.pki.sha256 cert) permissions now
          ({ s with host }.removeFile env (pendingCsrPath fingerprint), .ok certPem)

def revokeCert (fingerprint : String) (now : ℕ) : Service κ δ :=
  { s with host := s.host.revokeUser env.codec fingerprint now }

/-- The staged certificate is removed. -/
def ackEnrollment (fingerprint : String) : Service κ δ :=
  if s.hasFile env (stagingCertPath fingerprint) then s.removeFile env (stagingCertPath fingerprint)
  else s

end Service

/-- A request, with the time and the seed that its handler takes. -/
inductive Request
  | submitCsr (csrPem : String)
  | approveCsr (fingerprint : String) (permissions : List String) (seed now : ℕ)
  | revokeCert (fingerprint : String) (now : ℕ)
  | ackEnrollment (fingerprint : String)
  | getCsrStatus (fingerprint : String)

/-- The state after a request. -/
def Service.step {κ δ : Type} (env : Env κ δ) (s : Service κ δ) : Request → Service κ δ
  | .submitCsr csrPem => (s.submitCsr env csrPem).1
  | .approveCsr fingerprint permissions seed now =>
    (s.approveCsr env fingerprint permissions seed now).1
  | .revokeCert fingerprint now => s.revokeCert env fingerprint now
  | .ackEnrollment fingerprint => s.ackEnrollment env fingerprint
  | .getCsrStatus fingerprint => (s.getCsrStatus env fingerprint).1

/-! ## What the handlers look up -/

namespace Service

variable {κ δ : Type} {env : Env κ δ} {s : Service κ δ} {fingerprint : String} {csrPem : String}

/-- A handler that looks something up in the current state finds nothing if there is none. -/
theorem any_current (codec : Codec κ) (host : Host κ) (p : State → Bool)
    (hp : p State.default = false) : (host.tryCurrent codec).2.any p = p (host.view codec) := by
  rw [Host.view]
  cases (host.tryCurrent codec).2 with
  | none => exact hp.symm
  | some auth => rfl

theorem isUserAuthorized_iff : (s.isUserAuthorized env fingerprint).2 = true ↔
      ∃ u ∈ (s.host.view env.codec).users, u.fingerprint = fingerprint := by
  have ha := any_current env.codec s.host
    (fun auth => auth.users.any (·.fingerprint = fingerprint)) rfl
  simp [isUserAuthorized, ha]

/-- **When a request is refused as existing**: when its key's own fingerprint is that of a user. -/
theorem submitCsr_refused_iff {key : δ} (hk : env.pki.publicKey csrPem = .ok key) :
    (s.submitCsr env csrPem).2 = .error alreadyAuthorized ↔
      ∃ u ∈ (s.host.view env.codec).users, u.fingerprint = env.pki.sha256 key := by
  rw [← isUserAuthorized_iff]
  simp only [submitCsr, hk]
  split_ifs with ha hp
  · exact ⟨fun _ => ha, fun _ => rfl⟩
  · simp [ha]
  · split <;> simp [ha, alreadyAuthorized]

theorem stagedStatus_ne_rejected (s : Service κ δ) (fingerprint : String) :
    s.stagedStatus env fingerprint ≠ bare .rejected := by
  unfold stagedStatus
  split
  · simp [bare]
  · split <;> simp [bare]

/-- **When a request counts as rejected**: when the fingerprint asked for is revoked itself. -/
theorem getCsrStatus_rejected_iff : (s.getCsrStatus env fingerprint).2 = bare .rejected ↔
      fingerprint ∈ (s.host.view env.codec).revoked := by
  have ha := any_current env.codec s.host (fun auth => fingerprint ∈ auth.revoked) rfl
  simp only [getCsrStatus, ha, decide_eq_true_eq]
  split_ifs with h
  · exact ⟨fun _ => h, fun _ => rfl⟩
  · exact ⟨fun heq => absurd heq (stagedStatus_ne_rejected _ _), fun heq => absurd heq h⟩

/-! ## What a request does to the authorization state -/

@[simp] theorem removeFile_host (s : Service κ δ) (path : String) :
    (s.removeFile env path).host = s.host := by
  unfold removeFile
  split <;> rfl

theorem writeFile_host {path contents : String} {s' : Service κ δ}
    (h : s.writeFile env path contents = .ok s') : s'.host = s.host := by
  obtain ⟨file, -, hf⟩ := of_bind h
  split_ifs at hf with hd
  cases hf
  rfl

/-- A certificate that the authority may have issued. -/
def Signed (env : Env κ δ) (cert : δ) : Prop :=
  ∃ csrPem caKeyPem caCertPem seed, env.pki.sign csrPem caKeyPem caCertPem seed = .ok cert

theorem signed_of_signPendingCsr {seed : ℕ} {cert : δ}
    (h : s.signPendingCsr env csrPem seed = .ok cert) : Signed env cert := by
  obtain ⟨caKeyPem, -, h⟩ := of_bind h
  obtain ⟨caCertPem, -, h⟩ := of_bind h
  exact ⟨csrPem, caKeyPem, caCertPem, seed, h⟩

theorem submitCsr_host (env : Env κ δ) (s : Service κ δ) (csrPem : String) :
    (s.submitCsr env csrPem).1.host = s.host ∨
      (s.submitCsr env csrPem).1.host = (s.host.tryCurrent env.codec).1 := by
  unfold submitCsr
  split
  · exact .inl rfl
  · refine .inr ?_
    simp only
    split_ifs
    · rfl
    · rfl
    · split
      · rfl
      · rename_i hw
        exact writeFile_host hw

theorem approveCsr_host (env : Env κ δ) (s : Service κ δ) (fingerprint : String)
    (permissions : List String) (seed now : ℕ) :
    (s.approveCsr env fingerprint permissions seed now).1.host = s.host ∨
      ∃ cert granted, Signed env cert ∧ (s.approveCsr env fingerprint permissions seed now).1.host =
          (Timed.mk (.add (env.pki.sha256 cert) granted) now).step env.codec s.host := by
  unfold approveCsr
  split
  · exact .inl rfl
  · split
    · exact .inl rfl
    · rename_i cert hc
      simp only
      split
      · exact .inl rfl
      · rename_i hw
        have hh := writeFile_host hw
        split
        · exact .inl hh
        · rename_i granted _
          refine .inr ⟨cert, granted, signed_of_signPendingCsr hc, ?_⟩
          rw [removeFile_host, hh]
          rfl

/-- **What a request does to the state**: nothing beyond reloading the cache, or it adds a user with
the fingerprint of a certificate, or it revokes what it was asked to revoke. -/
theorem step_host (env : Env κ δ) (s : Service κ δ) (request : Request) :
    (s.step env request).host = s.host ∨
    (s.step env request).host = (s.host.tryCurrent env.codec).1 ∨
    (∃ cert granted now, Signed env cert ∧ (s.step env request).host =
      (Timed.mk (.add (env.pki.sha256 cert) granted) now).step env.codec s.host) ∨
    ∃ fingerprint now, request = .revokeCert fingerprint now ∧ (s.step env request).host =
      (Timed.mk (.revoke fingerprint) now).step env.codec s.host := by
  cases request with
  | submitCsr csrPem =>
    rcases submitCsr_host env s csrPem with h | h
    · exact .inl h
    · exact .inr (.inl h)
  | approveCsr fingerprint permissions seed now =>
    obtain h | ⟨cert, granted, hc, h⟩ := approveCsr_host env s fingerprint permissions seed now
    · exact .inl h
    · exact .inr (.inr (.inl ⟨cert, granted, now, hc, h⟩))
  | revokeCert fingerprint now => exact .inr (.inr (.inr ⟨fingerprint, now, rfl, rfl⟩))
  | ackEnrollment fingerprint =>
    refine .inl ?_
    simp only [step, ackEnrollment]
    split_ifs
    · exact removeFile_host s _
    · rfl
  | getCsrStatus fingerprint =>
    refine .inr (.inl ?_)
    simp only [step, getCsrStatus]
    split_ifs <;> rfl

/-- A request keeps what its operation keeps of the authorization state. -/
theorem every_step {P : State → Prop} (hd : P State.default) {request : Request}
    (ha : ∀ cert granted state, Signed env cert → P state →
      P ((Op.add (env.pki.sha256 cert) granted).apply state))
    (hrv : ∀ fingerprint now state, request = .revokeCert fingerprint now → P state →
      P ((Op.revoke fingerprint).apply state))
    (h : s.host.Every env.codec P) : (s.step env request).host.Every env.codec P := by
  obtain heq | heq | ⟨cert, granted, now, hc, heq⟩ | ⟨fingerprint, now, hr, heq⟩ :=
    step_host env s request
  · rwa [heq]
  · rw [heq]
    exact h.tryCurrent
  · rw [heq]
    exact h.step (ha cert granted _ hc (h.view hd))
  · rw [heq]
    exact h.step (hrv fingerprint now _ hr (h.view hd))

/-- The fingerprint of a public key never becomes that of a user. -/
theorem users_ne_of_key {key : δ} (hk : env.pki.publicKey csrPem = .ok key)
    (h : s.host.Every env.codec fun state => ∀ u ∈ state.users, u.fingerprint ≠ env.pki.sha256 key)
    (requests : List Request) :
    ∀ u ∈ ((runFrom (step env) s requests).host.view env.codec).users,
      u.fingerprint ≠ env.pki.sha256 key := by
  have hd : ∀ u ∈ State.default.users, u.fingerprint ≠ env.pki.sha256 key := nofun
  refine (runFrom_invariant_always (fun s : Service κ δ => s.host.Every env.codec fun state =>
    ∀ u ∈ state.users, u.fingerprint ≠ env.pki.sha256 key) (fun s request h => ?_) h requests).view
    hd
  refine every_step hd (fun cert granted state hc hs u hu => ?_)
    (fun fingerprint now state _ hs u hu => hs u (List.mem_of_mem_filter hu)) h
  rcases List.mem_append.1 hu with hu | hu
  · exact hs u hu
  · -- the new user has the fingerprint of a certificate
    obtain ⟨_, _, _, _, hsg⟩ := hc
    rw [List.mem_singleton.1 hu]
    exact fun heq => env.pki.cert_ne_key hsg hk (env.pki.sha256_injective heq)

/-- What is revoked was revoked by a request with this very fingerprint. -/
theorem not_mem_revoked {requests : List Request}
    (h : s.host.Every env.codec fun state => fingerprint ∉ state.revoked)
    (hr : ∀ now, .revokeCert fingerprint now ∉ requests) :
    fingerprint ∉ ((runFrom (step env) s requests).host.view env.codec).revoked := by
  have hd : fingerprint ∉ State.default.revoked := nofun
  refine (runFrom_invariant_mem (fun s : Service κ δ => s.host.Every env.codec fun state =>
    fingerprint ∉ state.revoked) (fun request hrq s h => ?_) h).view hd
  refine every_step hd (fun _ _ state _ hs => hs)
    (fun other now state heq hs => ?_) h
  have hne : fingerprint ≠ other := by
    rintro rfl
    exact hr now (heq ▸ hrq)
  simp only [Op.apply]
  split_ifs
  · exact hs
  · simp [hs, hne]

/-- The certificate is that of a user. -/
def Authorized (env : Env κ δ) (s : Service κ δ) (cert : δ) : Prop :=
  ∃ u ∈ (parsed env.codec s.host.file).users, u.fingerprint = env.pki.sha256 cert

/-- The certificate is revoked. -/
def Revoked (env : Env κ δ) (s : Service κ δ) (cert : δ) : Prop :=
  env.pki.sha256 cert ∈ (parsed env.codec s.host.file).revoked

end Service

open Service

/-- **The life cycle of an enrollment.** In every state of every run, for every certificate that was
issued:

* once it is authorized, a request with the same key is refused exactly if the fingerprint of the
  key is that of a user, which it is not unless it was at the start;
* once it is revoked, the answer for the fingerprint of the key is a rejection exactly if this
  fingerprint is revoked, which it is not unless it was at the start or by a request of its own. -/
theorem enrollment_iff {κ δ : Type} (env : Env κ δ) (start : Service κ δ)
    (requests : List Request) :
    let s := runFrom (step env) start requests
    ∀ issued ∈ s.issued, ∀ key, env.pki.publicKey issued.csrPem = .ok key →
    let fingerprint := env.pki.sha256 key
    ((∀ csrPem, env.pki.publicKey csrPem = .ok key →
        ((s.Authorized env issued.cert → (s.submitCsr env csrPem).2 = .error alreadyAuthorized) ↔
          (s.Authorized env issued.cert →
            ∃ u ∈ (s.host.view env.codec).users, u.fingerprint = fingerprint))) ∧
      ((start.host.Every env.codec fun state => ∀ u ∈ state.users, u.fingerprint ≠ fingerprint) →
        ∀ u ∈ (s.host.view env.codec).users, u.fingerprint ≠ fingerprint)) ∧
    (((s.Revoked env issued.cert → (s.getCsrStatus env fingerprint).2 = bare .rejected) ↔
        (s.Revoked env issued.cert → fingerprint ∈ (s.host.view env.codec).revoked)) ∧
      ((start.host.Every env.codec fun state => fingerprint ∉ state.revoked) →
        (∀ now, .revokeCert fingerprint now ∉ requests) →
        fingerprint ∉ (s.host.view env.codec).revoked)) := by
  intro s issued hissued key hkey fingerprint
  refine ⟨⟨fun csrPem hcsr => ?_, fun h => users_ne_of_key hkey h requests⟩, ?_,
    fun h hrequests => not_mem_revoked h hrequests⟩
  · rw [submitCsr_refused_iff hcsr]
  · rw [getCsrStatus_rejected_iff]

/-- Keys and certificates that are named after their request. -/
def namedPki : Pki String where
  publicKey csrPem := .ok ("K" ++ csrPem)
  sign csrPem _ _ _ := .ok ("C" ++ csrPem)
  encodeCert := id
  sha256 := id
  sha256_injective := Function.injective_id
  cert_ne_key := by
    intro csrPem _ _ _ cert other key hcert hkey heq
    cases hcert
    cases hkey
    have hlist := congrArg String.toList heq
    simp at hlist

def namedEnv : Env State String := ⟨plain, namedPki, .ok, fun _ => false, "node"⟩

/-- The service after the installation, with the key and the certificate of the authority. -/
def installed : Service State String :=
  ⟨blankHost, Dict.ofList [(caKeyPath, "key"), (caCertPath, "ca")], []⟩

/-- The request `r` is submitted and approved. -/
def enrollment : List Request :=
  [.submitCsr "r", .approveCsr "Kr" ["vm:read"] 0 10000000000]

/-- Where the fingerprint of the key is revoked as well, the certificate is withheld. -/
theorem enrollment_iff_both_revoked :
    let s := runFrom (step namedEnv) installed
      (enrollment ++ [.revokeCert "Kr" 12000000000, .revokeCert "Cr" 14000000000])
    s.Revoked namedEnv "Cr" ∧ (s.getCsrStatus namedEnv "Kr").2 = bare .rejected := by
  intro s
  have hi : ⟨"r", "Cr"⟩ ∈ s.issued := List.mem_singleton.2 rfl
  have hr : s.Revoked namedEnv "Cr" := by
    show "Cr" ∈ _
    decide
  have hk : "Kr" ∈ (s.host.view namedEnv.codec).revoked := by decide
  have h := (enrollment_iff namedEnv installed _ _ hi "Kr" rfl).2.1
  exact ⟨hr, h.2 (fun _ => hk) hr⟩

/-- **A revoked certificate is handed out**: the certificate of the request `r` is authorized, but
the request is accepted again, and after the certificate was revoked it is still answered. -/
theorem revoked_certificate_handed_out :
    let approved := runFrom (step namedEnv) installed enrollment
    let revoked := runFrom (step namedEnv) installed (enrollment ++ [.revokeCert "Cr" 12000000000])
    approved.issued = [⟨"r", "Cr"⟩] ∧
    (approved.Authorized namedEnv "Cr" ∧ (approved.submitCsr namedEnv "r").2 = .ok "Kr") ∧
    (revoked.Revoked namedEnv "Cr" ∧
      (revoked.getCsrStatus namedEnv "Kr").2 = ⟨.approved, "Cr", "ca", "node"⟩) := by
  refine ⟨rfl, ⟨?_, rfl⟩, ?_, by decide⟩
  · exact ⟨⟨"Cr", [.vmRead]⟩, by decide, rfl⟩
  · show "Cr" ∈ _
    decide

end Muak.Auth
