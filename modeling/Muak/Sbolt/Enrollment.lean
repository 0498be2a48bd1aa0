import Muak.Sbolt.Siglist

/-!
# Enrolling keys

`toolchain/sbolt/src/efi/enrollment.rs` and `authvar.rs`: the platform key, the key exchange key and
the signature database are written to the firmware, each by an authenticated update.

* `Firmware`: the key variables, with the rules for updates. Without a platform key the firmware is
  in Setup Mode and accepts all; afterwards an update has to be signed by a key that is enrolled.
* `enroll`: the three writes and the check of the database, with the outcomes of all calls.
* `enroll_safe_iff`: a failure after the platform key was written, and before the database was,
  leaves a firmware that enforces signatures without the certificate to verify them.
-/

namespace Muak.Sbolt

open Bytes List

variable {Signer Certificate : Type}

/-! ## Keys -/

/-- Certificates and signatures. -/
structure Crypto (Signer Certificate : Type) where
  toDer : Certificate → Except String Bytes
  buildDetachedSignedData : Bytes → Signer → Certificate → Result Bytes
  /-- The certificate with which a signature of a message was made. -/
  verify : Bytes → Bytes → Option Bytes
  toDer_ne_nil : ∀ {certificate der}, toDer certificate = .ok der → der ≠ []

/-- A key that signs, and its certificate. -/
structure KeyPair (Signer Certificate : Type) where
  signer : Signer
  certificate : Certificate

/-- The hierarchy of keys. -/
structure Bundle (Signer Certificate : Type) where
  pk : KeyPair Signer Certificate
  kek : KeyPair Signer Certificate
  db : KeyPair Signer Certificate
  ownerGuid : Guid

/-! ## Authenticated updates -/

/-- The key variables. -/
inductive Id
  | pk | kek | db
  deriving DecidableEq

def Id.name : Id → String
  | .pk => "PK"
  | .kek => "KEK"
  | .db => "db"

/-- The vendor of the global variables. -/
def efiGlobalVariable : Guid where
  bytes :=
    [0x61, 0xdf, 0xe4, 0x8b, 0xca, 0x93, 0xd2, 0x11, 0xaa, 0x0d, 0x00, 0xe0, 0x98, 0x03, 0x2b,
    0x8c]
  length_bytes := rfl

/-- The vendor of the databases. -/
def efiImageSecurityDatabase : Guid where
  bytes :=
    [0xcb, 0xb2, 0x19, 0xd7, 0x3a, 0x3d, 0x96, 0x45, 0xa3, 0xbc, 0xda, 0xd0, 0x0e, 0x67, 0x65,
    0x6f]
  length_bytes := rfl

/-- The type of a signature. -/
def certTypePkcs7Guid : Guid where
  bytes :=
    [0x9d, 0xd2, 0xaf, 0x4a, 0xdf, 0x68, 0xee, 0x49, 0x8a, 0xa9, 0x34, 0x7d, 0x37, 0x56, 0x65,
    0xa7]
  length_bytes := rfl

def Id.vendorGuid : Id → Guid
  | .pk => efiGlobalVariable
  | .kek => efiGlobalVariable
  | .db => efiImageSecurityDatabase

/-- Non-volatile, at boot and at run time, with time-based authentication. -/
def authenticatedVariableAttributes : ℕ := 1 ||| 2 ||| 4 ||| 0x20

/-- An `EFI_TIME`. -/
structure Timestamp where
  bytes : Bytes
  length_bytes : bytes.length = 16

/-- The code units of a character. -/
def encodeUtf16 (c : Char) : List ℕ :=
  if c.toNat < 0x10000 then [c.toNat]
  else [0xD800 + (c.toNat - 0x10000) / 0x400, 0xDC00 + (c.toNat - 0x10000) % 0x400]

/-- What is signed. -/
def buildDescriptor (id : Id) (attributes : ℕ) (timestamp content : Bytes) : Bytes :=
  (id.name.toList.flatMap encodeUtf16).flatMap (leBytes 2) ++ id.vendorGuid.bytes ++
    leBytes 4 attributes ++ timestamp ++ content

/-- The signature with its header. -/
def buildWinCertificate (pkcs7Der : Bytes) : Result Bytes :=
  if 2 ^ 32 ≤ 24 + pkcs7Der.length then .error (.efiVar "WIN_CERTIFICATE size exceeds u32")
  else .ok ([leBytes 4 (24 + pkcs7Der.length), leBytes 2 0x0200, leBytes 2 0x0EF1,
    certTypePkcs7Guid.bytes, pkcs7Der].flatten)

variable (crypto : Crypto Signer Certificate) (hierarchy : Bundle Signer Certificate)

/-- `authvar::sign`. -/
def sign (id : Id) (attributes : ℕ) (content : Bytes) (key : KeyPair Signer Certificate)
    (now : Result Timestamp) : Result Bytes := do
  let timestamp ← now
  let descriptor := buildDescriptor id attributes timestamp.bytes content
  let pkcs7Der ← crypto.buildDetachedSignedData descriptor key.signer key.certificate
  let winCert ← buildWinCertificate pkcs7Der
  .ok (timestamp.bytes ++ winCert ++ content)

/-! ## The firmware -/

structure Firmware where
  pk : Option Bytes
  kek : Option Bytes
  db : Option Bytes
  deriving DecidableEq

variable (fw : Firmware)

/-- A variable is stored. -/
def Firmware.set (id : Id) (content : Bytes) : Firmware :=
  match id with
  | .pk => { fw with pk := some content }
  | .kek => { fw with kek := some content }
  | .db => { fw with db := some content }

/-- An update, as the firmware sees it. -/
structure AuthUpdate where
  message : Bytes
  pkcs7 : Bytes
  content : Bytes

/-- The parts of an update: the time, the certificate structure and the content. -/
def decodeUpdate (id : Id) (attributes : ℕ) (payload : Bytes) : Option AuthUpdate := do
  let timestamp ← slice payload 0 16
  let length ← readU32 payload 16
  let header ← slice payload 20 20
  guard (24 ≤ length ∧ header = leBytes 2 0x0200 ++ leBytes 2 0x0EF1 ++ certTypePkcs7Guid.bytes)
  let pkcs7 ← slice payload 40 (length - 24)
  let content := payload.drop (16 + length)
  some ⟨buildDescriptor id attributes timestamp content, pkcs7, content⟩

/-- The certificates that may sign an update of a variable. -/
def Firmware.trusts (id : Id) (certificate : Bytes) : Bool :=
  match id with
  | .pk => containsX509 (fw.pk.getD []) certificate
  | .kek => containsX509 (fw.pk.getD []) certificate
  | .db => containsX509 (fw.kek.getD []) certificate || containsX509 (fw.pk.getD []) certificate

/-- The rule for updates. -/
def Firmware.accepts (id : Id) (update : AuthUpdate) : Bool :=
  fw.pk.isNone || (crypto.verify update.pkcs7 update.message).any (fw.trusts id)

/-- How an accepted write ends: a failure may be noticed before or after the variable is stored. -/
inductive WriteOutcome
  | done
  | failed (message : String)
  | failedLate (message : String)

/-- A write of a variable, which the firmware accepts or not. -/
def Firmware.write (id : Id) (attributes : ℕ) (payload : Bytes) (outcome : WriteOutcome) :
    Result Unit × Firmware :=
  match decodeUpdate id attributes payload with
  | none => (.error (.firmware "invalid update"), fw)
  | some update =>
    if fw.accepts crypto id update then
      match outcome with
      | .done => (.ok (), fw.set id update.content)
      | .failed message => (.error (.firmware message), fw)
      | .failedLate message => (.error (.firmware message), fw.set id update.content)
    else (.error (.firmware "security violation"), fw)

/-! ## Enrollment -/

/-- Whose key signs an update. -/
inductive SigningAuthority
  | platformKey | keyExchangeKey

/-- The key of an authority. -/
def signerAndCertificate : SigningAuthority → KeyPair Signer Certificate
  | .platformKey => hierarchy.pk
  | .keyExchangeKey => hierarchy.kek

/-- The clock and the firmware at one write. -/
structure Call where
  now : Result Timestamp
  outcome : WriteOutcome

/-- The outcomes of all calls. -/
structure Environment where
  prepare : Except String Bool
  /-- Reading the variable of the Setup Mode, and whether the firmware has it. -/
  readSetupMode : Except String Bool
  pk : Call
  kek : Call
  db : Call
  readDb : Except String Unit

section

variable (crypto : Crypto Signer Certificate) (env : Environment)
  (hierarchy : Bundle Signer Certificate) (fw : Firmware)

/-- Sign an update and write it. -/
def writeSignedVariable (id : Id) (content : Bytes) (authority : SigningAuthority)
    (call : Call) : Result Unit × Firmware :=
  match sign crypto id authenticatedVariableAttributes content
    (signerAndCertificate hierarchy authority) call.now with
  | .error e => (.error e, fw)
  | .ok payload => fw.write crypto id authenticatedVariableAttributes payload call.outcome

/-- `secureboot::setup_mode`. -/
def setupMode : Result Bool :=
  match env.readSetupMode with
  | .error message => .error (.firmware message)
  | .ok reported =>
    let data : Option Bytes :=
      if reported then some [if fw.pk.isNone then 1 else 0] else none
    match data with
    | some (first :: _) => .ok (first == 1)
    | _ => .ok fw.pk.isNone

/-- The list with one certificate. -/
def certificateDatabase (certificate : Certificate) (encodeContext : String) : Result Bytes :=
  match crypto.toDer certificate with
  | .error e => .error (.efiVar (encodeContext ++ ": " ++ e))
  | .ok der => buildX509 hierarchy.ownerGuid der

/-- The contents of the three variables. -/
structure Contents where
  pk : Bytes
  kek : Bytes
  db : Bytes

/-- All that comes before the first write. -/
def prepareContents : Result Contents := do
  let ready ← env.prepare.mapError .firmware
  if !ready then .error (.efiVar "efivarfs not available")
  let setup ← setupMode env fw
  if !setup then .error (.efiVar "system is not in Setup Mode, cannot enroll keys")
  let db ← certificateDatabase crypto hierarchy hierarchy.db.certificate "encode db cert"
  let kek ← certificateDatabase crypto hierarchy hierarchy.kek.certificate "encode kek cert"
  let pk ← certificateDatabase crypto hierarchy hierarchy.pk.certificate "encode pk cert"
  .ok ⟨pk, kek, db⟩

/-- The database has the certificate after the enrollment. -/
def verifyDatabase : Result Unit := do
  env.readDb.mapError .firmware
  let payload ← okOr fw.db (.efiVar "db is absent after enrollment")
  let lists ← parseSignatureLists payload
  let certificate ← (crypto.toDer hierarchy.db.certificate).mapError fun e =>
    .efiVar ("encode enrolled db cert: " ++ e)
  if lists.any (containsX509 · certificate) then .ok ()
  else .error (.efiVar "enrolled db does not contain the signing certificate")

/-- What follows a write; its failure ends the enrollment. -/
def afterWrite (context : String) (written : Result Unit × Firmware)
    (next : Firmware → Result Unit × Firmware) : Result Unit × Firmware :=
  match written.1 with
  | .error e => (.error (.efiVar (context ++ e.display)), written.2)
  | .ok () => next written.2

/-- The platform key first, then the exchange key, then the database. -/
def enroll (fw : Firmware) : Result Unit × Firmware :=
  match prepareContents crypto env hierarchy fw with
  | .error e => (.error e, fw)
  | .ok contents =>
    afterWrite "failed to enroll PK: "
      (writeSignedVariable crypto hierarchy fw .pk contents.pk .platformKey env.pk) fun fw =>
    afterWrite "failed to enroll KEK: "
      (writeSignedVariable crypto hierarchy fw .kek contents.kek .platformKey env.kek) fun fw =>
    afterWrite "failed to enroll db: "
      (writeSignedVariable crypto hierarchy fw .db contents.db .keyExchangeKey env.db) fun fw =>
    (verifyDatabase crypto env hierarchy fw, fw)

end

/-! ## What a write does -/

/-- The update can be made, and the firmware accepts it. -/
def Accepted (fw : Firmware) (id : Id) (content : Bytes) (authority : SigningAuthority)
    (call : Call) : Prop :=
  ∃ payload update, sign crypto id authenticatedVariableAttributes content
      (signerAndCertificate hierarchy authority) call.now = .ok payload ∧
    decodeUpdate id authenticatedVariableAttributes payload = some update ∧
    fw.accepts crypto id update = true

/-- The call stores the variable, though it may report a failure. -/
def WriteOutcome.Stores : WriteOutcome → Prop
  | .done | .failedLate _ => True
  | .failed _ => False

section

variable {crypto : Crypto Signer Certificate} {env : Environment}
  {hierarchy : Bundle Signer Certificate} {fw : Firmware} {contents : Contents}

variable {id : Id}

/-- The firmware takes a signed update apart as it was put together. -/
theorem decodeUpdate_sign {attributes : ℕ} {content payload : Bytes}
    {key : KeyPair Signer Certificate} {now : Result Timestamp}
    (h : sign crypto id attributes content key now = .ok payload) :
    ∃ timestamp pkcs7, crypto.buildDetachedSignedData
        (buildDescriptor id attributes timestamp content) key.signer key.certificate = .ok pkcs7 ∧
      decodeUpdate id attributes payload =
        some ⟨buildDescriptor id attributes timestamp content, pkcs7, content⟩ := by
  obtain ⟨timestamp, -, h⟩ := of_bind h
  obtain ⟨pkcs7, hpkcs7, h⟩ := of_bind h
  obtain ⟨winCert, hw, h⟩ := of_bind h
  cases h
  unfold buildWinCertificate at hw
  split_ifs at hw with hsz
  cases hw
  refine ⟨timestamp.bytes, pkcs7, hpkcs7, ?_⟩
  -- the payload, with the header of the certificate as one part
  obtain ⟨header, hhd⟩ : ∃ header,
    header = leBytes 2 0x0200 ++ leBytes 2 0x0EF1 ++ certTypePkcs7Guid.bytes := ⟨_, rfl⟩
  have hlen : header.length = 20 := by rw [hhd]; rfl
  have htm := timestamp.length_bytes
  have hsp : timestamp.bytes ++ [leBytes 4 (24 + pkcs7.length), leBytes 2 0x0200,
      leBytes 2 0x0EF1, certTypePkcs7Guid.bytes, pkcs7].flatten ++ content =
        timestamp.bytes ++ leBytes 4 (24 + pkcs7.length) ++ header ++ pkcs7 ++ content := by
    simp [hhd]
  have ht : slice (timestamp.bytes ++ leBytes 4 (24 + pkcs7.length) ++ header ++ pkcs7 ++
      content) 0 16 = some timestamp.bytes := by
    simp only [append_assoc]
    exact slice_append_left htm
  have hs : readU32 (timestamp.bytes ++ leBytes 4 (24 + pkcs7.length) ++ header ++ pkcs7 ++
      content) 16 = some (24 + pkcs7.length) := by
    rw [readU32, append_assoc, append_assoc, slice_append htm (length_leBytes ..),
      Option.map_some, ofLe_leBytes (lt_of_lt_of_eq (Nat.lt_of_not_le hsz) (by decide))]
  have hh : slice (timestamp.bytes ++ leBytes 4 (24 + pkcs7.length) ++ header ++ pkcs7 ++
      content) 20 20 = some header := by
    rw [append_assoc]
    exact slice_append (by simp [htm]) hlen
  have hpkcs7Field : slice (timestamp.bytes ++ leBytes 4 (24 + pkcs7.length) ++ header ++ pkcs7 ++
      content) 40 pkcs7.length = some pkcs7 :=
    slice_append (by simp [htm, hlen]) rfl
  have hc : (timestamp.bytes ++ leBytes 4 (24 + pkcs7.length) ++ header ++ pkcs7 ++
      content).drop (16 + (24 + pkcs7.length)) = content :=
    drop_left' (by simp only [length_append, length_leBytes]; omega)
  rw [hsp, decodeUpdate, ht, hs, hh]
  dsimp only [Option.bind_eq_bind, Option.bind_some]
  rw [guard, if_pos ⟨Nat.le_add_right .., hhd⟩, Nat.add_sub_cancel_left, hpkcs7Field, hc]
  rfl

variable {content : Bytes} {authority : SigningAuthority} {call : Call}

/-- What the firmware accepts has the content that was signed. -/
theorem Accepted.exists_update (h : Accepted crypto hierarchy fw id content authority call) :
    ∃ payload update, sign crypto id authenticatedVariableAttributes content
        (signerAndCertificate hierarchy authority) call.now = .ok payload ∧
      decodeUpdate id authenticatedVariableAttributes payload = some update ∧
      fw.accepts crypto id update = true ∧ update.content = content := by
  obtain ⟨payload, update, hs, hd, ha⟩ := h
  obtain ⟨timestamp, pkcs7, -, hdc⟩ := decodeUpdate_sign hs
  obtain rfl := Option.some.inj (hd.symm.trans hdc)
  exact ⟨payload, _, hs, hd, ha, rfl⟩

/-- A write that the firmware accepts ends as the call does. -/
theorem writeSignedVariable_of_accepted
    (h : Accepted crypto hierarchy fw id content authority call) :
    writeSignedVariable crypto hierarchy fw id content authority call =
      match call.outcome with
      | .done => (.ok (), fw.set id content)
      | .failed message => (.error (.firmware message), fw)
      | .failedLate message => (.error (.firmware message), fw.set id content) := by
  obtain ⟨payload, update, hs, hd, ha, rfl⟩ := h.exists_update
  rw [writeSignedVariable, hs]
  dsimp only
  rw [Firmware.write, hd]
  dsimp only
  rw [if_pos ha]

theorem writeSignedVariable_of_not_accepted
    (h : ¬Accepted crypto hierarchy fw id content authority call) :
    ∃ e, writeSignedVariable crypto hierarchy fw id content authority call = (.error e, fw) := by
  unfold writeSignedVariable
  cases hs : sign crypto id authenticatedVariableAttributes content
    (signerAndCertificate hierarchy authority) call.now with
  | error e => exact ⟨e, rfl⟩
  | ok payload =>
    obtain ⟨timestamp, pkcs7, -, hd⟩ := decodeUpdate_sign hs
    have ha : ¬fw.accepts crypto id ⟨_, pkcs7, content⟩ = true := fun ha =>
      h ⟨payload, _, hs, hd, ha⟩
    dsimp only
    rw [Firmware.write, hd]
    dsimp only
    rw [if_neg ha]
    exact ⟨_, rfl⟩

/-! ## Safety -/

section

variable (crypto hierarchy)

/-- A variable has the certificate. -/
def HoldsCertificate (data : Option Bytes) (certificate : Certificate) : Prop :=
  ∃ bytes der, data = some bytes ∧ crypto.toDer certificate = .ok der ∧
    containsX509 bytes der = true

/-- The keys of the hierarchy are enrolled, by updates that the firmware accepted in turn. -/
structure Enrolled (before after : Firmware) : Prop where
  pk : HoldsCertificate crypto after.pk hierarchy.pk.certificate
  kek : HoldsCertificate crypto after.kek hierarchy.kek.certificate
  db : HoldsCertificate crypto after.db hierarchy.db.certificate
  accepted : ∃ pk kek db : AuthUpdate, before.accepts crypto .pk pk = true ∧
    (before.set .pk pk.content).accepts crypto .kek kek = true ∧
    ((before.set .pk pk.content).set .kek kek.content).accepts crypto .db db = true ∧
    after = ((before.set .pk pk.content).set .kek kek.content).set .db db.content

/-- A firmware that enforces signatures and has not got the certificate to verify them. -/
def Bricked (fw : Firmware) : Prop :=
  fw.pk.isSome ∧ ¬HoldsCertificate crypto fw.db hierarchy.db.certificate

/-- What an enrollment promises. -/
def Safe (before : Firmware) (result : Result Unit × Firmware) : Prop :=
  match result.1 with
  | .ok () => Enrolled crypto hierarchy before result.2
  | .error _ => ¬Bricked crypto hierarchy result.2

variable (env fw contents)

/-- The platform key is stored. -/
def Locked : Prop :=
  Accepted crypto hierarchy fw .pk contents.pk .platformKey env.pk ∧ env.pk.outcome.Stores

/-- The first two writes succeed, and the database is stored. -/
structure Completed : Prop where
  pk : Accepted crypto hierarchy fw .pk contents.pk .platformKey env.pk
  pk_done : env.pk.outcome = .done
  kek : Accepted crypto hierarchy (fw.set .pk contents.pk) .kek contents.kek .platformKey env.kek
  kek_done : env.kek.outcome = .done
  db : Accepted crypto hierarchy ((fw.set .pk contents.pk).set .kek contents.kek) .db contents.db
    .keyExchangeKey env.db
  db_stores : env.db.outcome.Stores

/-- The platform key takes effect, and the certificate of the database does not. -/
def Interrupted : Prop :=
  ∃ contents, prepareContents crypto env hierarchy fw = .ok contents ∧
    Locked crypto env hierarchy fw contents ∧ ¬Completed crypto env hierarchy fw contents ∧
    ¬HoldsCertificate crypto fw.db hierarchy.db.certificate

end

variable {certificate : Certificate}

/-- A content is a list with the certificate. -/
theorem certificateDatabase_eq_ok {context : String}
    (h : certificateDatabase crypto hierarchy certificate context = .ok content) :
    ∃ der, crypto.toDer certificate = .ok der ∧
      buildX509 hierarchy.ownerGuid der = .ok content := by
  unfold certificateDatabase at h
  cases hd : crypto.toDer certificate with
  | error e =>
    rw [hd] at h
    cases h
  | ok der =>
    rw [hd] at h
    exact ⟨der, rfl, h⟩

theorem holdsCertificate_of_buildX509 (h : ∃ der, crypto.toDer certificate = .ok der ∧
      buildX509 hierarchy.ownerGuid der = .ok content) :
    HoldsCertificate crypto (some content) certificate := by
  obtain ⟨der, hd, hb⟩ := h
  exact ⟨content, der, rfl, hd, containsX509_buildX509 hb (crypto.toDer_ne_nil hd)⟩

/-- The contents have the certificates of the hierarchy. -/
theorem prepareContents_spec (h : prepareContents crypto env hierarchy fw = .ok contents) :
    (∃ der, crypto.toDer hierarchy.pk.certificate = .ok der ∧
        buildX509 hierarchy.ownerGuid der = .ok contents.pk) ∧
      (∃ der, crypto.toDer hierarchy.kek.certificate = .ok der ∧
        buildX509 hierarchy.ownerGuid der = .ok contents.kek) ∧
      ∃ der, crypto.toDer hierarchy.db.certificate = .ok der ∧
        buildX509 hierarchy.ownerGuid der = .ok contents.db := by
  obtain ⟨ready, -, h⟩ := of_bind h
  cases ready with
  | false => cases h
  | true =>
    obtain ⟨setup, -, h⟩ := of_bind h
    cases setup with
    | false => cases h
    | true =>
      obtain ⟨db, hdb, h⟩ := of_bind h
      obtain ⟨kek, hk, h⟩ := of_bind h
      obtain ⟨pk, hpk, h⟩ := of_bind h
      cases h
      exact ⟨certificateDatabase_eq_ok hpk, certificateDatabase_eq_ok hk,
        certificateDatabase_eq_ok hdb⟩

section

variable {fw : Firmware} {contents : Contents}
  (hcontents : prepareContents crypto env hierarchy fw = .ok contents)

include hcontents

/-- Up to the platform key nothing is changed. -/
theorem enroll_of_not_locked (h : ¬Locked crypto env hierarchy fw contents) :
    ∃ e, enroll crypto env hierarchy fw = (.error e, fw) := by
  rw [enroll, hcontents]
  dsimp only
  by_cases ha : Accepted crypto hierarchy fw .pk contents.pk .platformKey env.pk
  · rw [writeSignedVariable_of_accepted ha]
    cases ho : env.pk.outcome with
    | failed message => exact ⟨_, rfl⟩
    | done => exact absurd ⟨ha, by rw [ho]; trivial⟩ h
    | failedLate message => exact absurd ⟨ha, by rw [ho]; trivial⟩ h
  · obtain ⟨e, hw⟩ := writeSignedVariable_of_not_accepted ha
    rw [hw]
    exact ⟨_, rfl⟩

/-- An enrollment that stops after the platform key fails, with the database as it was. -/
theorem enroll_of_not_completed (hl : Locked crypto env hierarchy fw contents)
    (h : ¬Completed crypto env hierarchy fw contents) :
    ∃ e after, enroll crypto env hierarchy fw = (.error e, after) ∧ after.pk.isSome ∧
      after.db = fw.db := by
  rw [enroll, hcontents]
  dsimp only
  obtain ⟨hpk, hs⟩ := hl
  rw [writeSignedVariable_of_accepted hpk]
  cases hp : env.pk.outcome with
  | failed message =>
    rw [hp] at hs
    exact hs.elim
  | failedLate message => exact ⟨_, _, rfl, rfl, rfl⟩
  | done =>
  simp only [afterWrite]
  by_cases hkk : Accepted crypto hierarchy (fw.set .pk contents.pk) .kek contents.kek
    .platformKey env.kek
  · rw [writeSignedVariable_of_accepted hkk]
    cases hk : env.kek.outcome with
    | failed message => exact ⟨_, _, rfl, rfl, rfl⟩
    | failedLate message => exact ⟨_, _, rfl, rfl, rfl⟩
    | done =>
    by_cases hdb : Accepted crypto hierarchy ((fw.set .pk contents.pk).set .kek contents.kek) .db
      contents.db .keyExchangeKey env.db
    · rw [writeSignedVariable_of_accepted hdb]
      cases hd : env.db.outcome with
      | failed message => exact ⟨_, _, rfl, rfl, rfl⟩
      | done =>
        exact absurd ⟨hpk, hp, hkk, hk, hdb, by rw [hd]; trivial⟩ h
      | failedLate message =>
        exact absurd ⟨hpk, hp, hkk, hk, hdb, by rw [hd]; trivial⟩ h
    · obtain ⟨e, hw⟩ := writeSignedVariable_of_not_accepted hdb
      rw [hw]
      exact ⟨_, _, rfl, rfl, rfl⟩
  · obtain ⟨e, hw⟩ := writeSignedVariable_of_not_accepted hkk
    rw [hw]
    exact ⟨_, _, rfl, rfl, rfl⟩

/-- A completed enrollment has stored all three variables, whatever it returns. -/
theorem enroll_of_completed (h : Completed crypto env hierarchy fw contents) :
    ∃ result, enroll crypto env hierarchy fw =
      (result, ((fw.set .pk contents.pk).set .kek contents.kek).set .db contents.db) := by
  have hs := h.db_stores
  rw [enroll, hcontents]
  dsimp only
  rw [writeSignedVariable_of_accepted h.pk, h.pk_done]
  simp only [afterWrite]
  rw [writeSignedVariable_of_accepted h.kek, h.kek_done]
  rw [writeSignedVariable_of_accepted h.db]
  cases hd : env.db.outcome with
  | failed message =>
    rw [hd] at hs
    exact hs.elim
  | failedLate message => exact ⟨_, rfl⟩
  | done => exact ⟨_, rfl⟩

end

theorem enrolled_of_completed (hcontents : prepareContents crypto env hierarchy fw = .ok contents)
    (h : Completed crypto env hierarchy fw contents) :
    Enrolled crypto hierarchy fw
      (((fw.set .pk contents.pk).set .kek contents.kek).set .db contents.db) := by
  obtain ⟨hpk, hke, hdb⟩ := prepareContents_spec hcontents
  obtain ⟨-, pk, -, -, hpkA, hp⟩ := h.pk.exists_update
  obtain ⟨-, kek, -, -, hk, hkk⟩ := h.kek.exists_update
  obtain ⟨-, db, -, -, hd, hdbC⟩ := h.db.exists_update
  rw [← hp] at hk
  rw [← hp, ← hkk] at hd
  exact ⟨holdsCertificate_of_buildX509 hpk, holdsCertificate_of_buildX509 hke,
    holdsCertificate_of_buildX509 hdb, pk, kek, db, hpkA, hk, hd,
    by rw [hp, hkk, hdbC]⟩

end

/-- The platform key is enrolled first, so an enrollment is safe as long as it is not interrupted
between the platform key and the database. -/
theorem enroll_safe_iff (env : Environment) (hierarchy : Bundle Signer Certificate)
    (kek db : Option Bytes) :
    Safe crypto hierarchy ⟨none, kek, db⟩ (enroll crypto env hierarchy ⟨none, kek, db⟩) ↔
      ¬Interrupted crypto env hierarchy ⟨none, kek, db⟩ := by
  have hs : ¬Bricked crypto hierarchy ⟨none, kek, db⟩ := fun h => Bool.false_ne_true h.1
  cases hcontents : prepareContents crypto env hierarchy ⟨none, kek, db⟩ with
  | error e =>
    refine iff_of_true ?_ fun ⟨contents, h, _⟩ => by cases hcontents.symm.trans h
    rw [enroll, hcontents]
    exact hs
  | ok contents =>
  have hi : Interrupted crypto env hierarchy ⟨none, kek, db⟩ ↔
      Locked crypto env hierarchy ⟨none, kek, db⟩ contents ∧
        ¬Completed crypto env hierarchy ⟨none, kek, db⟩ contents ∧
        ¬HoldsCertificate crypto db hierarchy.db.certificate := by
    refine ⟨fun ⟨_, h, hrest⟩ => ?_, fun h => ⟨contents, hcontents, h⟩⟩
    obtain rfl := Except.ok.inj (hcontents.symm.trans h)
    exact hrest
  rw [hi]
  by_cases hl : Locked crypto env hierarchy ⟨none, kek, db⟩ contents
  · by_cases hc : Completed crypto env hierarchy ⟨none, kek, db⟩ contents
    · refine iff_of_true ?_ fun h => h.2.1 hc
      have hen := enrolled_of_completed hcontents hc
      obtain ⟨result, he⟩ := enroll_of_completed hcontents hc
      rw [he]
      cases result with
      | ok _ => exact hen
      | error e => exact fun h => h.2 hen.db
    · obtain ⟨e, after, he, hpk, hdb⟩ := enroll_of_not_completed hcontents hl hc
      rw [he, Safe, Bricked, hdb]
      exact not_congr ⟨fun h => ⟨hl, hc, h.2⟩, fun h => ⟨hpk, h.2.2⟩⟩
  · refine iff_of_true ?_ fun h => hl h.1
    obtain ⟨e, he⟩ := enroll_of_not_locked hcontents hl
    rw [he]
    exact hs

/-- Keys whose signatures name their certificate. -/
def plainCrypto : Crypto Unit UInt8 where
  toDer certificate := .ok [certificate]
  buildDetachedSignedData _ _ certificate := .ok [certificate]
  verify pkcs7 _ := some pkcs7
  toDer_ne_nil h := by cases h; exact cons_ne_nil _ _

def plainHierarchy : Bundle Unit UInt8 where
  pk := ⟨(), 1⟩
  kek := ⟨(), 2⟩
  db := ⟨(), 3⟩
  ownerGuid := efiGlobalVariable

/-- The firmware has no room left for the second variable. -/
def fullStore : Environment where
  prepare := .ok true
  readSetupMode := .ok true
  pk := ⟨.ok ⟨replicate 16 0, rfl⟩, .done⟩
  kek := ⟨.ok ⟨replicate 16 0, rfl⟩, .failed "out of resources"⟩
  db := ⟨.ok ⟨replicate 16 0, rfl⟩, .done⟩
  readDb := .ok ()

/-- After the failure the platform key is present and the database is empty. -/
theorem enroll_leaves_platform_key :
    (enroll plainCrypto fullStore plainHierarchy ⟨none, none, none⟩).1 = .error
        (.efiVar "failed to enroll KEK: firmware: out of resources") ∧
      Bricked plainCrypto plainHierarchy
        (enroll plainCrypto fullStore plainHierarchy ⟨none, none, none⟩).2 := by
  have hdb : (enroll plainCrypto fullStore plainHierarchy ⟨none, none, none⟩).2.db = none := by
    decide +kernel
  refine ⟨by decide +kernel, by decide +kernel, ?_⟩
  rintro ⟨bytes, der, hb, -⟩
  cases hdb.symm.trans hb

end Muak.Sbolt
