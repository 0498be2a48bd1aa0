import Muak.Foundations.Result

/-!
# Signed manifests

`toolchain/koci/src/signature.rs` and `with_annotation` of `libs/oci/src/manifest.rs`: a signature
over the canonical text of a manifest becomes one of its annotations.

* `unsigned_annotated`: the signature that is put in does not count.
* `same_sortKeys`: sorting the keys changes nothing but their order.
* `signature_binds`: a signed manifest is accepted if it is read back as it was written, and every
  manifest that is accepted is one that was signed.
* `float_breaks_signature`: a number that is read back as another one.

JSON text, SHA-256, ECDSA and the encodings of keys and signatures are those of `Env`.
-/

namespace Muak.Koci.Signature

open List Except

/-- A JSON value. Its objects are ordered maps. -/
inductive Value (N : Type)
  | null
  | bool (value : Bool)
  | number (value : N)
  | string (value : String)
  | array (items : List (Value N))
  | object (entries : List (String × Value N))

variable {N : Type}

/-- The text of a value that is one. -/
def Value.asStr : Value N → Option String
  | .string value => some value
  | _ => none

abbrev Map (N : Type) := List (String × Value N)

/-- Insertion before the first larger key, or in the place of the key. -/
def Map.insert (key : String) (value : Value N) : Map N → Map N
  | [] => [(key, value)]
  | (k, v) :: rest =>
    if key < k then (key, value) :: (k, v) :: rest
    else if key = k then (key, value) :: rest
    else (k, v) :: Map.insert key value rest

def Map.remove (key : String) (map : Map N) : Map N := map.filter (·.1 ≠ key)

/-- `value.get(key)`, for an object. -/
def Value.get (key : String) : Value N → Option (Value N)
  | .object entries => entries.lookup key
  | _ => none

/-! ## The canonical form -/

mutual

/-- A value with the keys of all its objects sorted. -/
def sortKeys : Value N → Value N
  | .object entries => .object ((sortEntries entries).mergeSort fun left right => left.1 ≤ right.1)
  | .array items => .array (sortItems items)
  | .null => .null
  | .bool value => .bool value
  | .number value => .number value
  | .string value => .string value

/-- The values of an array, each with sorted keys. -/
def sortItems : List (Value N) → List (Value N)
  | [] => []
  | item :: rest => sortKeys item :: sortItems rest

/-- The values of an object, each with sorted keys. -/
def sortEntries : List (String × Value N) → List (String × Value N)
  | [] => []
  | (key, value) :: rest => (key, sortKeys value) :: sortEntries rest

end

/-- The manifest without the signature, and without annotations if there are no others. -/
def unsigned (annot : String) : Value N → Value N
  | .object entries =>
    match entries.lookup "annotations" with
    | some (.object annotations) =>
      if (Map.remove annot annotations).isEmpty then .object (Map.remove "annotations" entries)
      else
        .object (Map.insert "annotations" (.object (Map.remove annot annotations)) entries)
    | _ => .object entries
  | value => value

/-! ## Signing and checking -/

/-- Why signing or checking fails. -/
inductive SignatureError
  | verificationFailed (message : String)
  | parse (message : String)
  | invalidFormat (message : String)

/-- What is used of other crates. -/
structure Env (N Text Key Sig Der : Type) where
  fromStr : Text → Except String (Value N)
  toVec : Value N → Text
  toVec_injective : Function.Injective toVec
  sha256Hex : Text → String
  encodeString : Der → String
  decodeVec : String → Except String Der
  decodeVec_encodeString : ∀ bytes, decodeVec (encodeString bytes) = .ok bytes
  toDer : Sig → Der
  fromDer : Der → Except String Sig
  fromDer_toDer : ∀ signature, fromDer (toDer signature) = .ok signature
  parsePublicKey : String → Except String Key
  verify : Key → String → Sig → Bool

variable {Text Key Sig Der : Type} (env : Env N Text Key Sig Der)

section

variable (manifestJson : Text)

/-- The value of the manifest. -/
def parseManifest : Except SignatureError (Value N) :=
  match env.fromStr manifestJson with
  | .ok value => .ok value
  | .error e => .error (.parse ("Failed to parse manifest JSON: " ++ e))

/-- The sorted text of the manifest without the annotation. -/
def canonicalizeManifest (annot : String) : Except SignatureError Text := do
  let value ← parseManifest env manifestJson
  .ok (env.toVec (sortKeys (unsigned annot value)))

/-- The digest that is signed. -/
def signingPayload (annot : String) : Except SignatureError String := do
  let canonical ← canonicalizeManifest env manifestJson annot
  .ok ("sha256:" ++ env.sha256Hex canonical)

/-- The annotations to which one is added. -/
def annotationsOf (entries : Map N) : Except SignatureError (Map N) :=
  match entries.lookup "annotations" with
  | none => .ok []
  | some (.object annotations) => .ok annotations
  | some _ => .error (.invalidFormat "Manifest annotations is not a JSON object")

def ociManifestMediaType : String := "application/vnd.oci.image.manifest.v1+json"

/-- The manifest with an annotation more. -/
def withAnnotation (key value : String) : Except SignatureError (Text × String) := do
  match ← parseManifest env manifestJson with
  | .object entries =>
    let annotations ← annotationsOf entries
    let manifest : Value N :=
      .object (Map.insert "annotations"
        (.object (Map.insert key (.string value) annotations)) entries)
    let contentType := ((manifest.get "mediaType").bind Value.asStr).getD ociManifestMediaType
    .ok (env.toVec manifest, contentType)
  | _ => .error (.invalidFormat "Manifest is not a JSON object")

/-- The manifest with its signature as an annotation. -/
def inject (sign : String → Sig) (manifestJson : Text) (annot : String) :
    Except SignatureError (Text × String) := do
  let digest ← signingPayload env manifestJson annot
  withAnnotation env manifestJson annot (env.encodeString (env.toDer (sign digest)))

/-- The key of a registry and where its signatures are. -/
structure Verification where
  pubkeyPem : String
  sigAnnotation : String

/-- An error of another crate, with what was tried. -/
def failed {α : Type} (what : String) : Except String α → Except SignatureError α
  | .ok value => .ok value
  | .error e => .error (.verificationFailed (what ++ e))

/-- The signature of a manifest is checked, if there is a key. -/
def checkSignature : Option Verification → Except SignatureError Unit
  | none => .ok ()
  | some verification => do
    let annot := verification.sigAnnotation
    let value ← failed "Failed to parse manifest JSON: " (env.fromStr manifestJson)
    let sigB64 ← okOr (((value.get "annotations").bind (Value.get annot)).bind Value.asStr)
      (.verificationFailed ("Manifest has no '" ++ annot ++ "' annotation - image is not signed"))
    let digest ← signingPayload env manifestJson annot
    let sigBytes ← failed "Failed to decode signature annotation: " (env.decodeVec sigB64)
    let key ← failed ("Failed to parse ECDSA P-256 public key (must be " ++
      "'-----BEGIN PUBLIC KEY-----' SPKI): ") (env.parsePublicKey verification.pubkeyPem)
    let signature ← failed "Failed to decode ASN.1 DER signature annotation: "
      (env.fromDer sigBytes)
    if env.verify key digest signature then .ok ()
    else
      .error (.verificationFailed
        "Signature verification failed: image was not signed by the trusted key: signature error")

end

/-! ## The order of the keys -/

/-- The same value up to the order of the keys of its objects. -/
inductive Same : Value N → Value N → Prop
  | refl (value : Value N) : Same value value
  | symm {left right : Value N} (h : Same left right) : Same right left
  | trans {left middle right : Value N} (h : Same left middle) (h' : Same middle right) :
      Same left right
  | order {entries entries' : Map N} (h : entries.Perm entries') :
      Same (.object entries) (.object entries')
  | item {value value' : Value N} (h : Same value value') (before after : List (Value N)) :
      Same (.array (before ++ value :: after)) (.array (before ++ value' :: after))
  | entry {value value' : Value N} (h : Same value value') (key : String) (before after : Map N) :
      Same (.object (before ++ (key, value) :: after)) (.object (before ++ (key, value') :: after))

mutual

theorem same_sortKeys : ∀ value : Value N, Same (sortKeys value) value
  | .object entries => .trans (.order (mergeSort_perm _ _)) (same_sortEntries [] entries)
  | .array items => same_sortItems [] items
  | .null => .refl _
  | .bool _ => .refl _
  | .number _ => .refl _
  | .string _ => .refl _

theorem same_sortItems (before : List (Value N)) :
    ∀ items : List (Value N), Same (.array (before ++ sortItems items)) (.array (before ++ items))
  | [] => .refl _
  | item :: rest => by
    refine .trans (.item (same_sortKeys item) before (sortItems rest)) ?_
    simpa using same_sortItems (before ++ [item]) rest

theorem same_sortEntries (before : Map N) :
    ∀ entries : Map N, Same (.object (before ++ sortEntries entries)) (.object (before ++ entries))
  | [] => .refl _
  | (key, value) :: rest => by
    refine .trans (.entry (same_sortKeys value) key before (sortEntries rest)) ?_
    simpa using same_sortEntries (before ++ [(key, value)]) rest

end

/-! ## The signature among the annotations -/

section

variable (key : String) (value value' : Value N) (map : Map N)

theorem lookup_insert : (Map.insert key value map).lookup key = some value := by
  induction map with
  | nil => simp [Map.insert]
  | cons entry rest ih =>
    rw [Map.insert]
    split_ifs with hlt heq
    · simp
    · simp
    · rw [lookup_cons, beq_false_of_ne heq]
      exact ih

theorem remove_insert : Map.remove key (Map.insert key value map) = Map.remove key map := by
  induction map with
  | nil => simp [Map.insert, Map.remove]
  | cons entry rest ih =>
    simp only [Map.remove] at ih ⊢
    rw [Map.insert]
    split_ifs with hlt heq
    · simp
    · simp [← heq]
    · rw [filter_cons, filter_cons, ih]

theorem insert_insert :
    Map.insert key value (Map.insert key value' map) = Map.insert key value map := by
  induction map with
  | nil => simp [Map.insert]
  | cons entry rest ih =>
    simp only [Map.insert]
    split_ifs with hlt heq
    · simp [Map.insert]
    · simp [Map.insert]
    · simp [Map.insert, hlt, heq, ih]

variable {key map} in
theorem remove_of_lookup_eq_none (h : map.lookup key = none) : Map.remove key map = map := by
  refine filter_eq_self.2 fun entry hentry => ?_
  have hne := lookup_eq_none_iff.1 h entry hentry
  exact decide_eq_true fun heq => absurd hne (by simp [heq])

end

/-- The manifest with a signature. -/
def annotated (annot signature : String) (annotations entries : Map N) : Value N :=
  .object (Map.insert "annotations"
    (.object (Map.insert annot (.string signature) annotations)) entries)

/-- **The signature does not count**: a manifest with it is, unsigned, what it was. -/
theorem unsigned_annotated {annot signature : String} {annotations entries : Map N}
    (h : annotationsOf entries = .ok annotations) :
    unsigned annot (annotated annot signature annotations entries) =
      unsigned annot (.object entries) := by
  simp only [annotated, unsigned, lookup_insert, remove_insert, insert_insert]
  unfold annotationsOf at h
  split at h
  · next hn =>
    cases h
    simp only [hn, remove_of_lookup_eq_none hn]
    rfl
  · next hs =>
    cases h
    simp [hs]
  · cases h

/-- The digest that is signed. -/
def digestOf (annot : String) (value : Value N) : String :=
  "sha256:" ++ env.sha256Hex (env.toVec (sortKeys (unsigned annot value)))

variable {env} in
theorem canonicalizeManifest_eq_ok_iff {manifestJson text : Text} {annot : String} :
    canonicalizeManifest env manifestJson annot = .ok text ↔ ∃ value,
      env.fromStr manifestJson = .ok value ∧
        env.toVec (sortKeys (unsigned annot value)) = text := by
  unfold canonicalizeManifest parseManifest
  cases env.fromStr manifestJson with
  | error e => exact ⟨nofun, nofun⟩
  | ok value => simp

variable {env} in
theorem signingPayload_eq_ok_iff {manifestJson : Text} {annot digest : String} :
    signingPayload env manifestJson annot = .ok digest ↔ ∃ text,
      canonicalizeManifest env manifestJson annot = .ok text ∧
        "sha256:" ++ env.sha256Hex text = digest := by
  unfold signingPayload
  simp [bind_eq_ok_iff]

variable {env} in
theorem signingPayload_eq_digestOf {manifestJson : Text} {annot : String} {value : Value N}
    (h : env.fromStr manifestJson = .ok value) :
    signingPayload env manifestJson annot = .ok (digestOf env annot value) :=
  signingPayload_eq_ok_iff.2 ⟨_, canonicalizeManifest_eq_ok_iff.2 ⟨value, h, rfl⟩, rfl⟩

/-! ## Key pairs -/

theorem failed_eq_ok_iff {α : Type} {what : String} {x : Except String α} {a : α} :
    failed what x = .ok a ↔ x = .ok a := by
  cases x with
  | error e => exact ⟨nofun, nofun⟩
  | ok value => exact ⟨fun h => congrArg _ (ok.inj h), fun h => congrArg _ (ok.inj h)⟩

/-- A private key and the text of its public key. -/
structure KeyPair where
  sign : String → Sig
  pem : String
  publicKey : Key
  parse_pem : env.parsePublicKey pem = .ok publicKey
  verify_sign : ∀ digest, env.verify publicKey digest (sign digest) = true

/-- The signature that a manifest carries. -/
def Carries (manifestJson : Text) (annot : String) (signature : Sig) : Prop :=
  ∃ value sigB64 sigBytes, env.fromStr manifestJson = .ok value ∧
    ((value.get "annotations").bind (Value.get annot)).bind Value.asStr = some sigB64 ∧
    env.decodeVec sigB64 = .ok sigBytes ∧ env.fromDer sigBytes = .ok signature

/-- Of the signatures that are known, none is valid for a digest other than those of the manifests
that were signed, each with its annotation. -/
def KeyPair.Unforgeable (pair : KeyPair env) (signed : List (Text × String)) (known : Set Sig) :
    Prop :=
  ∀ digest, ∀ signature ∈ known, env.verify pair.publicKey digest signature = true →
    ∃ manifest ∈ signed, signingPayload env manifest.1 manifest.2 = .ok digest

/-- No two of the manifests have different canonical texts with one hash. -/
def NoCollision (manifests : List (Text × String)) : Prop :=
  ∀ left ∈ manifests, ∀ right ∈ manifests, ∀ text text',
    canonicalizeManifest env left.1 left.2 = .ok text →
    canonicalizeManifest env right.1 right.2 = .ok text' →
    env.sha256Hex text = env.sha256Hex text' → text = text'

/-- The annotation with which a manifest is signed. -/
def KeyPair.signatureOf (pair : KeyPair env) (annot : String) (value : Value N) : String :=
  env.encodeString (env.toDer (pair.sign (digestOf env annot value)))

variable {env} {pair : KeyPair env} {annot : String} {manifestJson : Text}
  {entries annotations : Map N}

theorem inject_eq (hr : env.fromStr manifestJson = .ok (.object entries))
    (ha : annotationsOf entries = .ok annotations) :
    ∃ contentType, inject env pair.sign manifestJson annot =
      .ok (env.toVec (annotated annot (pair.signatureOf env annot (.object entries))
        annotations entries), contentType) := by
  have hd := @signingPayload_eq_digestOf _ _ _ _ _ env _ annot _ hr
  have hp : parseManifest env manifestJson = .ok (.object entries) := by
    rw [parseManifest, hr]
  rw [inject, hd, ok_bind, withAnnotation, hp, ok_bind]
  dsimp only
  rw [ha]
  exact ⟨_, rfl⟩

/-- What is checked of a manifest that is read with a signature in it. -/
theorem checkSignature_annotated {body : Text} {signature : Sig}
    (ha : annotationsOf entries = .ok annotations)
    (hb : env.fromStr body = .ok (annotated annot
      (env.encodeString (env.toDer signature)) annotations entries)) :
    checkSignature env body (some ⟨pair.pem, annot⟩) = .ok () ↔
      env.verify pair.publicKey (digestOf env annot (.object entries)) signature = true := by
  have hd : signingPayload env body annot = .ok (digestOf env annot (.object entries)) := by
    rw [signingPayload_eq_digestOf hb, digestOf, unsigned_annotated ha, digestOf]
  rw [checkSignature, failed_eq_ok_iff.2 hb]
  simp only [annotated, Value.get, lookup_insert, Option.bind_some, Value.asStr, okOr_some, ok_bind]
  rw [hd, ok_bind, failed_eq_ok_iff.2 (env.decodeVec_encodeString _), ok_bind,
    failed_eq_ok_iff.2 pair.parse_pem, ok_bind, failed_eq_ok_iff.2 (env.fromDer_toDer _), ok_bind]
  split_ifs with hv
  · exact iff_of_true rfl hv
  · exact iff_of_false nofun hv

/-- **What is accepted was signed.** -/
theorem exists_signed_of_checkSignature {signed : List (Text × String)} {known : Set Sig}
    (hc : NoCollision env ((manifestJson, annot) :: signed))
    (hs : pair.Unforgeable env signed known)
    (hk : ∀ signature, Carries env manifestJson annot signature → signature ∈ known)
    (h : checkSignature env manifestJson (some ⟨pair.pem, annot⟩) = .ok ()) :
    ∃ manifest ∈ signed, ∃ value value', env.fromStr manifestJson = .ok value ∧
      env.fromStr manifest.1 = .ok value' ∧
      Same (unsigned annot value) (unsigned manifest.2 value') := by
  obtain ⟨value, hvl, h⟩ := of_bind h
  obtain ⟨sigB64, hsg, h⟩ := of_bind h
  obtain ⟨digest, hd, h⟩ := of_bind h
  obtain ⟨sigBytes, hb, h⟩ := of_bind h
  obtain ⟨key, hky, h⟩ := of_bind h
  obtain ⟨signature, hdr, h⟩ := of_bind h
  obtain rfl := ok.inj (pair.parse_pem.symm.trans (failed_eq_ok_iff.1 hky))
  split_ifs at h with hv
  have hcr : Carries env manifestJson annot signature :=
    ⟨value, sigB64, sigBytes, failed_eq_ok_iff.1 hvl, okOr_eq_ok_iff.1 hsg,
      failed_eq_ok_iff.1 hb, failed_eq_ok_iff.1 hdr⟩
  obtain ⟨manifest, hm, hp⟩ := hs digest signature (hk signature hcr) hv
  obtain ⟨text, ht, rfl⟩ := signingPayload_eq_ok_iff.1 hd
  obtain ⟨text', ht', hsm⟩ := signingPayload_eq_ok_iff.1 hp
  -- one digest, so one canonical text, so one sorted value
  obtain rfl : text = text' := hc _ mem_cons_self manifest (mem_cons_of_mem _ hm) _ _
    ht ht' ((String.append_right_inj _).1 hsm).symm
  obtain ⟨found, hf, rfl⟩ := canonicalizeManifest_eq_ok_iff.1 ht
  obtain ⟨value', hvl', ht'⟩ := canonicalizeManifest_eq_ok_iff.1 ht'
  refine ⟨manifest, hm, found, value', hf, hvl', .trans (.symm (same_sortKeys _)) ?_⟩
  rw [← env.toVec_injective ht']
  exact same_sortKeys _

/-- **Signatures bind the manifest.** The output of `inject` is accepted whenever it is read back as
it was written; and all that is accepted with a signature that is not forged is, up to the order of
keys and the signature, a manifest that was signed. -/
theorem signature_binds (env : Env N Text Key Sig Der) (pair : KeyPair env) (annot : String) :
    (∀ (manifestJson : Text) (entries annotations : Map N),
      env.fromStr manifestJson = .ok (.object entries) →
      annotationsOf entries = .ok annotations →
      ∃ body contentType, inject env pair.sign manifestJson annot = .ok (body, contentType) ∧
        (env.fromStr body = .ok (annotated annot
          (pair.signatureOf env annot (.object entries)) annotations entries) →
        checkSignature env body (some ⟨pair.pem, annot⟩) = .ok ())) ∧
    ∀ (signed : List (Text × String)) (known : Set Sig) (manifestJson : Text),
      NoCollision env ((manifestJson, annot) :: signed) → pair.Unforgeable env signed known →
      (∀ signature, Carries env manifestJson annot signature → signature ∈ known) →
      checkSignature env manifestJson (some ⟨pair.pem, annot⟩) = .ok () →
      ∃ manifest ∈ signed, ∃ value value', env.fromStr manifestJson = .ok value ∧
        env.fromStr manifest.1 = .ok value' ∧
        Same (unsigned annot value) (unsigned manifest.2 value') := by
  refine ⟨fun manifestJson entries annotations hr ha => ?_,
    fun _ _ _ hc hs hk h => exists_signed_of_checkSignature hc hs hk h⟩
  obtain ⟨contentType, hi⟩ := @inject_eq _ _ _ _ _ env pair annot _ _ _ hr ha
  exact ⟨_, contentType, hi, fun hb =>
    (checkSignature_annotated ha hb).2 (pair.verify_sign _)⟩

/-! ## A number that is not read back -/

/-- Numbers by the digits after their point. Reading takes 16 digits with a rounding of its own. -/
def readNumber (digits : ℕ) : ℕ :=
  if digits = 94527069555392230 then 9452706955539223
  else if digits = 9452706955539223 then 9452706955539224
  else digits

/-- The entry with its number read. -/
def readEntry : String × Value ℕ → String × Value ℕ
  | (key, .number digits) => (key, .number (readNumber digits))
  | entry => entry

/-- Values as their own text, the number of a manifest as its hash, and that as its signature. -/
def roundingEnv : Env ℕ (Value ℕ) Unit String String where
  fromStr
    | .object entries => .ok (.object (entries.map readEntry))
    | value => .ok value
  toVec := id
  toVec_injective := Function.injective_id
  sha256Hex
    | .object [(_, .number digits)] => toString digits
    | _ => ""
  encodeString := id
  decodeVec := .ok
  decodeVec_encodeString _ := rfl
  toDer := id
  fromDer := .ok
  fromDer_toDer _ := rfl
  parsePublicKey _ := .ok ()
  verify _ digest signature := signature = digest

def roundingPair : KeyPair roundingEnv := ⟨id, "", (), rfl, fun _ => decide_eq_true rfl⟩

/-- A manifest with one number. -/
def plainManifest : Value ℕ := .object [("x", .number 5)]

/-- The same manifest, signed. -/
def signedManifest : Value ℕ := annotated "sig" "sha256:5" [] [("x", .number 5)]

/-- One signature is known, that of the one manifest that was signed. -/
theorem signature_binds_plain :
    NoCollision roundingEnv [(signedManifest, "sig"), (plainManifest, "sig")] ∧
    roundingPair.Unforgeable roundingEnv [(plainManifest, "sig")] {"sha256:5"} ∧
    checkSignature roundingEnv signedManifest (some ⟨roundingPair.pem, "sig"⟩) = .ok () ∧
    ∃ value value', roundingEnv.fromStr signedManifest = .ok value ∧
      roundingEnv.fromStr plainManifest = .ok value' ∧
      Same (unsigned "sig" value) (unsigned "sig" value') := by
  have hbc : roundingEnv.fromStr signedManifest = .ok signedManifest := rfl
  have hrd : roundingEnv.fromStr plainManifest = .ok plainManifest := rfl
  have hd : digestOf roundingEnv "sig" plainManifest = "sha256:5" := by decide +kernel
  have hch : checkSignature roundingEnv signedManifest (some ⟨roundingPair.pem, "sig"⟩) =
      .ok () := by
    refine (checkSignature_annotated rfl hbc).2 ?_
    rw [← hd]
    exact roundingPair.verify_sign _
  have ha : ∀ manifest ∈ [(signedManifest, "sig"), (plainManifest, "sig")], ∀ text,
      canonicalizeManifest roundingEnv manifest.1 manifest.2 = .ok text →
        text = sortKeys (unsigned "sig" plainManifest) := by
    simp only [forall_mem_cons, canonicalizeManifest_eq_ok_iff, hbc, hrd, ok.injEq]
    refine ⟨?_, ?_, forall_mem_nil _⟩
    · rintro text ⟨_, rfl, rfl⟩
      exact congrArg sortKeys (unsigned_annotated rfl)
    · rintro text ⟨_, rfl, rfl⟩
      rfl
  have hc : NoCollision roundingEnv [(signedManifest, "sig"), (plainManifest, "sig")] :=
    fun left hl right hr text text' ht ht' _ =>
      (ha left hl text ht).trans (ha right hr text' ht').symm
  have hs : roundingPair.Unforgeable roundingEnv [(plainManifest, "sig")] {"sha256:5"} := by
    rintro digest _ rfl hv
    refine ⟨_, mem_singleton_self _, ?_⟩
    rw [signingPayload_eq_digestOf hrd, hd, of_decide_eq_true hv]
  refine ⟨hc, hs, hch, ?_⟩
  have hk : ∀ signature, Carries roundingEnv signedManifest "sig" signature →
      signature ∈ ({"sha256:5"} : Set String) := by
    rintro signature ⟨value, sigB64, sigBytes, hv, hsg, hb, hdr⟩
    obtain rfl := ok.inj (hbc.symm.trans hv)
    obtain rfl : "sha256:5" = sigB64 := Option.some.inj hsg
    obtain rfl : "sha256:5" = sigBytes := ok.inj hb
    exact (ok.inj hdr).symm
  obtain ⟨manifest, hm, h⟩ := (signature_binds roundingEnv roundingPair "sig").2 _ _ _ hc hs hk hch
  rw [mem_singleton.1 hm] at h
  exact h

/-- **A number that is not read back**: what is signed is not accepted. -/
theorem float_breaks_signature :
    let manifest : Value ℕ := .object [("x", .number 94527069555392230)]
    ∃ body contentType, inject roundingEnv roundingPair.sign manifest "sig" =
      .ok (body, contentType) ∧
    checkSignature roundingEnv body (some ⟨roundingPair.pem, "sig"⟩) ≠ .ok () := by
  intro manifest
  have hr : roundingEnv.fromStr manifest = .ok (.object [("x", .number 9452706955539223)]) := rfl
  obtain ⟨contentType, hi⟩ := @inject_eq _ _ _ _ _ roundingEnv roundingPair "sig" _ _ [] hr rfl
  refine ⟨_, contentType, hi, fun ha => ?_⟩
  have hb : ∀ signature, roundingEnv.fromStr
      (annotated "sig" signature [] [("x", .number 9452706955539223)]) =
        .ok (annotated "sig" signature [] [("x", .number 9452706955539224)]) := fun _ => rfl
  have hv := (checkSignature_annotated rfl (hb _)).1 ha
  exact absurd (of_decide_eq_true hv) (by decide +kernel)

end Muak.Koci.Signature
