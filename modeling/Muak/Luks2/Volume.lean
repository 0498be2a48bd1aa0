import Muak.Foundations.Run
import Muak.Foundations.Text
import Muak.Luks2.Keyslot

/-!
# LUKS2 volumes

`libs/luks2/src/lib.rs` and `header.rs`: formatting a device, opening it, and writing its TPM2 token
while it is in use.

* `apart_formatWrites`: the writes of `format` do not meet, so that each can be read back.
* `mapped_of_openDevice`: what is mapped begins where the second copy of the header is written.
* `inUse_format`, `inUse_step`: a formatted volume announces one data segment for ever.
* `token_frame_iff`: which part of the mapped data no token write changes.

The device is a block device: a write past its end fails after the bytes that fit. Serialization and
cryptography are those of `JsonCodec` and `Crypto`, random bytes are given.
-/

namespace Muak.Luks2

open Muak.Bytes Muak.Text List Except

/-- What the volumes rest on. -/
structure Env where
  crypto : Crypto
  codec : JsonCodec

/-! ## The device -/

abbrev Device := Bytes

variable (device : Device) (env : Env)

def readAt (offset len : ℕ) : Result Bytes :=
  okOr (slice device offset len) (.io "failed to fill whole buffer")

/-- Data for the device, at an offset. -/
structure Write where
  offset : ℕ
  data : Bytes

/-- The device after the write, which past the end fails. -/
def writeAt (write : Write) : Device × Result Unit :=
  if write.offset + write.data.length ≤ device.length then
    (put device write.offset write.data, .ok ())
  else
    (put device write.offset (write.data.take (device.length - write.offset)),
      .error (.io "no space left on device"))

/-- Writes one after another, up to the first that fails. -/
def writeAll : Device → List Write → Device × Result Unit
  | device, [] => (device, .ok ())
  | device, write :: writes =>
    match writeAt device write with
    | (device, .ok ()) => writeAll device writes
    | (device, .error e) => (device, .error e)

/-- The sector size of the device, when the kernel tells a sensible one. -/
def normalizeSectorSize : Option UInt32 → UInt32
  | some size => if 512 ≤ size ∧ size &&& (size - 1) = 0 then size else 4096
  | none => 4096

/-! ## The binary header -/

def binaryHeaderSize : ℕ := 4096

def luksMagic : Bytes := [0x4c, 0x55, 0x4b, 0x53, 0xba, 0xbe]

/-- The header without its checksum, which is computed anew on every write. -/
structure Header where
  size : ℕ
  sequenceId : ℕ
  label : Bytes
  salt : Bytes
  uuid : Bytes
  subsystem : Bytes

/-- The first bytes of a text in a field of `width` bytes. -/
def textField (width limit : ℕ) (text : String) : Bytes :=
  let bytes := text.toUTF8.toList.take limit
  bytes ++ zeros (width - bytes.length)

namespace Header

/-- The label is cut so that a zero byte remains. -/
def new (uuid label : String) (salt : Bytes) : Header where
  size := defaultHeaderSize
  sequenceId := 1
  label := textField 48 47 label
  salt := salt
  uuid := textField 40 40 uuid
  subsystem := zeros 48

variable (crypto : Crypto) (header : Header)

/-- The checksum is that of the header with zeros in its place. -/
def serialize (isPrimary : Bool) : Bytes :=
  let buf := zeros binaryHeaderSize
  let buf := put buf 0 luksMagic
  let buf := put buf 6 (beBytes 2 2)
  let buf := put buf 8 (beBytes 8 header.size)
  let buf := put buf 16 (beBytes 8 header.sequenceId)
  let buf := put buf 24 header.label
  let buf := put buf 72 "sha256".toUTF8.toList
  let buf := put buf 104 header.salt
  let buf := put buf 168 header.uuid
  let buf := put buf 208 header.subsystem
  let buf := put buf 256 (beBytes 8 (if isPrimary then 0 else header.size))
  let buf := put buf 376 (zeros 64)
  put buf 376 (crypto.sha256 buf)

@[simp] theorem length_serialize (isPrimary : Bool) :
    (serialize crypto header isPrimary).length = binaryHeaderSize := by
  simp [serialize]

/-- The bytes of a field. -/
def field (data : Bytes) (start stop : ℕ) : Bytes := (data.drop start).take (stop - start)

/-- A header with the right magic, version and checksum. -/
def parse (data : Bytes) : Result Header :=
  if data.length < binaryHeaderSize then .error (.invalidField "header too short")
  else if field data 0 6 ≠ luksMagic then .error .invalidMagic
  else if ofBe (field data 6 8) ≠ 2 then
    .error (.unsupportedVersion (UInt16.ofNat (ofBe (field data 6 8))))
  else if crypto.sha256 (put (data.take binaryHeaderSize) 376 (zeros 64)) ≠ field data 376 408 then
    .error .checksumMismatch
  else .ok
    { size := ofBe (field data 8 16)
      sequenceId := ofBe (field data 16 24)
      label := field data 24 72
      salt := field data 104 168
      uuid := field data 168 208
      subsystem := field data 208 256 }

end Header

/-! ## Formatting -/

/-- The random bytes of one `format`. -/
structure Random where
  volumeKey : Bytes
  length_volumeKey : volumeKey.length = volumeKeySize
  kdfSalt : Bytes
  digestSalt : Bytes
  headerSalt : Bytes
  uuid : String
  stripes : ℕ → ℕ → UInt8

section

variable (crypto : Crypto)

/-- `digest::create`. -/
def createDigest (salt volumeKey : Bytes) (keyslotIds segmentIds : List String) : Digest where
  type := "pbkdf2"
  keyslots := keyslotIds
  segments := segmentIds
  hash := "sha256"
  iterations := 1000
  salt := crypto.encodeBase64 salt
  value := crypto.encodeBase64 (crypto.pbkdf2 volumeKey salt 1000)

/-- `digest::verify`. -/
def verifyDigest (volumeKey : Bytes) (digest : Digest) : Result Bool :=
  if digest.type ≠ "pbkdf2" then
    .error (.invalidField ("unsupported digest type: " ++ digest.type))
  else do
    let salt ← crypto.decodeBase64 digest.salt
    let expected ← crypto.decodeBase64 digest.value
    .ok (crypto.pbkdf2 volumeKey salt digest.iterations = expected)

/-- The metadata of a fresh volume. -/
def formatMetadata (random : Random) (sectorSize : UInt32) : Metadata :=
  let metadata := (Metadata.new sectorSize).addKeyslot "0"
    (crypto.encodeBase64 random.kdfSalt)
  { metadata with
    digests := metadata.digests.insert "0"
      (createDigest crypto random.digestSalt random.volumeKey ["0"] ["0"]) }

end

section

variable (env : Env) (device : Device) (random : Random) (passphrase : Bytes) (token : Tpm2Token)

/-- What `format` writes, in this order. -/
def formatWrites (sectorSize : UInt32) (passphrase : Bytes) (label : String) :
    Result (List Write) := do
  let hdr := Header.new random.uuid label random.headerSalt
  let metadata := formatMetadata env.crypto random sectorSize
  let keyslot ← okOr (metadata.keyslots.get? "0") .noKeyslot
  let keyslotData ← encryptKeyslot env.crypto random.stripes passphrase random.volumeKey keyslot
  let jsonBuf ← env.codec.toJsonBuffer metadata defaultJsonSize
  .ok [⟨0, hdr.serialize env.crypto true⟩, ⟨binaryHeaderSize, jsonBuf⟩,
    ⟨defaultKeyslotAreaOffset, keyslotData⟩,
    ⟨defaultHeaderSize, hdr.serialize env.crypto false⟩,
    ⟨defaultHeaderSize + binaryHeaderSize, jsonBuf⟩]

/-- `sectorSize` is what the kernel tells about the device. -/
def format (device : Device) (sectorSize : Option UInt32) (passphrase : Bytes)
    (label : String) : Device × Result Unit :=
  match formatWrites env random (normalizeSectorSize sectorSize) passphrase label with
  | .ok writes => writeAll device writes
  | .error e => (device, .error e)

/-! ## Opening -/

/-- The metadata of the first header. -/
def readMetadata : Result Metadata := do
  let jsonBuf ← readAt device binaryHeaderSize defaultJsonSize
  env.codec.fromJsonBuffer jsonBuf

/-- A digest of the slot confirms the key. -/
def verifyCandidate (candidate : Bytes) (slotId : String) (metadata : Metadata) : Bool :=
  metadata.digests.entries.any fun entry =>
    slotId ∈ entry.2.keyslots ∧ verifyDigest env.crypto candidate entry.2 = .ok true

/-- The keyslots in turn, until one yields a key with a matching digest. -/
def trySlots (device : Device) (passphrase : Bytes) (metadata : Metadata) :
    List (String × Keyslot) → Result Bytes
  | [] => .error .wrongPassphrase
  | (slotId, slot) :: slots => do
    let areaOffset ← okOr (parseU64 slot.area.offset) (.invalidField "invalid keyslot area offset")
    let areaSize ← okOr (parseU64 slot.area.size) (.invalidField "invalid keyslot area size")
    let encryptedData ← readAt device areaOffset areaSize
    match decryptKeyslot env.crypto passphrase slot encryptedData with
    | .error _ => trySlots device passphrase metadata slots
    | .ok candidate =>
      if verifyCandidate env candidate slotId metadata then .ok candidate
      else trySlots device passphrase metadata slots

/-- The volume key from the first slot that gives it. -/
def tryKeyslots (metadata : Metadata) : Result Bytes :=
  trySlots env device passphrase metadata (metadata.keyslots.entries.mergeSort fun a b => a.1 ≤ b.1)

/-- What is mapped: sectors of 512 bytes of the device, as a crypt target. -/
structure CryptParams where
  volumeKey : Bytes
  offsetSectors : ℕ
  sizeSectors : ℕ
  sectorSize : UInt32

/-- `open`. -/
def openDevice : Result CryptParams := do
  let hdrBuf ← readAt device 0 binaryHeaderSize
  let _ ← Header.parse env.crypto hdrBuf
  let metadata ← readMetadata env device
  let volumeKey ← tryKeyslots env device passphrase metadata
  let segment ← okOr (metadata.segments.get? "0") (.invalidField "no segment 0")
  let dataOffset ← okOr (parseU64 segment.offset) (.invalidField "invalid segment offset")
  .ok ⟨volumeKey, dataOffset / 512, (device.length - dataOffset) / 512, segment.sectorSize⟩

/-! ## The token -/

/-- The metadata with the token, in both headers. -/
def tokenWrites : Result (List Write) := do
  let metadata ← readMetadata env device
  let newJson ← env.codec.toJsonBuffer (metadata.setTpm2Token token) defaultJsonSize
  .ok [⟨binaryHeaderSize, newJson⟩, ⟨defaultHeaderSize + binaryHeaderSize, newJson⟩]

def writeTpm2Token : Device × Result Unit :=
  match tokenWrites env device token with
  | .ok writes => writeAll device writes
  | .error e => (device, .error e)

/-- What happens to a volume that is mapped. -/
inductive Op
  | token (token : Tpm2Token)
  /-- A write through the mapping, with the bytes that reach the device. -/
  | data (offset : ℕ) (bytes : Bytes)

end

/-- One such operation on the device that is mapped with these parameters. -/
def step (params : CryptParams) (device : Device) : Op → Device
  | .token token => (writeTpm2Token env device token).1
  | .data offset bytes =>
    if offset + bytes.length ≤ params.sizeSectors * 512 then
      put device (params.offsetSectors * 512 + offset) bytes
    else device

/-- The data writes stay within a part of the mapping. -/
def Op.Within (used : ℕ → Prop) : Op → Prop
  | .token _ => True
  | .data offset bytes => ∀ i, offset ≤ i → i < offset + bytes.length → used i

/-- A token write leaves this part as it is. -/
def Keeps (params : CryptParams) (used : ℕ → Prop) (device : Device) : Op → Prop
  | .token token => ∀ i, used i →
    (writeTpm2Token env device token).1[params.offsetSectors * 512 + i]? =
      device[params.offsetSectors * 512 + i]?
  | .data _ _ => True

/-- A part of the mapping is safe if token writes never change it, as long as only this part is
used. -/
def Safe (params : CryptParams) (device : Device) (used : ℕ → Prop) : Prop :=
  ∀ ops : List Op, (∀ op ∈ ops, op.Within used) →
    Along (step env params) (Keeps env params used) device ops

/-- A write covers a byte of the device. -/
def Write.Covers (write : Write) (i : ℕ) : Prop :=
  write.offset ≤ i ∧ i < write.offset + write.data.length

/-- The mapping covers a byte of the device. -/
def CryptParams.Covers (params : CryptParams) (i : ℕ) : Prop :=
  params.offsetSectors * 512 ≤ i ∧ i < (params.offsetSectors + params.sizeSectors) * 512

/-- One of the two ends before the other begins. -/
def Write.Apart (left right : Write) : Prop :=
  left.offset + left.data.length ≤ right.offset ∨ right.offset + right.data.length ≤ left.offset

/-- A byte of the mapping that is under the second copy of the JSON. -/
def SecondJson (i : ℕ) : Prop := binaryHeaderSize ≤ i ∧ i < binaryHeaderSize + defaultJsonSize

/-! ## Writing -/

/-- The device after writes that all fit. -/
def putAll (writes : List Write) : Device :=
  writes.foldl (fun device write => put device write.offset write.data) device

theorem writeAll_eq_ok_iff {device device' : Device} {writes : List Write} :
    writeAll device writes = (device', .ok ()) ↔
      (∀ write ∈ writes, write.offset + write.data.length ≤ device.length) ∧
        putAll device writes = device' := by
  induction writes generalizing device with
  | nil => simp [writeAll, putAll]
  | cons write writes ih =>
    unfold writeAll writeAt
    by_cases hf : write.offset + write.data.length ≤ device.length
    · simp [hf, ih, putAll]
    · simp [hf]

@[simp] theorem length_putAll (writes : List Write) :
    (putAll device writes).length = device.length := by
  induction writes generalizing device with
  | nil => rfl
  | cons write writes ih => exact (ih _).trans (length_put ..)

/-- Writes that do not meet can all be read back. -/
theorem slice_putAll {device : Device} {writes : List Write} {write : Write}
    (hap : writes.Pairwise Write.Apart)
    (hf : ∀ write ∈ writes, write.offset + write.data.length ≤ device.length)
    (hm : write ∈ writes) :
    slice (putAll device writes) write.offset write.data.length = some write.data := by
  have hl {device : Device} {writes : List Write} (h : ∀ other ∈ writes, write.Apart other) :
      slice (putAll device writes) write.offset write.data.length =
        slice device write.offset write.data.length := by
    induction writes generalizing device with
    | nil => rfl
    | cons other writes ih =>
      obtain ⟨ho, h⟩ := forall_mem_cons.1 h
      exact (ih h).trans (slice_put_of_disjoint ho.symm)
  induction writes generalizing device with
  | nil => cases hm
  | cons first writes ih =>
    obtain ⟨hfr, hf⟩ := forall_mem_cons.1 hf
    obtain ⟨hlt, hap⟩ := pairwise_cons.1 hap
    rcases mem_cons.1 hm with rfl | hm
    · exact (hl hlt).trans (slice_put hfr rfl)
    · exact ih hap (by simpa using hf) hm

section

variable {env : Env} {device device' : Device} {metadata : Metadata} {token : Tpm2Token}
  {sectorSize : Option UInt32} {label : String} {keyslot : Keyslot} {params : CryptParams}
  {writes : List Write}

theorem readMetadata_eq_ok_iff : readMetadata env device = .ok metadata ↔
    ∃ jsonBuf, slice device binaryHeaderSize defaultJsonSize = some jsonBuf ∧
      env.codec.fromJsonBuffer jsonBuf = .ok metadata := by
  unfold readMetadata readAt
  simp [bind_eq_ok_iff, okOr_eq_ok_iff]

/-- The device has room for all regions. -/
abbrev Room (device : Device) : Prop :=
  defaultHeaderSize + binaryHeaderSize + defaultJsonSize ≤ device.length

/-- A volume in use: there is room, and the metadata announce the data segment of `format`. -/
structure InUse (env : Env) (device : Device) : Prop where
  size : Room device
  segment : ∃ metadata sectorSize, readMetadata env device = .ok metadata ∧
    metadata.segments.get? "0" = some (defaultSegment sectorSize)

theorem parseU64_offset (sectorSize : UInt32) :
    parseU64 (defaultSegment sectorSize).offset = some defaultHeaderSize :=
  (by decide +kernel : parseU64 (toString defaultHeaderSize) = some defaultHeaderSize)

/-- What the metadata are read back as, once the area holds their JSON. -/
theorem exists_readMetadata {jsonBuf : Bytes}
    (hs : slice device binaryHeaderSize defaultJsonSize = some jsonBuf)
    (hj : env.codec.toJsonBuffer metadata defaultJsonSize = .ok jsonBuf) :
    ∃ back, readMetadata env device = .ok back ∧ back.Same metadata := by
  obtain ⟨back, hb, hsm⟩ := JsonCodec.fromJsonBuffer_toJsonBuffer hj
  exact ⟨back, readMetadata_eq_ok_iff.2 ⟨jsonBuf, hs, hb⟩, hsm⟩

variable {random : Random}

theorem keyslot_formatMetadata {crypto : Crypto} {sectorSize : UInt32}
    (h : (formatMetadata crypto random sectorSize).keyslots.get? "0" = some keyslot) :
    keyslot.keySize = 64 ∧ keyslot.af.stripes = afStripes := by
  simp only [formatMetadata, Metadata.addKeyslot, Dict.get?_insert_self, Option.some.injEq] at h
  rw [← h]
  exact ⟨rfl, rfl⟩

variable {passphrase : Bytes}

/-- What `format` writes: five regions, in this order. -/
theorem formatWrites_eq_ok {sectorSize : UInt32}
    (h : formatWrites env random sectorSize passphrase label = .ok writes) :
    ∃ keyslot keyslotData jsonBuf,
      (formatMetadata env.crypto random sectorSize).keyslots.get? "0" = some keyslot ∧
      encryptKeyslot env.crypto random.stripes passphrase random.volumeKey keyslot =
        .ok keyslotData ∧
      env.codec.toJsonBuffer (formatMetadata env.crypto random sectorSize) defaultJsonSize =
        .ok jsonBuf ∧
      keyslotData.length = defaultKeyslotAreaSize ∧ jsonBuf.length = defaultJsonSize ∧
      writes = [⟨0, (Header.new random.uuid label random.headerSalt).serialize env.crypto true⟩,
        ⟨binaryHeaderSize, jsonBuf⟩, ⟨defaultKeyslotAreaOffset, keyslotData⟩,
        ⟨defaultHeaderSize,
          (Header.new random.uuid label random.headerSalt).serialize env.crypto false⟩,
        ⟨defaultHeaderSize + binaryHeaderSize, jsonBuf⟩] := by
  obtain ⟨keyslot, hk, h⟩ := of_bind h
  obtain ⟨keyslotData, hd, h⟩ := of_bind h
  obtain ⟨jsonBuf, hj, h⟩ := of_bind h
  obtain ⟨-, hs⟩ := keyslot_formatMetadata (okOr_eq_ok_iff.1 hk)
  refine ⟨keyslot, keyslotData, jsonBuf, okOr_eq_ok_iff.1 hk, hd, hj, ?_,
    JsonCodec.length_toJsonBuffer hj, (ok.inj h).symm⟩
  rw [length_encryptKeyslot random.length_volumeKey (by rw [hs]; decide) hd, hs]
  rfl

/-- **The writes of `format` do not meet.** -/
theorem apart_formatWrites {sectorSize : UInt32}
    (h : formatWrites env random sectorSize passphrase label = .ok writes) :
    writes.Pairwise Write.Apart := by
  obtain ⟨keyslot, keyslotData, jsonBuf, -, -, -, hk, hlen, rfl⟩ := formatWrites_eq_ok h
  simp only [pairwise_cons, forall_mem_cons, not_mem_nil, Write.Apart, hk, hlen,
    Header.length_serialize, false_implies, implies_true, and_true, List.Pairwise.nil]
  decide

section

variable (h : format env random device sectorSize passphrase label = (device', .ok ()))

include h

theorem format_eq_ok : ∃ writes,
    formatWrites env random (normalizeSectorSize sectorSize) passphrase label = .ok writes ∧
      ∀ write ∈ writes, write.offset + write.data.length ≤ device'.length ∧
        slice device' write.offset write.data.length = some write.data := by
  unfold format at h
  split at h
  · next writes hw =>
    obtain ⟨hf, rfl⟩ := writeAll_eq_ok_iff.1 h
    refine ⟨writes, hw, fun write hm => ⟨?_, slice_putAll (apart_formatWrites hw) hf hm⟩⟩
    rw [length_putAll]
    exact hf write hm
  · exact absurd (Prod.ext_iff.1 h).2 (by simp)

/-- **What `format` leaves behind**: its metadata, on a device with room for all regions. -/
theorem readMetadata_format : Room device' ∧ ∃ metadata, readMetadata env device' = .ok metadata ∧
      metadata.Same (formatMetadata env.crypto random (normalizeSectorSize sectorSize)) := by
  obtain ⟨writes, hw, ha⟩ := format_eq_ok h
  obtain ⟨keyslot, keyslotData, jsonBuf, -, -, hj, hk, hlen, rfl⟩ := formatWrites_eq_ok hw
  simp only [forall_mem_cons, hlen] at ha
  exact ⟨ha.2.2.2.2.1.1, exists_readMetadata ha.2.1.2 hj⟩

theorem inUse_format : InUse env device' := by
  obtain ⟨hsz, metadata, hr, hs⟩ := readMetadata_format h
  refine ⟨hsz, metadata, normalizeSectorSize sectorSize, hr, ?_⟩
  rw [hs.segments]
  simp [formatMetadata, Metadata.addKeyslot, Metadata.new]

end

/-- Formatting succeeds on every device that is large enough, once the JSON fits and a key is
derived. -/
theorem exists_format {derivedKey jsonBuf : Bytes} (hsz : Room device)
    (hk : (formatMetadata env.crypto random
      (normalizeSectorSize sectorSize)).keyslots.get? "0" = some keyslot)
    (hd : deriveKey env.crypto passphrase keyslot = .ok derivedKey)
    (hj : env.codec.toJsonBuffer
      (formatMetadata env.crypto random (normalizeSectorSize sectorSize)) defaultJsonSize =
        .ok jsonBuf) :
    ∃ device', format env random device sectorSize passphrase label = (device', .ok ()) := by
  obtain ⟨hky, hs⟩ := keyslot_formatMetadata hk
  obtain ⟨keyslotData, hdt⟩ := @encryptKeyslot_eq_ok env.crypto passphrase keyslot random.stripes
    random.volumeKey random.length_volumeKey (by rw [hs]; decide) hky derivedKey hd
  have hw : ∃ writes, formatWrites env random (normalizeSectorSize sectorSize) passphrase
      label = .ok writes := by
    rw [formatWrites, hk, okOr_some, ok_bind, hdt, hj]
    exact ⟨_, rfl⟩
  obtain ⟨writes, hw⟩ := hw
  refine ⟨putAll device writes, ?_⟩
  rw [format, hw]
  refine writeAll_eq_ok_iff.2 ⟨?_, rfl⟩
  obtain ⟨keyslot, keyslotData, jsonBuf, -, -, -, hk, hlen, rfl⟩ := formatWrites_eq_ok hw
  simp only [forall_mem_cons, hk, hlen, Header.length_serialize, not_mem_nil,
    false_implies, implies_true, and_true]
  simp only [Room, defaultHeaderSize, defaultKeyslotAreaOffset, defaultKeyslotAreaSize] at hsz ⊢
  omega

/-- **What a token write does**: nothing, when the JSON is too long, or the new JSON at its two
places. -/
theorem writeTpm2Token_cases (hs : Room device) (hr : readMetadata env device = .ok metadata)
    (token : Tpm2Token) :
    (∃ e, env.codec.toJsonBuffer (metadata.setTpm2Token token) defaultJsonSize = .error e ∧
      writeTpm2Token env device token = (device, .error e)) ∨
    ∃ newJson, env.codec.toJsonBuffer (metadata.setTpm2Token token) defaultJsonSize = .ok newJson ∧
      newJson.length = defaultJsonSize ∧ writeTpm2Token env device token =
        (put (put device binaryHeaderSize newJson) (defaultHeaderSize + binaryHeaderSize) newJson,
          .ok ()) := by
  unfold writeTpm2Token tokenWrites
  rw [hr, ok_bind]
  cases hj : env.codec.toJsonBuffer (metadata.setTpm2Token token) defaultJsonSize with
  | error e => exact .inl ⟨e, rfl, rfl⟩
  | ok newJson =>
    have hlen := JsonCodec.length_toJsonBuffer hj
    refine .inr ⟨newJson, rfl, hlen, writeAll_eq_ok_iff.2 ⟨?_, rfl⟩⟩
    simp only [forall_mem_cons, not_mem_nil, false_implies, implies_true, and_true]
    omega

/-- The new JSON is in the first area; the second copy is behind it. -/
theorem slice_newJson {newJson : Bytes} (hs : Room device)
    (hlen : newJson.length = defaultJsonSize) :
    slice (put (put device binaryHeaderSize newJson) (defaultHeaderSize + binaryHeaderSize) newJson)
      binaryHeaderSize defaultJsonSize = some newJson := by
  rw [slice_put_of_disjoint (.inr (by decide)), slice_put _ hlen]
  omega

section

variable (hp : params.offsetSectors * 512 = defaultHeaderSize)

include hp

/-- The metadata are before what is mapped. -/
theorem readMetadata_data (offset : ℕ) (bytes : Bytes) :
    readMetadata env (step env params device (.data offset bytes)) = readMetadata env device := by
  have hb : binaryHeaderSize + defaultJsonSize ≤ defaultHeaderSize := by decide
  simp only [step]
  split_ifs
  · rw [readMetadata, readAt, slice_put_of_disjoint (.inr (by omega))]
    rfl
  · rfl

theorem inUse_step (op : Op) (h : InUse env device) : InUse env (step env params device op) := by
  obtain ⟨metadata, sectorSize, hr, hs⟩ := h.segment
  cases op with
  | token token =>
    simp only [step]
    obtain ⟨e, -, hw⟩ | ⟨newJson, hj, hlen, hw⟩ := writeTpm2Token_cases h.size hr token
    · rw [hw]
      exact h
    · rw [hw]
      obtain ⟨back, hb, hsm⟩ := exists_readMetadata (slice_newJson h.size hlen) hj
      refine ⟨by simpa using h.size, back, sectorSize, hb, ?_⟩
      rw [hsm.segments, Metadata.segments_setTpm2Token, hs]
  | data offset bytes =>
    refine ⟨?_, metadata, sectorSize, (readMetadata_data hp offset bytes).trans hr, hs⟩
    simp only [step]
    split_ifs
    · simpa using h.size
    · exact h.size

variable {used : ℕ → Prop}

/-- The second copy of the JSON is all that a token write changes of the data. -/
theorem keeps_of_inUse (hu : ∀ i, used i → ¬SecondJson i) (op : Op) (h : InUse env device) :
    Keeps env params used device op := by
  obtain ⟨metadata, sectorSize, hr, -⟩ := h.segment
  cases op with
  | data offset bytes => trivial
  | token token =>
    intro i hi
    have hni := hu i hi
    have hb : binaryHeaderSize + defaultJsonSize ≤ defaultHeaderSize := by decide
    have hs := h.size
    unfold SecondJson at hni
    obtain ⟨e, -, hw⟩ | ⟨newJson, -, hlen, hw⟩ := writeTpm2Token_cases h.size hr token
    · rw [hw]
    · rw [hw, getElem?_put (by rw [length_put]; omega), if_neg (by omega),
        getElem?_put (by omega), if_neg (by omega)]

theorem safe_of_disjoint (h : InUse env device) (hu : ∀ i, used i → ¬SecondJson i) :
    Safe env params device used := fun ops _ =>
  along_of_invariant (InUse env) (fun _ op hd => inUse_step hp op hd)
    (fun _ op hd => keeps_of_inUse hp hu op hd) h ops

/-- A byte under the second copy of the JSON is lost once it differs from it. -/
theorem disjoint_of_safe (h : InUse env device)
    (hm : binaryHeaderSize + defaultJsonSize ≤ params.sizeSectors * 512)
    (ht : (writeTpm2Token env device token).2 = .ok ())
    (hs : Safe env params device used) : ∀ i, used i → ¬SecondJson i := by
  rintro i hi ⟨hge, hlt⟩
  obtain ⟨metadata, sectorSize, hr, -⟩ := h.segment
  obtain ⟨e, -, hw⟩ | ⟨newJson, hjs, hlen, -⟩ := writeTpm2Token_cases h.size hr token
  · rw [hw] at ht
    cases ht
  obtain ⟨old, ho⟩ : ∃ old, newJson[i - binaryHeaderSize]? = some old :=
    ⟨_, getElem?_eq_getElem (by omega)⟩
  have hsz := h.size
  -- another byte is written there, and then the same JSON as without it
  obtain ⟨-, hk, -⟩ := hs [.data i [old + 1], .token token] (by
    simp only [forall_mem_cons, Op.Within, length_singleton]
    exact ⟨fun j hj hlt => (show i = j by omega) ▸ hi, trivial, forall_mem_nil _⟩)
  have hd : step env params device (.data i [old + 1]) =
      put device (defaultHeaderSize + i) [old + 1] := by
    rw [step, if_pos (by rw [length_singleton]; omega), hp]
  obtain ⟨e, hjs', -⟩ | ⟨newJson', hjs', -, hw⟩ := writeTpm2Token_cases
    (inUse_step hp (.data i [old + 1]) h).size ((readMetadata_data hp i _).trans hr) token
  · cases hjs.symm.trans hjs'
  obtain rfl := ok.inj (hjs.symm.trans hjs')
  have hb := hk i hi
  rw [hw, hp, hd, getElem?_put (by rw [length_put, length_put]; omega), if_pos (by omega),
    getElem?_put (by rw [length_singleton]; omega), if_pos (by simp),
    show defaultHeaderSize + i - (defaultHeaderSize + binaryHeaderSize) = i - binaryHeaderSize
      by omega, ho] at hb
  simp at hb

end

/-- What `open` maps begins where the second copy of the header does, and has the second copies. -/
theorem mapped_of_openDevice (h : InUse env device)
    (ho : openDevice env device passphrase = .ok params) :
    params.offsetSectors * 512 = defaultHeaderSize ∧
      binaryHeaderSize + defaultJsonSize ≤ params.sizeSectors * 512 := by
  obtain ⟨hd, -, ho⟩ := of_bind ho
  obtain ⟨hdr, -, ho⟩ := of_bind ho
  obtain ⟨metadata, hr, ho⟩ := of_bind ho
  obtain ⟨volumeKey, -, ho⟩ := of_bind ho
  obtain ⟨segment, hs, ho⟩ := of_bind ho
  obtain ⟨dataOffset, hof, ho⟩ := of_bind ho
  obtain ⟨_, sectorSize, hr', hs'⟩ := h.segment
  cases hr.symm.trans hr'
  cases (okOr_eq_ok_iff.1 hs).symm.trans hs'
  cases (okOr_eq_ok_iff.1 hof).symm.trans (parseU64_offset sectorSize)
  cases ho
  have hsz := h.size
  dsimp only [Room, defaultHeaderSize, binaryHeaderSize, defaultJsonSize] at hsz ⊢
  omega

/-- The two places of the JSON are places of `format`. -/
theorem tokenWrites_eq_ok (h : tokenWrites env device token = .ok writes) :
    ∃ newJson, newJson.length = defaultJsonSize ∧
      writes = [⟨binaryHeaderSize, newJson⟩, ⟨defaultHeaderSize + binaryHeaderSize, newJson⟩] := by
  obtain ⟨metadata, -, h⟩ := of_bind h
  obtain ⟨newJson, hj, h⟩ := of_bind h
  exact ⟨newJson, JsonCodec.length_toJsonBuffer hj, (ok.inj h).symm⟩

end

/-- **Layout and token writes.** After `format` and `open`:

* No two writes of `format` meet, and those of them that meet what is mapped are the second copies,
  at its beginning.
* A token write has the places of the two copies of the JSON.
* The part of the mapped data that token writes never change is what is not under the second copy of
  the JSON; if a token can be written at all, everything under it can be lost. -/
theorem token_frame_iff (env : Env) (random : Random) (sectorSize : Option UInt32)
    (passphrase entered : Bytes) (label : String) {device device' : Device}
    {params : CryptParams}
    (h : format env random device sectorSize passphrase label = (device', .ok ()))
    (hopen : openDevice env device' entered = .ok params) :
    (∃ writes, formatWrites env random (normalizeSectorSize sectorSize) passphrase label =
        .ok writes ∧ writes.Pairwise Write.Apart ∧
      (∀ write ∈ writes, (∃ i, write.Covers i ∧ params.Covers i) ↔
        params.offsetSectors * 512 ≤ write.offset) ∧
      ∀ device token tokens, tokenWrites env device token = .ok tokens →
        tokens.Pairwise Write.Apart ∧
        ∀ write ∈ tokens, ∃ region ∈ writes, ∀ i, write.Covers i ↔ region.Covers i) ∧
    ∀ used : ℕ → Prop, ((∀ i, used i → ¬SecondJson i) → Safe env params device' used) ∧
      ∀ token, (writeTpm2Token env device' token).2 = .ok () → Safe env params device' used →
        ∀ i, used i → ¬SecondJson i := by
  have hi := inUse_format h
  obtain ⟨hp, hmapped⟩ := mapped_of_openDevice hi hopen
  refine ⟨?_, fun used => ⟨safe_of_disjoint hp hi, fun token => disjoint_of_safe hp hi hmapped⟩⟩
  obtain ⟨writes, hw, -⟩ := format_eq_ok h
  have hapart := apart_formatWrites hw
  obtain ⟨keyslot, keyslotData, jsonBuf, -, -, -, hk, hlen, rfl⟩ := formatWrites_eq_ok hw
  refine ⟨_, hw, hapart, ?_, fun device token tokens ht => ?_⟩
  · have hmeets (write : Write) (hpos : 0 < write.data.length)
        (hplace : write.offset + write.data.length ≤ defaultHeaderSize ∨
          defaultHeaderSize ≤ write.offset ∧
            write.offset < defaultHeaderSize + binaryHeaderSize + defaultJsonSize) :
        (∃ i, write.Covers i ∧ params.Covers i) ↔ params.offsetSectors * 512 ≤ write.offset := by
      unfold Write.Covers CryptParams.Covers
      exact ⟨fun ⟨i, hi⟩ => by omega, fun hle => ⟨write.offset, by omega⟩⟩
    simp only [forall_mem_cons]
    refine ⟨hmeets _ ?_ ?_, hmeets _ ?_ ?_, hmeets _ ?_ ?_, hmeets _ ?_ ?_, hmeets _ ?_ ?_,
      forall_mem_nil _⟩
    all_goals
      simp only [hk, hlen, Header.length_serialize]
      decide
  · obtain ⟨newJson, hnew, rfl⟩ := tokenWrites_eq_ok ht
    have hsame (offset i : ℕ) :
        Write.Covers ⟨offset, newJson⟩ i ↔ Write.Covers ⟨offset, jsonBuf⟩ i := by
      simp only [Write.Covers, hnew, hlen]
    constructor
    · rw [pairwise_pair, Write.Apart, hnew]
      exact .inl (by decide : binaryHeaderSize + defaultJsonSize ≤
        defaultHeaderSize + binaryHeaderSize)
    · simp only [forall_mem_cons]
      exact ⟨⟨_, .tail _ (.head _), hsame _⟩,
        ⟨_, .tail _ (.tail _ (.tail _ (.tail _ (.head _)))), hsame _⟩, forall_mem_nil _⟩

/-! ## A volume that loses data -/

/-- One kind of random bytes. -/
def plainRandom : Random where
  volumeKey := zeros volumeKeySize
  length_volumeKey := length_zeros _
  kdfSalt := []
  digestSalt := []
  headerSalt := zeros 64
  uuid := ""
  stripes := fun _ _ => 0

def plainToken : Tpm2Token := ⟨"tpm2", ["0"], [7], "sha256", "", ""⟩

/-- The metadata that `format` writes, and these with a token. -/
def plainMetadata : Metadata := formatMetadata plainCrypto plainRandom 4096

def sealedMetadata : Metadata := plainMetadata.setTpm2Token plainToken

open Classical in
/-- Texts for the two; any other metadata would not fit. -/
noncomputable def plainCodec : JsonCodec where
  toVecPretty metadata :=
    if metadata = plainMetadata then [1]
    else if metadata = sealedMetadata then [2]
    else replicate (defaultJsonSize + 1) 3
  fromSlice text := if text = [1] then .ok plainMetadata else .ok sealedMetadata
  zero_not_mem metadata := by
    split_ifs
    · decide
    · decide
    · rw [mem_replicate]
      exact fun h => absurd h.2 (by decide)
  fromSlice_toVecPretty metadata hfits := by
    by_cases hplain : metadata = plainMetadata
    · rw [if_pos hplain, if_pos rfl, hplain]
      exact ⟨_, rfl, .refl _⟩
    · rw [if_neg hplain] at hfits ⊢
      by_cases hsealed : metadata = sealedMetadata
      · rw [if_pos hsealed, if_neg (by decide), hsealed]
        exact ⟨_, rfl, .refl _⟩
      · rw [if_neg hsealed, length_replicate] at hfits
        omega

noncomputable def plainEnv : Env := ⟨plainCrypto, plainCodec⟩

theorem toJsonBuffer_plain : plainEnv.codec.toJsonBuffer plainMetadata defaultJsonSize =
    .ok ([1] ++ zeros (defaultJsonSize - 1)) := by
  refine JsonCodec.toJsonBuffer_eq_ok_iff.2 ?_
  simp only [plainEnv, plainCodec]
  exact ⟨by decide, rfl⟩

theorem tokens_sealedMetadata : (sealedMetadata.tokens.get? "0").isSome = true := by decide

theorem toJsonBuffer_sealed : plainEnv.codec.toJsonBuffer sealedMetadata defaultJsonSize =
    .ok ([2] ++ zeros (defaultJsonSize - 1)) := by
  have hne : sealedMetadata ≠ plainMetadata := by
    intro h
    exact absurd (h ▸ tokens_sealedMetadata) (by decide)
  refine JsonCodec.toJsonBuffer_eq_ok_iff.2 ?_
  simp only [plainEnv, plainCodec, hne]
  exact ⟨by decide, rfl⟩

theorem writeTpm2Token_plain {device : Device} (hs : Room device)
    (hr : readMetadata plainEnv device = .ok plainMetadata) :
    writeTpm2Token plainEnv device plainToken =
      (put (put device binaryHeaderSize ([2] ++ zeros (defaultJsonSize - 1)))
        (defaultHeaderSize + binaryHeaderSize) ([2] ++ zeros (defaultJsonSize - 1)), .ok ()) := by
  obtain ⟨e, hj, -⟩ | ⟨newJson, hj, -, hw⟩ := writeTpm2Token_cases hs hr plainToken
  · cases toJsonBuffer_sealed.symm.trans hj
  · rw [hw, ← ok.inj (toJsonBuffer_sealed.symm.trans hj)]

theorem exists_format_plain : ∃ device',
    format plainEnv plainRandom (zeros (2 ^ 25)) none [] "STATE" = (device', .ok ()) :=
  exists_format (by rw [Room, length_zeros]; decide) rfl rfl toJsonBuffer_plain

/-- After formatting, the metadata are read as they were. -/
theorem readMetadata_plain {device device' : Device}
    (h : format plainEnv plainRandom device none [] "STATE" = (device', .ok ())) :
    readMetadata plainEnv device' = .ok plainMetadata := by
  obtain ⟨-, metadata, hr, hs⟩ := readMetadata_format h
  obtain ⟨jsonBuf, -, hj⟩ := readMetadata_eq_ok_iff.1 hr
  simp only [JsonCodec.fromJsonBuffer, plainEnv, plainCodec] at hj
  split_ifs at hj
  · rw [hr, ok.inj hj]
  · have ht := tokens_sealedMetadata
    rw [ok.inj hj, hs.tokens] at ht
    exact absurd ht (by decide)

theorem exists_openDevice_plain {device device' : Device}
    (h : format plainEnv plainRandom device none [] "STATE" = (device', .ok ())) :
    ∃ params, openDevice plainEnv device' [] = .ok params := by
  obtain ⟨writes, hw, ha⟩ := format_eq_ok h
  obtain ⟨keyslot, keyslotData, jsonBuf, hk, hd, -, hlen, -, rfl⟩ := formatWrites_eq_ok hw
  simp only [forall_mem_cons, Header.length_serialize, hlen] at ha
  have hh : (Header.parse plainCrypto ((Header.new "" "STATE" (zeros 64)).serialize
    plainCrypto true)).map Header.size = .ok defaultHeaderSize := by decide +kernel
  obtain ⟨hdr, hhd, -⟩ := map_eq_ok_iff.1 hh
  have hsl : plainMetadata.keyslots.entries = [("0", keyslot)] := by
    rw [← Option.some.inj hk]
    rfl
  have ho : parseU64 keyslot.area.offset = some defaultKeyslotAreaOffset ∧
      parseU64 keyslot.area.size = some defaultKeyslotAreaSize := by
    rw [← Option.some.inj hk]
    decide +kernel
  have hky : tryKeyslots plainEnv device' [] plainMetadata = .ok plainRandom.volumeKey := by
    obtain ⟨-, hst⟩ := keyslot_formatMetadata hk
    have hdc := decryptKeyslot_encryptKeyslot plainRandom.length_volumeKey (by rw [hst]; decide) hd
    have hv : verifyCandidate plainEnv plainRandom.volumeKey "0" plainMetadata = true := by
      decide +kernel
    rw [tryKeyslots, hsl, mergeSort_singleton, trySlots, ho.1, okOr_some, ok_bind, ho.2,
      okOr_some, ok_bind, readAt, ha.2.2.1.2, okOr_some, ok_bind, hdc]
    dsimp only
    rw [if_pos hv]
  have hs : plainMetadata.segments.get? "0" = some (defaultSegment 4096) := rfl
  refine ⟨⟨plainRandom.volumeKey, defaultHeaderSize / 512,
    (device'.length - defaultHeaderSize) / 512, 4096⟩, ?_⟩
  rw [openDevice, readAt, ha.1.2, okOr_some, ok_bind]
  refine bind_eq_ok_iff.2 ⟨hdr, hhd, ?_⟩
  rw [readMetadata_plain h, ok_bind, hky, ok_bind, hs, okOr_some, ok_bind, parseU64_offset]
  rfl

theorem token_frame_iff_plain : ∃ device' params,
    format plainEnv plainRandom (zeros (2 ^ 25)) none [] "STATE" = (device', .ok ()) ∧
    openDevice plainEnv device' [] = .ok params ∧ ∀ used : ℕ → Prop,
      Safe plainEnv params device' used ↔ ∀ i, used i → ¬SecondJson i := by
  obtain ⟨device', h⟩ := exists_format_plain
  obtain ⟨params, ho⟩ := exists_openDevice_plain h
  obtain ⟨ha, hs⟩ := token_frame_iff plainEnv plainRandom none [] [] "STATE" h ho
  have ht : (writeTpm2Token plainEnv device' plainToken).2 = .ok () := by
    rw [writeTpm2Token_plain (inUse_format h).size (readMetadata_plain h)]
  exact ⟨device', params, h, ho, fun used => ⟨(hs used).2 plainToken ht, (hs used).1⟩⟩

/-- A byte that was written through the mapping is gone after a token write. -/
theorem data_overwritten : ∃ device' params,
    format plainEnv plainRandom (zeros (2 ^ 25)) none [] "STATE" = (device', .ok ()) ∧
    openDevice plainEnv device' [] = .ok params ∧
    let used := step plainEnv params device' (.data binaryHeaderSize [7])
    used[params.offsetSectors * 512 + binaryHeaderSize]? = some 7 ∧
    (writeTpm2Token plainEnv used plainToken).2 = .ok () ∧
    (writeTpm2Token plainEnv used plainToken).1[params.offsetSectors * 512 + binaryHeaderSize]? =
      some 2 := by
  obtain ⟨device', h⟩ := exists_format_plain
  obtain ⟨params, ho⟩ := exists_openDevice_plain h
  obtain ⟨hp, hm⟩ := mapped_of_openDevice (inUse_format h) ho
  have hr := (inUse_format h).size
  have hps : 1 ≤ defaultJsonSize := by decide
  have hu : step plainEnv params device' (.data binaryHeaderSize [7]) =
      put device' (defaultHeaderSize + binaryHeaderSize) [7] := by
    rw [step, if_pos (by rw [length_singleton]; omega), hp]
  have hw := writeTpm2Token_plain (inUse_step hp (.data binaryHeaderSize [7]) (inUse_format h)).size
    ((readMetadata_data hp binaryHeaderSize [7]).trans (readMetadata_plain h))
  refine ⟨device', params, h, ho, ?_⟩
  rw [hu] at hw ⊢
  dsimp only
  rw [hw, hp]
  refine ⟨?_, rfl, ?_⟩
  · rw [getElem?_put (by rw [length_singleton]; omega)]
    simp
  · have hlen : ([2] ++ zeros (defaultJsonSize - 1)).length = defaultJsonSize := by
      rw [length_append, length_singleton, length_zeros]
      omega
    rw [getElem?_put (by rw [length_put, length_put, hlen]; omega), if_pos (by omega)]
    simp

end Muak.Luks2
