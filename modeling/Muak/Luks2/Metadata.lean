import Muak.Foundations.Bytes
import Muak.Foundations.Dict
import Muak.Foundations.Result

/-!
# LUKS2 metadata

`libs/luks2/src/metadata.rs` and `error.rs`: the metadata of a volume, which is kept as JSON text
in an area of a fixed size.

* `fromJsonBuffer_toJsonBuffer`: what is written into the area is read back.
* `segments_setTpm2Token`: setting the token of a volume leaves its segments alone.

JSON itself is a parameter, `JsonCodec`: texts without zero bytes that are read back as the maps
they were made from, in whatever order these are iterated over.
-/

namespace Muak.Luks2

open Muak.Bytes

/-- Why a volume is refused. -/
inductive Luks2Error
  | invalidMagic
  | unsupportedVersion (version : UInt16)
  | checksumMismatch
  | unsupportedKdf (type : String)
  | noKeyslot
  | noTpm2Token
  | wrongPassphrase
  | json (message : String)
  | io (message : String)
  | argon2 (message : String)
  | base64 (message : String)
  | invalidField (message : String)
deriving DecidableEq

abbrev Result := Except Luks2Error

/-! ## The metadata of a volume -/

/-- Parameters of the key derivation. -/
structure Kdf where
  type : String
  salt : String
  time : Option UInt32
  memory : Option UInt32
  cpus : Option UInt32

/-- Parameters of the anti-forensic splitter. -/
structure AntiForensic where
  type : String
  stripes : UInt32
  hash : String

/-- Where a keyslot lies, and how it is encrypted. -/
structure KeyslotArea where
  type : String
  offset : String
  size : String
  encryption : String
  keySize : UInt32

/-- How a volume key is kept. -/
structure Keyslot where
  type : String
  keySize : UInt32
  kdf : Kdf
  af : AntiForensic
  area : KeyslotArea

/-- An encrypted data segment. -/
structure Segment where
  type : String
  offset : String
  ivTweak : String
  size : String
  encryption : String
  sectorSize : UInt32

/-- A digest of the volume key. -/
structure Digest where
  type : String
  keyslots : List String
  segments : List String
  hash : String
  iterations : UInt32
  salt : String
  value : String

/-- The sizes of the areas. -/
structure Config where
  jsonSize : String
  keyslotsSize : String

/-- What the TPM needs to give the passphrase. -/
structure Tpm2Token where
  type : String
  keyslots : List String
  tpm2Pcrs : List UInt32
  tpm2HashAlg : String
  tpm2Blob : String
  tpm2PolicyHash : String

/-- A token as a JSON value: one made from a `Tpm2Token`, or any other value, of which only the
type is looked at. -/
inductive TokenValue
  | serialized (token : Tpm2Token)
  | other (type : Option String) (text : String)

/-- The `type` of a token, when it has one and it is a string. -/
def TokenValue.type : TokenValue → Option String
  | .serialized token => some token.type
  | .other type _ => type

structure Metadata where
  keyslots : Dict String Keyslot
  tokens : Dict String TokenValue
  segments : Dict String Segment
  digests : Dict String Digest
  config : Config

def cipherSpec : String := "aes-xts-plain64"

def defaultHeaderSize : ℕ := 16 * 1024 * 1024

def defaultJsonSize : ℕ := 12288

def defaultKeyslotAreaOffset : ℕ := 0x8000

def defaultKeyslotAreaSize : ℕ := 64 * 4000

def defaultKeyslotsSize : ℕ := 16744448

def volumeKeySize : ℕ := 64

def afStripes : UInt32 := 4000

/-- The data segment that `format` announces. -/
def defaultSegment (sectorSize : UInt32) : Segment where
  type := "crypt"
  offset := toString defaultHeaderSize
  ivTweak := "0"
  size := "dynamic"
  encryption := cipherSpec
  sectorSize := sectorSize

namespace Metadata

/-- Metadata of one segment. -/
def new (sectorSize : UInt32) : Metadata where
  keyslots := .empty
  tokens := .empty
  segments := Dict.empty.insert "0" (defaultSegment sectorSize)
  digests := .empty
  config := ⟨toString defaultJsonSize, toString defaultKeyslotsSize⟩

variable (metadata : Metadata)

/-- `salt` is in Base64. -/
def addKeyslot (id salt : String) : Metadata :=
  { metadata with
    keyslots := metadata.keyslots.insert id
      { type := "luks2"
        keySize := UInt32.ofNat volumeKeySize
        kdf := ⟨"argon2id", salt, some 1, some 0x00010000, some 4⟩
        af := ⟨"luks1", afStripes, "sha256"⟩
        area := ⟨"raw", toString defaultKeyslotAreaOffset, toString defaultKeyslotAreaSize,
          cipherSpec, UInt32.ofNat volumeKeySize⟩ } }

/-! ## The token -/

/-- The first number from `next` on that is not the id of a token. More than `tokens.keys.length`
numbers need not be tried. -/
def allocId (tokens : Dict String TokenValue) : (fuel next : ℕ) → String
  | 0, next => toString next
  | fuel + 1, next =>
    if toString next ∈ tokens.keys then allocId tokens fuel (next + 1) else toString next

/-- The place of the token, or a free one. -/
def findOrAllocTpm2TokenId : String :=
  match metadata.tokens.entries.find? fun entry => entry.2.type = some "tpm2" with
  | some (id, _) => id
  | none => allocId metadata.tokens metadata.tokens.keys.length 0

/-- The token in the place of the one before. -/
def setTpm2Token (token : Tpm2Token) : Metadata :=
  { metadata with
    tokens := metadata.tokens.insert metadata.findOrAllocTpm2TokenId (.serialized token) }

@[simp] theorem segments_setTpm2Token (token : Tpm2Token) :
    (metadata.setTpm2Token token).segments = metadata.segments := rfl

/-- The same maps, whatever the order of their entries. -/
structure Same (left right : Metadata) : Prop where
  keyslots : ∀ id, left.keyslots.get? id = right.keyslots.get? id
  tokens : ∀ id, left.tokens.get? id = right.tokens.get? id
  segments : ∀ id, left.segments.get? id = right.segments.get? id
  digests : ∀ id, left.digests.get? id = right.digests.get? id
  config : left.config = right.config

theorem Same.refl : metadata.Same metadata :=
  ⟨fun _ => rfl, fun _ => rfl, fun _ => rfl, fun _ => rfl, rfl⟩

end Metadata

/-! ## The JSON area -/

/-- Writing and reading JSON. -/
structure JsonCodec where
  toVecPretty : Metadata → Bytes
  fromSlice : Bytes → Result Metadata
  zero_not_mem : ∀ metadata, 0 ∉ toVecPretty metadata
  /-- Of texts that fit the area. -/
  fromSlice_toVecPretty : ∀ metadata, (toVecPretty metadata).length ≤ defaultJsonSize →
    ∃ back, fromSlice (toVecPretty metadata) = .ok back ∧ back.Same metadata

namespace JsonCodec

variable (codec : JsonCodec)

/-- The area of `jsonSize` bytes: the text, then zeros. -/
def toJsonBuffer (metadata : Metadata) (jsonSize : ℕ) : Result Bytes :=
  let json := codec.toVecPretty metadata
  if json.length > jsonSize then
    .error (.invalidField ("JSON size " ++ toString json.length ++ " exceeds buffer size " ++
      toString jsonSize))
  else .ok (json ++ zeros (jsonSize - json.length))

/-- The text ends at the first zero byte. -/
def fromJsonBuffer (data : Bytes) : Result Metadata :=
  codec.fromSlice (data.takeWhile (· ≠ 0))

variable {codec} {metadata : Metadata} {jsonSize : ℕ} {buf : Bytes}

theorem toJsonBuffer_eq_ok_iff : codec.toJsonBuffer metadata jsonSize = .ok buf ↔
    (codec.toVecPretty metadata).length ≤ jsonSize ∧
      codec.toVecPretty metadata ++ zeros (jsonSize - (codec.toVecPretty metadata).length) =
        buf := by
  unfold toJsonBuffer
  simp only [gt_iff_lt]
  split_ifs with h
  · simp only [false_iff]
    omega
  · simp only [Except.ok.injEq, iff_and_self]
    omega

theorem length_toJsonBuffer (h : codec.toJsonBuffer metadata jsonSize = .ok buf) :
    buf.length = jsonSize := by
  obtain ⟨hle, rfl⟩ := toJsonBuffer_eq_ok_iff.1 h
  rw [List.length_append, length_zeros]
  omega

/-- **What is written into the area is read back.** -/
theorem fromJsonBuffer_toJsonBuffer (h : codec.toJsonBuffer metadata defaultJsonSize = .ok buf) :
    ∃ back, codec.fromJsonBuffer buf = .ok back ∧ back.Same metadata := by
  obtain ⟨hf, rfl⟩ := toJsonBuffer_eq_ok_iff.1 h
  have hj : (codec.toVecPretty metadata ++
      zeros (defaultJsonSize - (codec.toVecPretty metadata).length)).takeWhile (· ≠ 0) =
        codec.toVecPretty metadata := by
    rw [List.takeWhile_append_of_pos]
    · rw [zeros]
      simp
    · intro byte hb
      simp only [decide_not, Bool.not_eq_eq_eq_not, Bool.not_true, decide_eq_false_iff_not]
      rintro rfl
      exact codec.zero_not_mem metadata hb
  rw [fromJsonBuffer, hj]
  exact codec.fromSlice_toVecPretty metadata hf

end JsonCodec

end Muak.Luks2
