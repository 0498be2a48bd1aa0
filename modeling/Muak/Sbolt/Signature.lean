import Mathlib.Data.List.Sort
import Muak.Sbolt.Siglist
import Muak.Uki.Metadata

/-!
# Signing an image

`toolchain/sbolt/src/signature/mod.rs` and `ops.rs`: an image is copied with two fields of its
header changed, and the table with the certificate is written after it.

* `sign`: one pass over the stream, with the bytes that are hashed.
* `Faithful`: what a signed image has to be.
* `sign_faithful_iff`: the table is announced at the end of the last section and written at the end
  of the stream, the padding before it is not hashed, and the part of the first 512 bytes behind the
  headers is dropped; a signature is faithful if there is nothing behind the last section, nothing
  to pad and nothing to drop.
-/

namespace Muak.Sbolt.Signature

open Bytes Uki List Except Nat

variable {Signer Certificate : Type} (metadata : Metadata)

/-! ## The source -/

/-- The digest, and the message in which it is signed. The length of the message depends on the
certificate only. -/
structure Authenticode (Signer Certificate : Type) where
  sha256 : Bytes → Bytes
  signedData : Bytes → Signer → Certificate → Result Bytes
  /-- The message with zeros for the digest and the signature. -/
  dummySignedData : Certificate → Result Bytes
  length_signedData : ∀ {digest signer certificate der dummy},
    signedData digest signer certificate = .ok der → dummySignedData certificate = .ok dummy →
      der.length = dummy.length

def peAlignment : ℕ := 8

variable (crypto : Authenticode Signer Certificate)

/-- `cert_table_size`. -/
def certTableSize (certificate : Certificate) : Result ℕ := do
  let der ← crypto.dummySignedData certificate
  if 2 ^ 64 ≤ der.length + 8 then .error (.signing "WIN_CERTIFICATE size overflow")
  else if 2 ^ 64 ≤ der.length + 8 + 7 then .error (.signing "alignment overflow")
  else .ok ((der.length + 8 + 7) &&& (2 ^ 64 - 1 - 7))

/-- `u32::try_from`, with the context of its failure. -/
def tryU32 (context : String) (value : ℕ) : Result ℕ :=
  if value < 2 ^ 32 then .ok value
  else .error (.peOperation (context ++ ": out of range integral type conversion attempted"))

/-- The signature with its header. -/
def buildWinCertificate (pkcs7Der : Bytes) : Result Bytes :=
  if 2 ^ 64 ≤ 8 + pkcs7Der.length then .error (.peOperation "WIN_CERTIFICATE size overflow")
  else do
    let totalSize ← tryU32 "WIN_CERTIFICATE exceeds u32" (8 + pkcs7Der.length)
    .ok (leBytes 4 totalSize ++ leBytes 2 0x0200 ++ leBytes 2 0x0002 ++ pkcs7Der)

/-- The loop of `hash_range_excluding`, with the bytes that are hashed. -/
def hashFrom (data : Bytes) (last : ℕ) : ℕ → List (ℕ × ℕ) → Result Bytes
  | pos, [] =>
    if pos < last then
      okOr (slice data pos (last - pos)) (.peOperation "hashed range exceeds file")
    else .ok []
  | pos, (offset, length) :: exclusions => do
    let range ← if pos < offset then
        okOr (slice data pos (offset - pos)) (.peOperation "excluded range exceeds file")
      else .ok []
    let rest ← hashFrom data last (offset + length) exclusions
    .ok (range ++ rest)

/-- The bytes of a range without those excluded. -/
def hashRangeExcluding (data : Bytes) (first last : ℕ) (exclusions : List (ℕ × ℕ)) : Result Bytes :=
  hashFrom data last first
    ((exclusions.filter fun e => first ≤ e.1 ∧ e.1 < last).insertionSort fun a b => a.1 ≤ b.1)

/-- Write a number of 32 bits. -/
def putU32Le (data : Bytes) (offset value : ℕ) : Result Bytes :=
  if data.length < offset + 4 then .error (.peOperation "write u32 beyond buffer")
  else .ok (put data offset (leBytes 4 value))

/-- `stream_sections`. -/
def streamSections (reader : Reader) (expected : ℕ) : Result (Bytes × Reader) :=
  if (reader.copy 4096 expected).1.length < expected then
    .error (.peOperation "truncated PE section data")
  else .ok (reader.copy 4096 expected)

/-- What was written, and the digest that was signed. -/
structure Signed where
  output : Bytes
  digest : Bytes

/-- `build_and_write_signature`, after `written` bytes. -/
def buildAndWriteSignature (signer : Signer) (certificate : Certificate) (digest : Bytes)
    (written : ℕ) : Result Bytes := do
  let pkcs7Der ← crypto.signedData digest signer certificate
  let winCert ← buildWinCertificate pkcs7Der
  let aligned ← (alignUp written peAlignment).mapError fun _ =>
    .peOperation "cert table alignment overflow"
  let certAligned ← (alignUp winCert.length peAlignment).mapError fun _ =>
    .peOperation "cert alignment overflow"
  .ok (zeros (aligned - written) ++ winCert ++ zeros (certAligned - winCert.length))

/-- The headers with the two fields set. -/
def patchHeaders (header : Bytes) (certTableVa certSize : ℕ) : Result Bytes := do
  let certTableVa ← tryU32 "cert table VA exceeds u32" certTableVa
  let certSize ← tryU32 "cert size exceeds u32" certSize
  let header ← putU32Le header (metadata.optionalHeaderOffset + 64) 0
  let header ← putU32Le header (metadata.optionalHeaderOffset + 144) certTableVa
  putU32Le header (metadata.optionalHeaderOffset + 148) certSize

/-- There is an entry for the table of certificates. -/
def checkDirectories : Result Unit :=
  if metadata.numDataDirectories ≤ 4 then
    .error (.peOperation "no certificate table data directory")
  else .ok ()

/-- The signed image, in one pass over the stream. -/
def sign [PeParser] (signer : Signer) (certificate : Certificate) (reader : Reader) :
    Result Signed := do
  let extracted ← (extract reader).mapError fun e => .peOperation e.display
  let metadata := extracted.metadata
  checkDirectories metadata
  let overflow := extracted.header.drop metadata.sizeOfHeaders
  let certSize ← certTableSize crypto certificate
  let certTableVa ← (alignUp metadata.lastSectionFileEnd peAlignment).mapError fun _ =>
    .peOperation "cert table VA overflow"
  let header ← patchHeaders metadata (extracted.header.take metadata.sizeOfHeaders) certTableVa
    certSize
  let hashed ← hashRangeExcluding header 0 metadata.sizeOfHeaders
    [(metadata.optionalHeaderOffset + 64, 4), (metadata.optionalHeaderOffset + 144, 8)]
  let streamed ← streamSections extracted.rest
    (metadata.lastSectionFileEnd - (metadata.sizeOfHeaders + overflow.length))
  let sections := overflow ++ streamed.1 ++ streamed.2.drain 4096
  let digest := crypto.sha256 (hashed ++ sections)
  let signature ← buildAndWriteSignature crypto signer certificate digest
    (metadata.sizeOfHeaders + sections.length)
  .ok ⟨header ++ sections ++ signature, digest⟩

/-! ## Faithful signatures -/

section

variable (crypto : Authenticode Signer Certificate) (signer : Signer) (certificate : Certificate)
  (input : Bytes)

/-- The offset of the optional header. -/
def optionalHeader : ℕ := (uintAt input 0x3C 4).getD 0 + 24

/-- The offset of the checksum, of four bytes. -/
def checkSum : ℕ := optionalHeader input + 64

/-- The offset of the entry for the certificate table, of eight bytes. -/
def securityEntry : ℕ := optionalHeader input + 144

/-- The number of zeros up to the next multiple of eight. -/
def padding (n : ℕ) : ℕ := (8 - n % 8) % 8

/-- Where the table belongs. -/
def tableOffset : ℕ := input.length + padding input.length

/-- The bytes that a digest is made of. -/
def authenticodeBytes (image : Bytes) : Bytes :=
  image.take (checkSum input) ++
    (image.drop (checkSum input + 4)).take (securityEntry input - (checkSum input + 4)) ++
    image.drop (securityEntry input + 8)

/-- The table with a message. -/
def certificateTable (der : Bytes) : Bytes :=
  leBytes 4 (8 + der.length) ++ leBytes 2 0x0200 ++ leBytes 2 0x0002 ++ der ++
    zeros (padding (8 + der.length))

/-- The input with the two fields changed, padded and followed by a table that the entry describes,
in which the digest of the rest is signed. -/
structure Faithful (signed : Signed) : Prop where
  unchanged : ∀ i < input.length, ¬(checkSum input ≤ i ∧ i < checkSum input + 4) →
    ¬(securityEntry input ≤ i ∧ i < securityEntry input + 8) → signed.output[i]? = input[i]?
  padded : ∀ i, input.length ≤ i → i < tableOffset input → signed.output[i]? = some 0
  table : ∃ der, crypto.signedData signed.digest signer certificate = .ok der ∧
    signed.output.drop (tableOffset input) = certificateTable der
  offset : uintAt signed.output (securityEntry input) 4 = some (tableOffset input)
  size : uintAt signed.output (securityEntry input + 4) 4 =
    some (signed.output.length - tableOffset input)
  digest : signed.digest =
    crypto.sha256 (authenticodeBytes input (signed.output.take (tableOffset input)))

/-- Nothing is dropped, nothing is padded, and there is nothing behind the last section. -/
structure Regular (metadata : Metadata) : Prop where
  headers : 512 ≤ metadata.sizeOfHeaders
  aligned : 8 ∣ input.length
  last : metadata.lastSectionFileEnd + padding metadata.lastSectionFileEnd = input.length

/-- The bytes that are hashed and those that are to be hashed have one digest only if they are the
same. -/
def NoCollision (metadata : Metadata) : Prop :=
  let rest := authenticodeBytes input (input.take metadata.sizeOfHeaders)
  let hashed := rest ++ input.drop (max 512 metadata.sizeOfHeaders)
  let expected := rest ++ (input.drop metadata.sizeOfHeaders ++ zeros (padding input.length))
  crypto.sha256 hashed = crypto.sha256 expected → hashed = expected

end

/-! ## The header in parts -/

/-- A header around the two fields. -/
structure Parts (start : ℕ) where
  before : Bytes
  checkSum : Bytes
  between : Bytes
  offset : Bytes
  size : Bytes
  after : Bytes
  length_before : before.length = start + 64
  length_checkSum : checkSum.length = 4
  length_between : between.length = 76
  length_offset : offset.length = 4
  length_size : size.length = 4

namespace Parts

variable {start : ℕ} (parts : Parts start)

def bytes : Bytes :=
  parts.before ++ parts.checkSum ++ parts.between ++ parts.offset ++ parts.size ++ parts.after

/-- What is left without the fields. -/
def rest : Bytes := parts.before ++ parts.between ++ parts.after

/-- The header after the fields were set. -/
def set (checkSum offset size : ℕ) : Parts start where
  before := parts.before
  checkSum := leBytes 4 checkSum
  between := parts.between
  offset := leBytes 4 offset
  size := leBytes 4 size
  after := parts.after
  length_before := parts.length_before
  length_checkSum := length_leBytes ..
  length_between := parts.length_between
  length_offset := length_leBytes ..
  length_size := length_leBytes ..

/-- The header with more behind it. -/
def append (tail : Bytes) : Parts start :=
  { parts with after := parts.after ++ tail }

@[simp] theorem bytes_append (tail : Bytes) : (parts.append tail).bytes = parts.bytes ++ tail := by
  simp [append, bytes]

@[simp] theorem rest_append (tail : Bytes) : (parts.append tail).rest = parts.rest ++ tail := by
  simp [append, rest]

theorem length_bytes : parts.bytes.length = start + 152 + parts.after.length := by
  simp only [bytes, length_append, length_before, length_checkSum, length_between, length_offset,
    length_size]

theorem length_bytes_set (checkSum offset size : ℕ) :
    (parts.set checkSum offset size).bytes.length = parts.bytes.length := by
  rw [length_bytes, length_bytes]
  rfl

/-- Any header that is long enough has these parts. -/
theorem exists_of_le {header : Bytes} (h : start + 152 ≤ header.length) :
    ∃ parts : Parts start, parts.bytes = header := by
  have hlen (i n : ℕ) (hin : i + n ≤ start + 152) : ((header.drop i).take n).length = n := by
    rw [length_take, length_drop]
    omega
  refine ⟨⟨header.take (start + 64), (header.drop (start + 64)).take 4,
    (header.drop (start + 68)).take 76, (header.drop (start + 144)).take 4,
    (header.drop (start + 148)).take 4, header.drop (start + 152),
    by rw [length_take]; omega, hlen _ _ (by omega), hlen _ _ (by omega),
    hlen _ _ (by omega), hlen _ _ (by omega)⟩, ?_⟩
  simp only [bytes, ← take_add]
  exact take_append_drop _ _

theorem offset_eq_some : uintAt parts.bytes (start + 144) 4 = some (ofLe parts.offset) := by
  have hs : (parts.before ++ parts.checkSum ++ parts.between).length = start + 144 := by
    simp [length_before, length_checkSum, length_between]
  rw [uintAt, bytes, append_assoc _ parts.size, slice_append hs parts.length_offset,
    Option.map_some]

theorem size_eq_some : uintAt parts.bytes (start + 148) 4 = some (ofLe parts.size) := by
  have hs : (parts.before ++ parts.checkSum ++ parts.between ++ parts.offset).length =
      start + 148 := by
    simp [length_before, length_checkSum, length_between, length_offset]
  rw [uintAt, bytes, slice_append hs parts.length_size, Option.map_some]

theorem put_fields (checkSum offset size : ℕ) :
    put (put (put parts.bytes (start + 64) (leBytes 4 checkSum)) (start + 144) (leBytes 4 offset))
      (start + 148) (leBytes 4 size) = (parts.set checkSum offset size).bytes := by
  have hc : put parts.bytes (start + 64) (leBytes 4 checkSum) = parts.before ++
      leBytes 4 checkSum ++ (parts.between ++ parts.offset ++ parts.size ++ parts.after) := by
    rw [← put_append parts.length_before (parts.length_checkSum.trans (length_leBytes ..).symm)]
    simp [bytes]
  have hs : (parts.before ++ leBytes 4 checkSum ++ parts.between).length = start + 144 := by
    simp [length_before, length_between]
  have ho := @put_append (leBytes 4 offset) _ (parts.size ++ parts.after) _ parts.offset hs
    (parts.length_offset.trans (length_leBytes ..).symm)
  simp only [append_assoc] at hc ho
  rw [hc, ho]
  have hsz := @put_append (leBytes 4 size) (parts.before ++ leBytes 4 checkSum ++ parts.between ++
    leBytes 4 offset) parts.after (start + 148) parts.size
    (by rw [length_append, hs, length_leBytes])
    (parts.length_size.trans (length_leBytes ..).symm)
  simp only [append_assoc] at hsz
  rw [hsz]
  simp [set, bytes]

theorem hashRangeExcluding_bytes :
    hashRangeExcluding parts.bytes 0 parts.bytes.length [(start + 64, 4), (start + 144, 8)] =
      .ok parts.rest := by
  have hlen := parts.length_bytes
  have hbf : slice parts.bytes 0 (start + 64) = some parts.before := by
    simp only [bytes, append_assoc]
    exact slice_append_left parts.length_before
  have hb : slice parts.bytes (start + 68) 76 = some parts.between := by
    simp only [bytes, append_assoc]
    rw [← append_assoc, ← append_assoc]
    exact slice_append (by simp [length_before, length_checkSum]) parts.length_between
  have ha : slice parts.bytes (start + 152) parts.after.length = some parts.after := by
    have hsl := @slice_append parts.after (parts.before ++ parts.checkSum ++ parts.between ++
      parts.offset ++ parts.size) [] (start + 152) _
      (by simp [length_before, length_checkSum, length_between, length_offset, length_size]) rfl
    rwa [append_nil] at hsl
  have hs : ([(start + 64, 4), (start + 144, 8)].filter fun e : ℕ × ℕ =>
      0 ≤ e.1 ∧ e.1 < parts.bytes.length).insertionSort (fun a b => a.1 ≤ b.1) =
        [(start + 64, 4), (start + 144, 8)] := by
    rw [filter_eq_self.2 (by simp; omega)]
    simp
  rw [hashRangeExcluding, hs]
  simp only [hashFrom]
  rw [Nat.sub_zero, hbf, show start + 144 - (start + 64 + 4) = 76 by omega, hb]
  have hl : (if start + 144 + 8 < parts.bytes.length then
      okOr (slice parts.bytes (start + 144 + 8) (parts.bytes.length - (start + 144 + 8)))
        (SboltError.peOperation "hashed range exceeds file")
      else .ok []) = .ok parts.after := by
    rw [hlen, show start + 152 + parts.after.length - (start + 144 + 8) = parts.after.length by
      omega, ha]
    split_ifs with he
    · rfl
    · rw [length_eq_zero_iff.1 (show parts.after.length = 0 by omega)]
  rw [hl]
  simp [rest]

/-- The digest of a header is made of the rest. -/
theorem authenticodeBytes_bytes {input : Bytes} (hst : optionalHeader input = start) :
    authenticodeBytes input parts.bytes = parts.rest := by
  have ht : parts.bytes.take (start + 64) = parts.before := by
    simp only [bytes, append_assoc]
    exact take_left' parts.length_before
  have hb : (parts.bytes.drop (start + 68)).take 76 = parts.between := by
    have hd : parts.bytes.drop (start + 68) =
        parts.between ++ (parts.offset ++ parts.size ++ parts.after) := by
      have hs : parts.bytes = (parts.before ++ parts.checkSum) ++
          (parts.between ++ (parts.offset ++ parts.size ++ parts.after)) := by
        simp [bytes]
      rw [hs]
      exact drop_left' (by rw [length_append, length_before, length_checkSum])
    rw [hd]
    exact take_left' parts.length_between
  have ha : parts.bytes.drop (start + 152) = parts.after :=
    drop_left' (by simp [length_before, length_checkSum, length_between, length_offset,
      length_size])
  rw [authenticodeBytes, securityEntry, Signature.checkSum, hst, ht,
    show start + 144 - (start + 64 + 4) = 76 by omega, hb, ha, rest]

theorem getElem?_set (checkSum offset size : ℕ) {i : ℕ} (hc : ¬(start + 64 ≤ i ∧ i < start + 68))
    (he : ¬(start + 144 ≤ i ∧ i < start + 152)) :
    (parts.set checkSum offset size).bytes[i]? = parts.bytes[i]? := by
  have hlen := parts.length_bytes
  by_cases h : i < parts.bytes.length
  · rw [← put_fields, getElem?_put (by rw [length_put, length_put, length_leBytes]; omega),
      if_neg (by rw [length_leBytes]; omega),
      getElem?_put (by rw [length_put, length_leBytes]; omega),
      if_neg (by rw [length_leBytes]; omega), getElem?_put (by rw [length_leBytes]; omega),
      if_neg (by rw [length_leBytes]; omega)]
  · rw [getElem?_eq_none (by rw [length_bytes_set]; omega), getElem?_eq_none (Nat.le_of_not_lt h)]

end Parts

/-! ## What is written -/

section

variable {crypto : Authenticode Signer Certificate} {signer : Signer} {certificate : Certificate}
  {reader : Reader}

theorem land_eight {n : ℕ} (h : n + 7 < 2 ^ 64) : (n + 7) &&& (2 ^ 64 - 1 - 7) = n + padding n := by
  have hm := @Align.land_mask 64 3 (n + 7) (by decide) h
  have hp : (2 ^ 3 : ℕ) = 8 := rfl
  rw [hp] at hm
  rw [hm, padding]
  omega

theorem alignUp_eq_ok {n aligned : ℕ} (h : alignUp n peAlignment = .ok aligned) :
    aligned = n + padding n := by
  unfold alignUp peAlignment at h
  rw [if_neg (by decide)] at h
  split_ifs at h with hl
  exact (ok.inj h).symm.trans (land_eight (Nat.lt_of_not_le hl))

theorem certTableSize_eq_ok {size : ℕ} {digest der : Bytes}
    (h : certTableSize crypto certificate = .ok size)
    (hdr : crypto.signedData digest signer certificate = .ok der) :
    size = (certificateTable der).length := by
  obtain ⟨dummy, hd, h⟩ := of_bind h
  split_ifs at h with hs ha
  cases h
  rw [← crypto.length_signedData hdr hd] at ha ⊢
  rw [land_eight (Nat.lt_of_not_le ha)]
  simp only [certificateTable, length_append, length_leBytes, length_zeros]
  rw [add_comm der.length]

theorem tryU32_eq_ok {context : String} {value result : ℕ} (h : tryU32 context value = .ok result) :
    value < 2 ^ 32 ∧ value = result := by
  unfold tryU32 at h
  split_ifs at h with hv
  exact ⟨hv, ok.inj h⟩

theorem buildAndWriteSignature_eq_ok {digest bytes : Bytes} {written : ℕ}
    (h : buildAndWriteSignature crypto signer certificate digest written = .ok bytes) :
    ∃ der, crypto.signedData digest signer certificate = .ok der ∧ 8 + der.length < 2 ^ 32 ∧
      bytes = zeros (padding written) ++ certificateTable der := by
  obtain ⟨der, hd, h⟩ := of_bind h
  obtain ⟨winCert, hw, h⟩ := of_bind h
  obtain ⟨aligned, ha, h⟩ := of_bind h
  obtain ⟨certAligned, hc, h⟩ := of_bind h
  cases h
  unfold buildWinCertificate at hw
  split_ifs at hw with hl
  obtain ⟨totalSize, hsz, hw⟩ := of_bind hw
  obtain ⟨hs, rfl⟩ := tryU32_eq_ok hsz
  cases hw
  rw [alignUp_eq_ok (mapError_eq_ok_iff.1 ha), Nat.add_sub_cancel_left,
    alignUp_eq_ok (mapError_eq_ok_iff.1 hc), Nat.add_sub_cancel_left]
  have hlen : (leBytes 4 (8 + der.length) ++ leBytes 2 0x0200 ++ leBytes 2 0x0002 ++ der).length =
      8 + der.length := by
    simp only [length_append, length_leBytes]
  exact ⟨der, hd, hs, by rw [hlen, certificateTable, append_assoc]⟩

theorem putU32Le_eq_ok {data bytes : Bytes} {offset value : ℕ}
    (h : putU32Le data offset value = .ok bytes) :
    offset + 4 ≤ data.length ∧ bytes = put data offset (leBytes 4 value) := by
  unfold putU32Le at h
  split_ifs at h with hlen
  exact ⟨Nat.le_of_not_lt hlen, (ok.inj h).symm⟩

theorem patchHeaders_eq_ok {metadata : Metadata} {header bytes : Bytes} {va size : ℕ}
    (h : patchHeaders metadata header va size = .ok bytes) :
    va < 2 ^ 32 ∧ size < 2 ^ 32 ∧ ∃ parts : Parts metadata.optionalHeaderOffset,
      parts.bytes = header ∧ bytes = (parts.set 0 va size).bytes := by
  obtain ⟨_, hva, h⟩ := of_bind h
  obtain ⟨hv, rfl⟩ := tryU32_eq_ok hva
  obtain ⟨_, hsi, h⟩ := of_bind h
  obtain ⟨hsz, rfl⟩ := tryU32_eq_ok hsi
  obtain ⟨first, hf, h⟩ := of_bind h
  obtain ⟨second, hs, ht⟩ := of_bind h
  obtain ⟨-, rfl⟩ := putU32Le_eq_ok hf
  obtain ⟨-, rfl⟩ := putU32Le_eq_ok hs
  obtain ⟨hlen, rfl⟩ := putU32Le_eq_ok ht
  rw [length_put, length_put] at hlen
  obtain ⟨parts, rfl⟩ := Parts.exists_of_le hlen
  exact ⟨hv, hsz, parts, rfl, parts.put_fields 0 va size⟩

theorem streamSections_eq_ok {expected : ℕ} {streamed : Bytes × Reader}
    (h : streamSections reader expected = .ok streamed) :
    streamed.1 ++ streamed.2.drain 4096 = reader.data := by
  unfold streamSections at h
  split_ifs at h with hs
  cases h
  obtain ⟨ht, hd⟩ := Reader.copy_eq (show 0 < 4096 by decide) expected reader
  rw [Reader.drain_eq (by decide), ht, hd, take_append_drop]

/-- What `sign` writes: the header, the part of the stream that was kept, and the table. -/
structure Written (crypto : Authenticode Signer Certificate) (signer : Signer)
    (certificate : Certificate) (input : Bytes) (metadata : Metadata) (signed : Signed) where
  length_ge : 512 ≤ input.length
  start : optionalHeader input = metadata.optionalHeaderOffset
  parts : Parts metadata.optionalHeaderOffset
  der : Bytes
  kept : Bytes
  header : parts.bytes = input.take metadata.sizeOfHeaders
  length_header : parts.bytes.length = metadata.sizeOfHeaders
  kept_eq : kept = input.drop (max 512 metadata.sizeOfHeaders)
  signedData : crypto.signedData signed.digest signer certificate = .ok der
  offset_lt : metadata.lastSectionFileEnd + padding metadata.lastSectionFileEnd < 2 ^ 32
  size_lt : (certificateTable der).length < 2 ^ 32
  output : signed.output = (parts.set 0
      (metadata.lastSectionFileEnd + padding metadata.lastSectionFileEnd)
      (certificateTable der).length).bytes ++ kept ++
    zeros (padding (metadata.sizeOfHeaders + kept.length)) ++ certificateTable der
  digest : signed.digest = crypto.sha256 (parts.rest ++ kept)

theorem sign_eq_ok [PeParser] {signed : Signed}
    (h : sign crypto signer certificate reader = .ok signed) :
    ∃ extracted, extract reader = .ok extracted ∧
      Nonempty (Written crypto signer certificate reader.data extracted.metadata signed) := by
  obtain ⟨extracted, hex, h⟩ := of_bind h
  obtain ⟨_, hd, h⟩ := of_bind h
  obtain ⟨certSize, hc, h⟩ := of_bind h
  obtain ⟨va, hva, h⟩ := of_bind h
  obtain ⟨header, hhd, h⟩ := of_bind h
  obtain ⟨hashed, hh, h⟩ := of_bind h
  obtain ⟨streamed, hst, h⟩ := of_bind h
  obtain ⟨signature, hs, h⟩ := of_bind h
  cases h
  have he := mapError_eq_ok_iff.1 hex
  obtain ⟨hge, hpar, ht, hlen, hrest⟩ := extract_eq_ok he
  refine ⟨extracted, he, ?_⟩
  -- the header is read to its end, so there is no overflow
  have ho : extracted.header.drop extracted.metadata.sizeOfHeaders = [] :=
    drop_of_length_le (le_of_eq hlen)
  rw [take_of_length_le (le_of_eq hlen)] at hhd
  obtain ⟨hv, hsz, parts, hpa, rfl⟩ := patchHeaders_eq_ok hhd
  have hsta : optionalHeader reader.data = extracted.metadata.optionalHeaderOffset := by
    obtain ⟨pe, hp, hof⟩ := parse_eq_ok hpar
    have hpr : extracted.header <+: reader.data := ht ▸ take_prefix _ _
    rw [optionalHeader, uintAt_of_isPrefix hpr hp.ntHeadersOffset, Option.getD_some,
      hof.optionalHeaderOffset]
  have hhs := (parts.set 0 va certSize).hashRangeExcluding_bytes
  rw [Parts.length_bytes_set, hpa, hlen, hh] at hhs
  cases hhs
  rw [ho, nil_append, streamSections_eq_ok hst, hrest] at hs ⊢
  obtain ⟨der, hdr, -, rfl⟩ := buildAndWriteSignature_eq_ok hs
  obtain rfl := alignUp_eq_ok (mapError_eq_ok_iff.1 hva)
  obtain rfl := certTableSize_eq_ok hc hdr
  exact ⟨{
    length_ge := hge
    start := hsta
    parts := parts
    der := der
    kept := _
    header := hpa.trans ht
    length_header := by rw [hpa, hlen]
    kept_eq := rfl
    signedData := hdr
    offset_lt := hv
    size_lt := hsz
    output := by rw [← append_assoc]
    digest := rfl }⟩

namespace Written

variable {input : Bytes} {metadata : Metadata} {signed : Signed}
  (w : Written crypto signer certificate input metadata signed)

/-- The header as it is written. -/
def patched : Parts metadata.optionalHeaderOffset :=
  w.parts.set 0 (metadata.lastSectionFileEnd + padding metadata.lastSectionFileEnd)
    (certificateTable w.der).length

/-- The part of the stream, padded. -/
def tail : Bytes := w.kept ++ zeros (padding (metadata.sizeOfHeaders + w.kept.length))

theorem output_eq : signed.output = w.patched.bytes ++ w.tail ++ certificateTable w.der := by
  rw [w.output, tail, ← append_assoc]
  rfl

theorem length_patched : w.patched.bytes.length = metadata.sizeOfHeaders := by
  rw [patched, Parts.length_bytes_set, w.length_header]

theorem input_eq : w.parts.bytes ++ input.drop metadata.sizeOfHeaders = input := by
  rw [w.header, take_append_drop]

include w in
theorem length_input :
    input.length = metadata.sizeOfHeaders + (input.drop metadata.sizeOfHeaders).length := by
  have hlength := congrArg length w.input_eq
  rw [length_append, w.length_header] at hlength
  exact hlength.symm

include w in
theorem offset_eq : uintAt signed.output (securityEntry input) 4 =
    some (metadata.lastSectionFileEnd + padding metadata.lastSectionFileEnd) := by
  rw [w.output_eq, append_assoc, ← Parts.bytes_append, securityEntry, w.start, Parts.offset_eq_some]
  exact congrArg _ (ofLe_leBytes (lt_of_lt_of_eq w.offset_lt (by decide)))

theorem size_eq : uintAt signed.output (securityEntry input + 4) 4 =
    some (certificateTable w.der).length := by
  rw [w.output_eq, append_assoc, ← Parts.bytes_append, securityEntry, w.start, Parts.size_eq_some]
  exact congrArg _ (ofLe_leBytes (lt_of_lt_of_eq w.size_lt (by decide)))

theorem authenticodeBytes_patched (tail : Bytes) :
    authenticodeBytes input (w.patched.bytes ++ tail) = w.parts.rest ++ tail := by
  rw [← Parts.bytes_append, Parts.authenticodeBytes_bytes _ w.start, Parts.rest_append]
  rfl

theorem authenticodeBytes_header :
    authenticodeBytes input (input.take metadata.sizeOfHeaders) = w.parts.rest := by
  rw [← w.header, Parts.authenticodeBytes_bytes _ w.start]

/-- The stream is kept, up to zeros. -/
def Kept : Prop :=
  w.tail = input.drop metadata.sizeOfHeaders ++ zeros (padding input.length)

theorem kept_of_le (h : 512 ≤ metadata.sizeOfHeaders) : w.Kept := by
  have hlen := w.length_input
  rw [Kept, tail, w.kept_eq, max_eq_right h, ← hlen]

variable {w}

theorem Kept.length (h : w.Kept) : metadata.sizeOfHeaders + w.tail.length = tableOffset input := by
  have hi := w.length_input
  rw [h, length_append, length_zeros, tableOffset]
  omega

theorem Kept.take_output (h : w.Kept) :
    signed.output.take (tableOffset input) = w.patched.bytes ++ w.tail := by
  rw [w.output_eq]
  exact take_left' (by rw [length_append, w.length_patched, h.length])

theorem Kept.drop_output (h : w.Kept) :
    signed.output.drop (tableOffset input) = certificateTable w.der := by
  rw [w.output_eq]
  exact drop_left' (by rw [length_append, w.length_patched, h.length])

/-- In the image, bytes outside of the header come from the tail. -/
theorem getElem?_output {i : ℕ} (hi : i < w.tail.length) :
    signed.output[metadata.sizeOfHeaders + i]? = w.tail[i]? := by
  rw [w.output_eq, append_assoc, getElem?_append_right (by rw [w.length_patched]; omega),
    w.length_patched, Nat.add_sub_cancel_left, getElem?_append_left hi]

theorem kept_of_faithful (h : Faithful crypto signer certificate input signed) : w.Kept := by
  obtain ⟨der, hdr, ht⟩ := h.table
  obtain rfl : der = w.der := ok.inj (hdr.symm.trans w.signedData)
  have hinp := w.length_input
  have hp := w.parts.length_bytes
  rw [w.length_header] at hp
  -- the table starts where it belongs
  have hlen : metadata.sizeOfHeaders + w.tail.length = tableOffset input := by
    have hd := congrArg length ht
    have ho : 8 ≤ (certificateTable w.der).length := by
      simp only [certificateTable, length_append, length_leBytes]
      omega
    rw [length_drop, w.output_eq, length_append, length_append, w.length_patched] at hd
    omega
  have hz : (zeros (padding input.length)).length = padding input.length := length_zeros _
  rw [tableOffset] at hlen
  refine ext_getElem? fun i => ?_
  by_cases hi : i < w.tail.length
  · rw [← getElem?_output hi]
    by_cases hin : metadata.sizeOfHeaders + i < input.length
    · rw [h.unchanged _ hin (by rw [checkSum, w.start]; omega)
        (by rw [securityEntry, w.start]; omega), getElem?_append_left (by omega),
        getElem?_drop]
    · rw [h.padded _ (Nat.le_of_not_lt hin) (by rw [tableOffset]; omega),
        getElem?_append_right (by omega), zeros, getElem?_replicate, if_pos (by omega)]
  · rw [getElem?_eq_none (by omega), getElem?_eq_none (by rw [length_append]; omega)]

/-- The digest is made of the header without the fields and of what follows it. -/
theorem Kept.digest_iff (h : w.Kept) : signed.digest =
      crypto.sha256 (authenticodeBytes input (signed.output.take (tableOffset input))) ↔
    crypto.sha256 (authenticodeBytes input (input.take metadata.sizeOfHeaders) ++
        input.drop (max 512 metadata.sizeOfHeaders)) =
      crypto.sha256 (authenticodeBytes input (input.take metadata.sizeOfHeaders) ++
        (input.drop metadata.sizeOfHeaders ++ zeros (padding input.length))) := by
  rw [w.authenticodeBytes_header, h.take_output, w.authenticodeBytes_patched, w.digest,
    w.kept_eq, h]

/-- What the digest of a faithful signature shows about the lengths. -/
theorem regular_of_faithful (w : Written crypto signer certificate input metadata signed)
    (hc : NoCollision crypto input metadata)
    (h : Faithful crypto signer certificate input signed) : Regular input metadata := by
  have hge := w.length_ge
  have hi := w.length_input
  have heq := congrArg length (hc ((w.kept_of_faithful h).digest_iff.1 h.digest))
  simp only [length_append, length_drop, length_zeros] at heq hi
  have hl := Option.some.inj (w.offset_eq.symm.trans h.offset)
  rw [tableOffset] at hl
  have hp : padding input.length = 0 := by omega
  refine ⟨by omega, ?_, by omega⟩
  unfold padding at hp
  omega

theorem faithful_of_regular (w : Written crypto signer certificate input metadata signed)
    (h : Regular input metadata) : Faithful crypto signer certificate input signed := by
  have hinp := w.length_input
  have hk := w.kept_of_le h.headers
  have hpd : padding input.length = 0 := by
    have hal := h.aligned
    unfold padding
    omega
  have ht : tableOffset input = input.length := by rw [tableOffset, hpd, add_zero]
  refine {
    unchanged := fun i hi hc he => ?_
    padded := fun i hi hlt => by omega
    table := ⟨w.der, w.signedData, hk.drop_output⟩
    offset := w.offset_eq.trans (congrArg _ (h.last.trans ht.symm))
    size := ?_
    digest := hk.digest_iff.2 ?_ }
  · by_cases hh : metadata.sizeOfHeaders ≤ i
    · have hlen := hk.length
      have ho := @getElem?_output _ _ _ _ _ _ _ _ w (i - metadata.sizeOfHeaders) (by omega)
      rw [hk, hpd, zeros, replicate_zero, append_nil, getElem?_drop, Nat.add_sub_cancel' hh] at ho
      exact ho
    · have hin : i < w.parts.bytes.length := by
        rw [w.length_header]
        omega
      have hp : w.patched.bytes[i]? = w.parts.bytes[i]? := w.parts.getElem?_set _ _ _
        (by rw [checkSum, w.start] at hc; omega)
        (by rw [securityEntry, w.start] at he; omega)
      rw [w.output_eq, append_assoc, getElem?_append_left
        (by rw [w.length_patched]; omega), hp, ← getElem?_append_left hin, w.input_eq]
  · have hd := congrArg length hk.drop_output
    rw [length_drop] at hd
    rw [w.size_eq, hd]
  · rw [max_eq_right h.headers, hpd, zeros, replicate_zero, append_nil]

end Written

/-- **Signing.** The signature of a regular stream is faithful; and no other is, unless the bytes
that are hashed collide with those that are to be hashed. -/
theorem sign_faithful_iff [PeParser] (crypto : Authenticode Signer Certificate) (signer : Signer)
    (certificate : Certificate) (reader : Reader) {signed : Signed} {extracted : Extracted}
    (hsign : sign crypto signer certificate reader = .ok signed)
    (he : extract reader = .ok extracted) :
    (Regular reader.data extracted.metadata →
      Faithful crypto signer certificate reader.data signed) ∧
    (NoCollision crypto reader.data extracted.metadata →
      Faithful crypto signer certificate reader.data signed →
      Regular reader.data extracted.metadata) := by
  obtain ⟨_, he', ⟨w⟩⟩ := sign_eq_ok hsign
  cases he.symm.trans he'
  exact ⟨w.faithful_of_regular, w.regular_of_faithful⟩

end

attribute [local instance] plainParser

/-- Messages without content. -/
def plainAuthenticode : Authenticode Unit Unit where
  sha256 bytes := bytes
  signedData _ _ _ := .ok []
  dummySignedData _ := .ok []
  length_signedData hder hdummy := by cases hder; cases hdummy; rfl

/-- An image with some bytes behind it, which come in one piece. -/
def overlaid (behind : ℕ) : Reader := ⟨emptyImage ++ zeros behind, fun _ => 4096⟩

theorem exists_signed {reader : Reader}
    (hok : (sign plainAuthenticode () () reader).toBool = true) :
    ∃ signed extracted, sign plainAuthenticode () () reader = .ok signed ∧
      extract reader = .ok extracted := by
  cases hs : sign plainAuthenticode () () reader with
  | error e =>
    rw [hs] at hok
    cases hok
  | ok signed =>
    obtain ⟨extracted, he, -⟩ := sign_eq_ok hs
    exact ⟨signed, extracted, rfl, he⟩

/-- The image with nothing behind it is signed faithfully. -/
theorem sign_faithful_iff_empty : ∃ signed, sign plainAuthenticode () () (overlaid 0) = .ok signed ∧
      Faithful plainAuthenticode () () (overlaid 0).data signed := by
  obtain ⟨signed, extracted, hs, he⟩ := @exists_signed (overlaid 0) (by decide +kernel)
  have hm : (extract (overlaid 0)).map (fun extracted =>
      (extracted.metadata.sizeOfHeaders, extracted.metadata.lastSectionFileEnd)) =
        .ok (512, 512) := by decide +kernel
  rw [he] at hm
  obtain ⟨hsz, hl⟩ := Prod.mk.inj (ok.inj hm)
  have hlen : (overlaid 0).data.length = 512 := by decide +kernel
  refine ⟨signed, hs, (sign_faithful_iff _ _ _ _ hs he).1 ⟨hsz.ge, ?_, ?_⟩⟩
  · rw [hlen]
    decide
  · rw [hl, hlen]
    decide

/-- With eight bytes behind the image, the table is announced within it. -/
theorem sign_overlaid_unfaithful : ∃ signed,
    sign plainAuthenticode () () (overlaid 8) = .ok signed ∧
      ¬Faithful plainAuthenticode () () (overlaid 8).data signed := by
  obtain ⟨signed, extracted, hs, he⟩ := @exists_signed (overlaid 8) (by decide +kernel)
  have hl : (extract (overlaid 8)).map (·.metadata.lastSectionFileEnd) = .ok 512 := by
    decide +kernel
  obtain ⟨_, he', ⟨w⟩⟩ := sign_eq_ok hs
  cases he.symm.trans he'
  refine ⟨signed, hs, fun h => ?_⟩
  rw [he] at hl
  have hen : extracted.metadata.lastSectionFileEnd = 512 := ok.inj hl
  have hr := (w.regular_of_faithful (fun heq => heq) h).last
  rw [hen] at hr
  exact absurd hr (by decide +kernel)

end Muak.Sbolt.Signature
