import Muak.Foundations.Bytes
import Muak.Foundations.Result

/-!
# Signature lists

`toolchain/sbolt/src/efi/siglist.rs` and `libs/firmware/src/signature.rs`: the lists of certificates
in the key variables of the firmware.

* `buildX509`: a list with one certificate.
* `containsX509`: a search through all lists of a variable; it finds the certificate of such a list
  (`containsX509_buildX509`).
* `parseSignatureLists`: the lists of a variable (`parseSignatureLists_buildX509`).
-/

namespace Muak.Sbolt

open Bytes List

/-- Why signing or enrolling fails. -/
inductive SboltError
  | signing (message : String)
  | peOperation (message : String)
  | efiVar (message : String)
  | firmware (message : String)
  | io (message : String)
  deriving DecidableEq

abbrev Result := Except SboltError

/-- The text of an error. -/
def SboltError.display : SboltError → String
  | .signing message => "signing failed: " ++ message
  | .peOperation message => "PE operation failed: " ++ message
  | .efiVar message => "efivar operation failed: " ++ message
  | .firmware message => "firmware: " ++ message
  | .io message => "I/O error: " ++ message

/-- Sixteen bytes. -/
@[ext]
structure Guid where
  bytes : Bytes
  length_bytes : bytes.length = 16

instance instDecidableEqGuid : DecidableEq Guid := fun a b =>
  decidable_of_iff (a.bytes = b.bytes) Guid.ext_iff.symm

/-- The type of a list of certificates. -/
def certX509Guid : Guid where
  bytes :=
    [0xa1, 0x59, 0xc0, 0xa5, 0xe4, 0x94, 0xa7, 0x4a, 0x87, 0xb5, 0xab, 0x15, 0x5c, 0x2b, 0xf0,
    0x72]
  length_bytes := rfl

def signatureListHeaderSize : ℕ := 28

def signatureDataHeaderSize : ℕ := 16

def readU32 (data : Bytes) (offset : ℕ) : Option ℕ := (slice data offset 4).map ofLe

/-! ## Building and parsing -/

/-- A list with a single certificate. -/
def buildX509 (owner : Guid) (certDer : Bytes) : Result Bytes :=
  let signatureSize := signatureDataHeaderSize + certDer.length
  let listSize := signatureListHeaderSize + signatureSize
  if 2 ^ 32 ≤ listSize then .error (.efiVar "signature list size exceeds u32")
  else .ok ([certX509Guid.bytes, leBytes 4 listSize, leBytes 4 0, leBytes 4 signatureSize,
    owner.bytes, certDer].flatten)

/-- The lists of a variable, as long as there is a header. -/
def parseSignatureLists (data : Bytes) : Result (List Bytes) :=
  if _h : signatureListHeaderSize ≤ data.length then
    match readU32 data 16 with
    | none => .error (.efiVar "read signature list size")
    | some listSize =>
      if _hsize : listSize < signatureListHeaderSize ∨ data.length < listSize then
        .error (.efiVar "invalid signature list size")
      else do
        let lists ← parseSignatureLists (data.drop listSize)
        .ok (data.take listSize :: lists)
  else .ok []
termination_by data.length
decreasing_by
  rw [length_drop]
  unfold signatureListHeaderSize at *
  omega

/-! ## Searching -/

/-- The loop over the entries of a list. -/
def entriesContain (signatureSize : ℕ) (certificate entries : Bytes) : Bool :=
  if _h : 0 < signatureSize ∧ signatureSize ≤ entries.length then
    slice entries signatureDataHeaderSize (signatureSize - signatureDataHeaderSize) =
        some certificate ||
      entriesContain signatureSize certificate (entries.drop signatureSize)
  else false
termination_by entries.length
decreasing_by
  rw [length_drop]
  omega

/-- The list has the certificate. -/
def x509ListContains (list certificate : Bytes) : Bool :=
  match readU32 list 24, readU32 list 20 with
  | some signatureSize, some headerSize =>
    if signatureSize < signatureDataHeaderSize then false
    else entriesContain signatureSize certificate (list.drop (signatureListHeaderSize + headerSize))
  | _, _ => false

/-- The loop over the lists of a variable. -/
def listsContain (certificate data : Bytes) : Bool :=
  if _h : signatureListHeaderSize ≤ data.length then
    match readU32 data 16 with
    | none => false
    | some listSize =>
      if _hsize : listSize < signatureListHeaderSize ∨ data.length < listSize then false
      else
        (data.take listSize).take 16 = certX509Guid.bytes &&
            x509ListContains (data.take listSize) certificate ||
          listsContain certificate (data.drop listSize)
  else false
termination_by data.length
decreasing_by
  rw [length_drop]
  unfold signatureListHeaderSize at *
  omega

/-- `firmware::signature::contains_x509`. -/
def containsX509 (data certificate : Bytes) : Bool :=
  certificate ≠ [] && listsContain certificate data

/-! ## A list with one certificate -/

section

variable {owner : Guid} {certDer list : Bytes}

section

variable (h : buildX509 owner certDer = .ok list)

include h

theorem buildX509_eq_ok : 44 + certDer.length < 2 ^ 32 ∧
      list = [certX509Guid.bytes, leBytes 4 (44 + certDer.length), leBytes 4 0,
        leBytes 4 (16 + certDer.length), owner.bytes, certDer].flatten := by
  unfold buildX509 signatureListHeaderSize signatureDataHeaderSize at h
  dsimp only at h
  split_ifs at h with hs
  rw [← Nat.add_assoc] at h hs
  exact ⟨Nat.lt_of_not_le hs, (Except.ok.inj h).symm⟩

theorem header_buildX509 : list.length = 44 + certDer.length ∧ list.take 16 = certX509Guid.bytes ∧
      readU32 list 16 = some (44 + certDer.length) ∧ readU32 list 20 = some 0 ∧
      readU32 list 24 = some (16 + certDer.length) ∧ list.drop 28 = owner.bytes ++ certDer := by
  obtain ⟨hs, rfl⟩ := buildX509_eq_ok h
  have hg := certX509Guid.length_bytes
  have hnm (n : ℕ) (hn : n < 2 ^ 32) : ofLe (leBytes 4 n) = n :=
    ofLe_leBytes (lt_of_lt_of_eq hn (by decide))
  simp only [flatten_cons, flatten_nil, append_nil]
  refine ⟨?_, ?_, ?_, ?_, ?_, ?_⟩
  · simp only [length_append, length_leBytes, owner.length_bytes]
    omega
  · rw [take_left' hg]
  · rw [readU32, ← append_assoc certX509Guid.bytes, slice_append hg (length_leBytes ..),
      Option.map_some, hnm _ hs]
  · rw [readU32, ← append_assoc, ← append_assoc (certX509Guid.bytes ++ _),
      slice_append (by simp [hg]) (length_leBytes ..), Option.map_some, hnm 0 (by decide)]
  · rw [readU32, ← append_assoc, ← append_assoc, ← append_assoc (_ ++ _ ++ leBytes 4 0),
      slice_append (by simp [hg]) (length_leBytes ..), Option.map_some, hnm _ (by omega)]
  · rw [← append_assoc, ← append_assoc, ← append_assoc, drop_left' (by simp [hg])]

/-- The list is the only one of its bytes. -/
theorem parseSignatureLists_buildX509 : parseSignatureLists list = .ok [list] := by
  obtain ⟨hlen, -, hs, -⟩ := header_buildX509 h
  rw [parseSignatureLists, dif_pos (by rw [signatureListHeaderSize]; omega), hs]
  dsimp only
  rw [dif_neg (by rw [signatureListHeaderSize]; omega), ← hlen, drop_length,
    take_length, parseSignatureLists]
  rfl

theorem containsX509_buildX509 (hc : certDer ≠ []) : containsX509 list certDer = true := by
  obtain ⟨hlen, hg, hsz, hh, hs, hrest⟩ := header_buildX509 h
  have he : entriesContain (16 + certDer.length) certDer (owner.bytes ++ certDer) = true := by
    rw [entriesContain, dif_pos (by rw [length_append, owner.length_bytes]; omega),
      Bool.or_eq_true, decide_eq_true_eq, signatureDataHeaderSize, Nat.add_sub_cancel_left]
    left
    have hsl := @slice_append certDer owner.bytes [] 16 certDer.length owner.length_bytes rfl
    rwa [append_nil] at hsl
  have hl : x509ListContains list certDer = true := by
    rw [x509ListContains, hs, hh]
    dsimp only
    rw [if_neg (by rw [signatureDataHeaderSize]; omega), signatureListHeaderSize, hrest, he]
  rw [containsX509, listsContain, dif_pos (by rw [signatureListHeaderSize]; omega), hsz]
  dsimp only
  rw [dif_neg (by rw [signatureListHeaderSize]; omega), ← hlen, take_length, hg, hl]
  simpa using hc

end

end

end Muak.Sbolt
