import Muak.Foundations.Bytes
import Muak.Foundations.Result

/-!
# Sealing to the TPM

`libs/tpm2/src/operations.rs`: a secret is sealed under the storage root key and unsealed in a
policy session. Objects and sessions stay in the TPM until they are flushed, and it has room for a
few.

* `Device`: the exchanges with the TPM, whatever it answers.
* `held`: the handles that were handed out in some exchanges and not flushed in them.
* `handles_flushed_iff`: the answers with which none is left behind.

The commands are those of the source without their encoding, of which the checks of the lengths and
the nonce remain.
-/

namespace Muak.Tpm2

open Bytes List

/-- Why an operation fails. -/
inductive Tpm2Error
  | io
  | tpmError (rc : ℕ)
  | responseTooShort (expected actual : ℕ)
  | badResponseTag
  | rngFailed
  | bufferTooLarge (actual max : ℕ)
  deriving DecidableEq

abbrev Result := Except Tpm2Error

/-! ## Responses -/

/-- What is read from the device: nothing if that fails. -/
abbrev Response := Option Bytes

def readBytes (data : Bytes) (pos len : ℕ) : Result Bytes :=
  okOr (slice data pos len) (.responseTooShort (pos + len) data.length)

def readUint (data : Bytes) (pos len : ℕ) : Result ℕ :=
  (readBytes data pos len).map ofBe

def readHandle (body : Bytes) (pos : ℕ) : Result UInt32 :=
  (readUint body pos 4).map .ofNat

/-- The bytes after a size of two bytes. -/
def readTpm2b (body : Bytes) (pos : ℕ) : Result Bytes := do
  readBytes body (pos + 2) (← readUint body pos 2)

/-- The header of a response says success. -/
def validateResponse (response : Bytes) : Result Unit :=
  if response.length < 10 then .error (.responseTooShort 10 response.length)
  else do
    let tag ← readUint response 0 2
    if tag ≠ 0x8001 ∧ tag ≠ 0x8002 then .error .badResponseTag
    else
      let rc ← readUint response 6 4
      if rc ≠ 0 then .error (.tpmError rc) else .ok ()

/-- The body of a valid response. -/
def body (response : Response) : Result Bytes := do
  let response ← okOr response .io
  validateResponse response
  .ok (response.drop 10)

/-! ## Commands -/

def srkHandle : UInt32 := 0x81000001

inductive Command
  | handleExists
  | createPrimary
  | evictControl (object : UInt32)
  | flushContext (handle : UInt32)
  | create (policyDigest data : Bytes)
  | load (pubData privData : Bytes)
  | startAuthSession (nonce : Option Bytes)
  | policyPcr (session : UInt32)
  | unseal (object session : UInt32)

def u16Len (len : ℕ) : Result Unit :=
  if len ≤ 65535 then .ok () else .error (.bufferTooLarge len 65535)

/-- What can go wrong before a command is sent. -/
def Command.encode : Command → Result Unit
  | .create policyDigest data => do
    u16Len (4 + data.length)
    u16Len (14 + policyDigest.length)
  | .load pubData privData => do
    u16Len privData.length
    u16Len pubData.length
  | .startAuthSession none => .error .rngFailed
  | _ => .ok ()

/-- The first handle listed is that of the storage key. -/
def decodeHandleExists (body : Bytes) : Result Bool := do
  let _ ← readBytes body 0 1
  let _ ← readUint body 1 4
  let count ← readUint body 5 4
  if count = 0 then .ok false else (readHandle body 9).map (· == srkHandle)

/-- The handle and the public part of a new key. -/
def decodeCreatePrimary (body : Bytes) : Result (UInt32 × Bytes) := do
  let handle ← readHandle body 0
  let _ ← readUint body 4 4
  .ok (handle, ← readTpm2b body 8)

/-- The public and the private part of a sealed object. -/
def decodeCreate (body : Bytes) : Result (Bytes × Bytes) := do
  let _ ← readUint body 0 4
  let privData ← readTpm2b body 4
  .ok (← readTpm2b body (6 + privData.length), privData)

def decodeUnseal (body : Bytes) : Result Bytes := do
  let _ ← readUint body 0 4
  readTpm2b body 4

/-! ## The device -/

/-- The exchanges so far, and the responses to come. -/
structure Device where
  exchanges : List (Command × Response)
  responses : List Response

/-- The next response; nothing is read from a device that has none. -/
def Device.next (dev : Device) : Response := dev.responses.headD (some [])

def Device.exchange (dev : Device) (command : Command) : Device :=
  ⟨dev.exchanges ++ [(command, dev.next)], dev.responses.tail⟩

/-- Send a command and read the response. -/
def execute {α : Type} (command : Command) (decode : Bytes → Result α)
    (dev : Device) : Result α × Device :=
  match command.encode with
  | .error e => (.error e, dev)
  | .ok () => (body dev.next >>= decode, dev.exchange command)

/-- A command whose response has no body that is read. -/
def executeUnit (command : Command) : Device → Result Unit × Device :=
  execute command fun _ => .ok ()

/-! ## Operations -/

/-- The storage key is there, or is made. -/
def ensureSrk (dev : Device) : Result Unit × Device :=
  match execute .handleExists decodeHandleExists dev with
  | (.error e, dev) => (.error e, dev)
  | (.ok true, dev) => (.ok (), dev)
  | (.ok false, dev) =>
    match execute .createPrimary decodeCreatePrimary dev with
    | (.error e, dev) => (.error e, dev)
    | (.ok (transient, _), dev) =>
      let (result, dev) := executeUnit (.evictControl transient) dev
      (result, (executeUnit (.flushContext transient) dev).2)

/-- `seal_with_device`, with the policy digest of the expected PCR: the public part and the private
part of the blob. -/
def sealData (policyDigest data : Bytes) (dev : Device) : Result (Bytes × Bytes) × Device :=
  match ensureSrk dev with
  | (.error e, dev) => (.error e, dev)
  | (.ok (), dev) =>
    let (result, dev) := execute (.create policyDigest data) decodeCreate dev
    (result >>= fun blob => do
      u16Len blob.1.length
      u16Len blob.2.length
      .ok blob, dev)

/-- A sealed blob, of parts whose lengths fit into two bytes. -/
structure Sealed where
  pubData : Bytes
  privData : Bytes
  length_pubData : pubData.length ≤ 65535
  length_privData : privData.length ≤ 65535

/-- `unseal_with_device`, with the nonce if there are random numbers. -/
def unsealData (blob : Sealed) (nonce : Option Bytes) (dev : Device) : Result Bytes × Device :=
  match ensureSrk dev with
  | (.error e, dev) => (.error e, dev)
  | (.ok (), dev) =>
    match execute (.load blob.pubData blob.privData) (readHandle · 0) dev with
    | (.error e, dev) => (.error e, dev)
    | (.ok object, dev) =>
      match execute (.startAuthSession nonce) (readHandle · 0) dev with
      | (.error e, dev) => (.error e, dev)
      | (.ok session, dev) =>
        let (result, dev) :=
          match executeUnit (.policyPcr session) dev with
          | (.error e, dev) => (.error e, dev)
          | (.ok (), dev) => execute (.unseal object session) decodeUnseal dev
        let dev := (executeUnit (.flushContext session) dev).2
        (result, (executeUnit (.flushContext object) dev).2)

/-! ## Handles -/

/-- The handle at the front of a valid response. -/
def handleOf (response : Response) : Result UInt32 := body response >>= (readHandle · 0)

/-- The handles that are held after an exchange. -/
def hold (handles : List UInt32) : Command × Response → List UInt32
  | (.createPrimary, response) | (.load _ _, response) | (.startAuthSession _, response) =>
    match handleOf response with
    | .ok handle => handle :: handles
    | .error _ => handles
  | (.flushContext handle, _) => handles.erase handle
  | _ => handles

/-- The handles that were handed out and not flushed. -/
def Device.held (dev : Device) : List UInt32 := dev.exchanges.foldl hold []

variable {dev : Device} {handle : UInt32} (responses : List Response)

theorem held_exchange (command : Command) :
    (dev.exchange command).held = hold dev.held (command, dev.next) := by
  rw [Device.held, Device.exchange, foldl_append]
  rfl

/-- The reply of a missing storage root key, and a new one that was handed out but not read. -/
def Unread : Prop :=
  (body (responses.headD (some [])) >>= decodeHandleExists) = .ok false ∧
    ∃ handle e, handleOf (responses.tail.headD (some [])) = .ok handle ∧
      (body (responses.tail.headD (some [])) >>= decodeCreatePrimary) = .error e

/-- The responses from where the storage root key is known to be there. -/
def afterSrk : Option (List Response) :=
  match body (responses.headD (some [])) >>= decodeHandleExists with
  | .error _ => none
  | .ok true => some responses.tail
  | .ok false =>
    match body (responses.tail.headD (some [])) >>= decodeCreatePrimary,
      body (responses.tail.tail.headD (some [])) with
    | .ok _, .ok _ => some responses.tail.tail.tail.tail
    | _, _ => none

/-- An object that was loaded, and no session for it. -/
def Abandoned (nonce : Option Bytes) (responses : List Response) : Prop :=
  ∃ handle, handleOf (responses.headD (some [])) = .ok handle ∧
    (nonce = none ∨ ∃ e, handleOf (responses.tail.headD (some [])) = .error e)

/-- A key that was created and read begins with its handle. -/
theorem handleOf_of_decodeCreatePrimary {response : Response} {key : UInt32 × Bytes}
    (h : (body response >>= decodeCreatePrimary) = .ok key) : handleOf response = .ok key.1 := by
  obtain ⟨bytes, hb, h⟩ := of_bind h
  obtain ⟨handle, hh, h⟩ := of_bind h
  obtain ⟨_, _, h⟩ := of_bind h
  obtain ⟨_, _, h⟩ := of_bind h
  cases h
  exact bind_eq_ok_iff.2 ⟨bytes, hb, hh⟩

/-- **The storage root key**: one handle is left behind if the response with a new key cannot be
read to its end. -/
theorem ensureSrk_spec (dev : Device) :
    ((ensureSrk dev).2.held = dev.held ↔ ¬Unread dev.responses) ∧
      match afterSrk dev.responses with
      | none => ∃ e, (ensureSrk dev).1 = .error e
      | some responses => (ensureSrk dev).1 = .ok () ∧ (ensureSrk dev).2.responses = responses ∧
          ¬Unread dev.responses := by
  have he : execute .handleExists decodeHandleExists dev =
    (body (dev.responses.headD (some [])) >>= decodeHandleExists, dev.exchange .handleExists) := rfl
  have hh : (dev.exchange .handleExists).held = dev.held := held_exchange _
  unfold ensureSrk Unread afterSrk
  rw [he]
  cases body (dev.responses.headD (some [])) >>= decodeHandleExists with
  | error e => exact ⟨iff_of_true hh (nomatch ·.1), e, rfl⟩
  | ok found =>
  cases found with
  | true => exact ⟨iff_of_true hh (nomatch ·.1), rfl, rfl, (nomatch ·.1)⟩
  | false =>
    have hcr : execute .createPrimary decodeCreatePrimary (dev.exchange .handleExists) =
      (body (dev.responses.tail.headD (some [])) >>= decodeCreatePrimary,
        (dev.exchange .handleExists).exchange .createPrimary) := rfl
    have hc : ((dev.exchange .handleExists).exchange .createPrimary).held =
        hold dev.held (.createPrimary, dev.responses.tail.headD (some [])) := by
      rw [held_exchange, hh]
      rfl
    dsimp only
    rw [hcr]
    cases hp : body (dev.responses.tail.headD (some [])) >>= decodeCreatePrimary with
    | error e =>
      refine ⟨?_, e, rfl⟩
      rw [hc, hold]
      cases handleOf (dev.responses.tail.headD (some [])) with
      | error e' => exact iff_of_true rfl fun h => nomatch h.2.choose_spec.choose_spec.1
      | ok handle =>
        exact iff_of_false (cons_ne_self _ _) (not_not_intro ⟨rfl, handle, e, rfl, rfl⟩)
    | ok key =>
      rw [hold, handleOf_of_decodeCreatePrimary hp] at hc
      have hf : ((((dev.exchange .handleExists).exchange .createPrimary).exchange
          (.evictControl key.1)).exchange (.flushContext key.1)).held = dev.held := by
        rw [held_exchange, held_exchange, hc]
        exact erase_cons_head ..
      have hn : ¬((.ok false : Result Bool) = .ok false ∧ ∃ handle e,
          handleOf (dev.responses.tail.headD (some [])) = .ok handle ∧
            (.ok key : Result _) = .error e) := by
        rintro ⟨-, _, _, -, h⟩
        cases h
      refine ⟨iff_of_true hf hn, ?_⟩
      have hev : (executeUnit (.evictControl key.1)
          ((dev.exchange .handleExists).exchange .createPrimary)).1 =
          body (dev.responses.tail.tail.headD (some [])) >>= fun _ => .ok () := rfl
      rw [hev]
      cases body (dev.responses.tail.tail.headD (some [])) with
      | error e => exact ⟨e, rfl⟩
      | ok bytes => exact ⟨rfl, rfl, hn⟩

/-- **An object and its session**: the object is left behind if there is no session. -/
theorem unsealData_spec (blob : Sealed) (nonce : Option Bytes) (dev : Device)
    {srk : Device} (hsr : ensureSrk dev = (.ok (), srk)) :
    (unsealData blob nonce dev).2.held = srk.held ↔ ¬Abandoned nonce srk.responses := by
  have hld : execute (.load blob.pubData blob.privData) (readHandle · 0) srk =
      (handleOf (srk.responses.headD (some [])),
        srk.exchange (.load blob.pubData blob.privData)) := by
    rw [execute, Command.encode, u16Len, if_pos blob.length_privData, u16Len,
      if_pos blob.length_pubData]
    rfl
  have hl : (srk.exchange (.load blob.pubData blob.privData)).held =
      hold srk.held (.load [] [], srk.responses.headD (some [])) := held_exchange _
  have hn : (srk.exchange (.load blob.pubData blob.privData)).next =
      srk.responses.tail.headD (some []) := rfl
  rw [unsealData, hsr, Abandoned]
  dsimp only
  rw [hld]
  generalize srk.exchange (.load blob.pubData blob.privData) = loaded at hl hn ⊢
  rw [hold] at hl
  cases ho : handleOf (srk.responses.headD (some [])) with
  | error e =>
    rw [ho] at hl
    exact iff_of_true hl fun h => nomatch h.choose_spec.1
  | ok object =>
  rw [ho] at hl
  have hk : loaded.held ≠ srk.held := by
    rw [hl]
    exact cons_ne_self _ _
  cases nonce with
  | none => exact iff_of_false hk (not_not_intro ⟨object, rfl, .inl rfl⟩)
  | some nonce =>
    have hst : execute (.startAuthSession (some nonce)) (readHandle · 0) loaded =
      (handleOf loaded.next, loaded.exchange (.startAuthSession (some nonce))) := rfl
    have hs : (loaded.exchange (.startAuthSession (some nonce))).held =
        hold loaded.held (.startAuthSession none, loaded.next) := held_exchange _
    dsimp only
    rw [hst]
    generalize loaded.exchange (.startAuthSession (some nonce)) = started at hs ⊢
    rw [hold, hn] at hs
    rw [hn]
    cases hss : handleOf (srk.responses.tail.headD (some [])) with
    | error e =>
      rw [hss] at hs
      refine iff_of_false ?_ (not_not_intro ⟨object, rfl, .inr ⟨e, rfl⟩⟩)
      exact hs ▸ hk
    | ok session =>
      rw [hss, hl] at hs
      refine iff_of_true ?_ ?_
      · -- whatever becomes of the secret, no handle comes or goes before the two are flushed
        have hf : ∀ used : Device, used.held = started.held → (executeUnit (.flushContext object)
              (executeUnit (.flushContext session) used).2).2.held = srk.held := by
          intro used hu
          change ((used.exchange _).exchange _).held = _
          rw [held_exchange, held_exchange, hu, hs]
          exact (congrArg (·.erase object) (erase_cons_head ..)).trans (erase_cons_head ..)
        have hp : (started.exchange (.policyPcr session)).held = started.held := held_exchange _
        have he : executeUnit (.policyPcr session) started =
          (body started.next >>= fun _ => .ok (), started.exchange (.policyPcr session)) := rfl
        dsimp only
        rw [he]
        cases body started.next with
        | error e => exact hf _ hp
        | ok bytes => exact hf _ ((held_exchange _).trans hp)
      · rintro ⟨_, -, h | ⟨e, h⟩⟩ <;> cases h

/-- **Handles are flushed**, by the three operations on a device that nothing was exchanged with,
just if no new key is left unread and no object is left without a session. -/
theorem handles_flushed_iff (policyDigest data : Bytes) (blob : Sealed) (nonce : Option Bytes) :
    ((ensureSrk ⟨[], responses⟩).2.held = [] ↔ ¬Unread responses) ∧
    ((sealData policyDigest data ⟨[], responses⟩).2.held = [] ↔ ¬Unread responses) ∧
    ((unsealData blob nonce ⟨[], responses⟩).2.held = [] ↔
      ¬Unread responses ∧ ∀ rest, afterSrk responses = some rest → ¬Abandoned nonce rest) := by
  obtain ⟨hh, ha⟩ := ensureSrk_spec ⟨[], responses⟩
  refine ⟨hh, ?_, ?_⟩
  · refine Iff.trans (Eq.congr_left ?_) hh
    rw [sealData]
    rcases ensureSrk ⟨[], responses⟩ with ⟨e | -, srk⟩
    · rfl
    · dsimp only
      rw [execute]
      cases Command.encode (.create policyDigest data) with
      | error e => rfl
      | ok => exact held_exchange _
  · cases hrest : afterSrk responses with
    | none =>
      rw [hrest] at ha
      obtain ⟨e, he⟩ := ha
      rw [and_iff_left nofun, ← hh, unsealData]
      rcases hs : ensureSrk ⟨[], responses⟩ with ⟨result, srk⟩
      rw [hs] at he
      subst he
      rfl
    | some rest =>
      rw [hrest] at ha
      obtain ⟨hok, hr, hrd⟩ := ha
      rcases hs : ensureSrk ⟨[], responses⟩ with ⟨result, srk⟩
      rw [hs] at hok hr hh
      subst hok hr
      have hn : srk.held = [] := hh.2 hrd
      rw [and_iff_right hrd, ← hn, unsealData_spec blob nonce _ hs]
      simp

/-- A response without an error. -/
def success (bytes : Bytes) : Response := some ([0x80, 0x01, 0, 0, 0, 0, 0, 0, 0, 0] ++ bytes)

/-- The TPM has no room for a session after it has loaded an object, and the object stays. So does a
new storage root key whose public part is missing in the response. -/
theorem object_left_behind :
    let found := success (zeros 8 ++ [1, 0x81, 0, 0, 1])
    let missing := success (zeros 9)
    let blob : Sealed := ⟨[1], [2], by decide, by decide⟩
    let noRoom : Response := some [0x80, 0x01, 0, 0, 0, 10, 0, 0, 9, 3]
    let unsealed := unsealData blob (some (zeros 16))
      ⟨[], [found, success [0x80, 0, 0, 2], noRoom]⟩
    let created := ensureSrk ⟨[], [missing, success [0x80, 0, 0, 1]]⟩
    (unsealed.1.toOption = none ∧ unsealed.2.held = [0x80000002]) ∧
      created.1.toOption = none ∧ created.2.held = [0x80000001] := by
  decide +kernel

end Muak.Tpm2
