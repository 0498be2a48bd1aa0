import Mathlib.Data.List.Infix
import Muak.Foundations.Bytes
import Muak.Foundations.Run

/-!
# Committing an update

`services/provisiond/src/update/commit.rs`: after a successful validation the key of the encrypted
partitions is sealed to the new image and the new image is written to the EFI partition. What a
power cut or an error leaves behind is the result of the first writes, up to some point; a write of
several blocks may be cut inside.

* `Machine.Bootable`: the image is complete, and the key of STATE can be had.
* `crash_safe_iff`: the machine stays bootable at every point exactly if there is no EFI partition
  or an error comes first, and nothing is written at all; what it takes between the phases.
* `locked_out`: an error right after the key was sealed leaves a machine that cannot unlock STATE.

The sections of an image, their order and the predicted value of the register are one function.
Copying the staged image and enrolling the keys of Secure Boot concern neither the image on the EFI
partition nor the key, and the rollback after an error writes neither of them.
-/

namespace Muak.Provisiond

/-- A key sealed to a value of PCR 11. -/
structure Token (π : Type) where
  pcr : π
  secret : Bytes

/-- What a boot depends on: the image and the file `luks` on the EFI partition, and the tokens that
can be read from STATE and EPHEMERAL. -/
structure Machine (π : Type) where
  uki : Bytes
  luks : Option Bytes
  stateToken : Option (Token π)
  ephemeralToken : Option (Token π)

/-- A part of a write that reaches the disk. -/
inductive Write (π : Type)
  | stateToken (token : Option (Token π))
  | ephemeralToken (token : Option (Token π))
  | ukiCreate
  | ukiAppend (bytes : Bytes)
  | luksCreate
  | luksAppend (bytes : Bytes)

/-- The effect of a write. -/
def Machine.step {π : Type} (m : Machine π) : Write π → Machine π
  | .stateToken token => { m with stateToken := token }
  | .ephemeralToken token => { m with ephemeralToken := token }
  | .ukiCreate => { m with uki := [] }
  | .ukiAppend bytes => { m with uki := m.uki ++ bytes }
  | .luksCreate => { m with luks := some [] }
  | .luksAppend bytes => { m with luks := m.luks.map (· ++ bytes) }

/-! ## Copying the image -/

/-- The loop of `copy_reader_to_file`: the pieces it reads and writes, where `sizes` bounds what the
reads return. It ends after `remaining` bytes, or with an error at the end of the file. -/
def copied (remaining : ℕ) (rest : Bytes) : List ℕ → List Bytes
  | [] => []
  | size :: sizes =>
    if remaining = 0 then []
    else
      let read := rest.take (min size (min remaining 8192))
      if read = [] then []
      else read :: copied (remaining - read.length) (rest.drop read.length) sizes

/-! ## The writes of a commit -/

/-- What a commit starts from. -/
structure Commit (π : Type) where
  /-- The value of PCR 11 after a boot of the image, unless its sections cannot be read. -/
  predictPcr11 : Bytes → Option π
  /-- The key of the encrypted partitions. -/
  luksKey : Bytes
  /-- The staged image. -/
  staged : Bytes
  /-- The partitions that are found. -/
  efiDevice : Bool
  stateDevice : Bool
  ephemeralDevice : Bool
  tpmAvailable : Bool
  /-- The key can be unsealed, or is on the command line of the kernel. -/
  keyResolved : Bool
  /-- The signed image is copied to the staged one. -/
  copies : Bool
  /-- The TPM seals the key. -/
  seals : Bool

namespace Commit

variable {π : Type} (c : Commit π) (torn : Option (Token π))

/-- The token that `reseal_luks_key` writes. -/
def token : Option (Token π) :=
  if c.keyResolved && c.tpmAvailable then (c.predictPcr11 c.staged).map (⟨·, c.luksKey⟩) else none

/-- The key that is left for the EFI partition. -/
def espKey : Option Bytes :=
  if c.keyResolved && !c.tpmAvailable then some c.luksKey else none

/-- A token that is written to STATE. -/
def reseals : Bool := c.token.isSome && c.stateDevice

/-- The token on STATE, then that on EPHEMERAL; a write that is cut leaves `torn`. -/
def tokenWrites : List (Write π) :=
  match c.token with
  | none => []
  | some token =>
    (if c.stateDevice then [.stateToken torn, .stateToken (some token)] else []) ++
      if c.ephemeralDevice then [.ephemeralToken torn, .ephemeralToken (some token)] else []

/-- The image, read in pieces. -/
def ukiWrites (sizes : List ℕ) : List (Write π) :=
  .ukiCreate :: (copied c.staged.length c.staged sizes).map .ukiAppend

/-- The key for the EFI partition. -/
def keyWrites : List (Write π) :=
  match c.espKey with
  | none => []
  | some key => [.luksCreate, .luksAppend key]

/-- No error comes before the first write: there is an EFI partition, the image is copied and its
sections can be read, and a key that is to be sealed is sealed. -/
def begins : Bool :=
  c.efiDevice && c.copies && (c.predictPcr11 c.staged).isSome &&
    (!(c.keyResolved && c.tpmAvailable) || c.seals)

/-- All writes of `apply`, in order: after an error at the beginning there are none, and without a
complete copy of the image the key is not written. -/
def writes (sizes : List ℕ) : List (Write π) :=
  if c.begins then
    c.tokenWrites torn ++ c.ukiWrites sizes ++
      if (copied c.staged.length c.staged sizes).flatten = c.staged then c.keyWrites else []
  else []

end Commit

namespace Machine

variable {π : Type} (c : Commit π) (m : Machine π)

/-- The token on STATE gives the key after a boot of the image. -/
def SealedFor (image : Bytes) : Prop :=
  ∃ token, m.stateToken = some token ∧ c.predictPcr11 image = some token.pcr ∧
    token.secret = c.luksKey

/-- STATE can be unlocked: by its token after a boot of the image, or with the key on the EFI
partition. -/
def Unlocks : Prop := m.SealedFor c m.uki ∨ m.luks = some c.luksKey

/-- The image is the previous or the new one, all of it, and STATE can be unlocked. -/
def Bootable (previous : Bytes) : Prop :=
  (m.uki = previous ∨ m.uki = c.staged) ∧ m.Unlocks c

/-- The state after some writes. -/
def after (writes : List (Write π)) : Machine π := runFrom step m writes

variable {c m} {torn : Option (Token π)} {sizes : List ℕ}

/-- **Sealing the key** changes the tokens only, and that of STATE only if there is one to write. -/
theorem after_tokenWrites : (m.after (c.tokenWrites torn)).uki = m.uki ∧
    (m.after (c.tokenWrites torn)).luks = m.luks ∧
    (m.after (c.tokenWrites torn)).stateToken = if c.reseals then c.token else m.stateToken := by
  unfold Commit.tokenWrites Commit.reseals
  cases c.token with
  | none => exact ⟨rfl, rfl, rfl⟩
  | some token => cases c.stateDevice <;> cases c.ephemeralDevice <;> exact ⟨rfl, rfl, rfl⟩

theorem after_appends (m : Machine π) (pieces : List Bytes) :
    m.after (pieces.map .ukiAppend) = { m with uki := m.uki ++ pieces.flatten } := by
  induction pieces generalizing m with
  | nil => simp [after]
  | cons piece pieces ih =>
    rw [List.map_cons, after, runFrom_cons, ← after, ih]
    simp [step]

/-- **Writing the image** replaces it by what was copied. -/
theorem after_ukiWrites (m : Machine π) : m.after (c.ukiWrites sizes) =
    { m with uki := (copied c.staged.length c.staged sizes).flatten } := by
  rw [Commit.ukiWrites, after, runFrom_cons, ← after, after_appends]
  rfl

theorem after_append (m : Machine π) (first second : List (Write π)) :
    m.after (first ++ second) = (m.after first).after second := runFrom_append _ _ _ _

theorem after_keyWrites (m : Machine π) : m.after c.keyWrites =
    { m with luks := if c.espKey.isSome then some c.luksKey else m.luks } := by
  unfold Commit.keyWrites Commit.espKey
  by_cases h : (c.keyResolved && !c.tpmAvailable) = true
  · simp only [h]
    rfl
  · simp only [h]
    rfl

/-- The token that is written is sealed to the new image. -/
theorem sealedFor_token {image : Bytes} (hr : c.reseals = true) (ht : m.stateToken = c.token) :
    m.SealedFor c image ↔ c.predictPcr11 c.staged = c.predictPcr11 image := by
  unfold Commit.reseals Commit.token at hr
  unfold SealedFor
  rw [ht, Commit.token]
  split_ifs at hr ⊢
  · cases hp : c.predictPcr11 c.staged with
    | none => simp [hp] at hr
    | some pcr => simp [eq_comm]
  · simp at hr

/-- After sealing, the token fits what the new image fits, or it is the previous one. -/
theorem sealedFor_after_tokenWrites (image : Bytes) :
    (m.after (c.tokenWrites torn)).SealedFor c image ↔
      (c.reseals = true ∧ c.predictPcr11 c.staged = c.predictPcr11 image) ∨
      (c.reseals = false ∧ m.SealedFor c image) := by
  obtain ⟨-, -, ht⟩ := @after_tokenWrites π c m torn
  cases hr : c.reseals with
  | true =>
    rw [hr] at ht
    rw [sealedFor_token hr ht]
    simp
  | false =>
    rw [hr] at ht
    unfold SealedFor
    rw [ht]
    simp

/-- With the new image in place, it is a matter of the key. -/
theorem bootable_staged {previous : Bytes} {luks : Option Bytes} :
    Bootable c { m with uki := c.staged, luks } previous ↔
      m.SealedFor c c.staged ∨ luks = some c.luksKey :=
  ⟨fun h => h.2, fun h => ⟨.inr rfl, h⟩⟩

end Machine

open Machine

/-- **Crash safety of a commit**, for every machine that can be booted before it.

* The machine can be booted after every cut exactly if an error comes first, so that nothing is
  written: as soon as the file of the image is created, it cannot be booted.
* Between sealing the key and writing the image it can be booted exactly if no token was written to
  STATE, or the key is on the EFI partition, or both images give the same value.
* With the image complete, exactly if the token was written, or the key is on the EFI partition, or
  the previous token fits the new image; when the commit is complete, also if it wrote the key. -/
theorem crash_safe_iff {π : Type} (c : Commit π) (m : Machine π) (torn : Option (Token π))
    (sizes : List ℕ) (hunlocks : m.Unlocks c) (hprevious : m.uki ≠ []) (hstaged : c.staged ≠ []) :
    ((∀ done, done <+: c.writes torn sizes → (m.after done).Bootable c m.uki) ↔ c.begins = false) ∧
    ((m.after (c.tokenWrites torn)).Bootable c m.uki ↔ c.reseals = false ∨ m.luks = some c.luksKey ∨
        c.predictPcr11 c.staged = c.predictPcr11 m.uki) ∧
    ((copied c.staged.length c.staged sizes).flatten = c.staged →
      ((m.after (c.tokenWrites torn ++ c.ukiWrites sizes)).Bootable c m.uki ↔
        c.reseals = true ∨ m.luks = some c.luksKey ∨ m.SealedFor c c.staged) ∧
      (c.begins = true → ((m.after (c.writes torn sizes)).Bootable c m.uki ↔
        c.espKey.isSome = true ∨ c.reseals = true ∨ m.luks = some c.luksKey ∨
          m.SealedFor c c.staged))) := by
  obtain ⟨huki, hluks, -⟩ := @after_tokenWrites π c m torn
  have hsealed := @sealedFor_after_tokenWrites π c m torn
  refine ⟨⟨fun hsafe => ?_, fun hbegins done hdone => ?_⟩, ?_,
    fun hcopied => ⟨?_, fun hbegins => ?_⟩⟩
  · -- the cut right after the file of the image was created
    by_contra hbegins
    rw [Bool.not_eq_false] at hbegins
    have hcut := hsafe (c.tokenWrites torn ++ [.ukiCreate]) (by
      rw [Commit.writes, if_pos hbegins, List.append_assoc]
      exact (List.prefix_append_right_inj _).2 ⟨_, rfl⟩)
    rw [after_append] at hcut
    rcases hcut.1 with hempty | hempty
    · exact hprevious hempty.symm
    · exact hstaged hempty.symm
  · rw [Commit.writes, if_neg (by simp [hbegins]), List.prefix_nil] at hdone
    rw [hdone]
    exact ⟨.inl rfl, hunlocks⟩
  · unfold Bootable Unlocks at *
    rw [huki, hluks, hsealed]
    cases c.reseals with
    | true => simp [or_comm]
    | false => simpa using hunlocks
  · rw [after_append, after_ukiWrites, hcopied, bootable_staged, hluks, hsealed]
    cases c.reseals with
    | true => simp
    | false => simp [or_comm]
  · rw [Commit.writes, if_pos hbegins, if_pos hcopied, after_append, after_append, after_ukiWrites,
      hcopied, after_keyWrites, bootable_staged, hluks]
    change (m.after (c.tokenWrites torn)).SealedFor c c.staged ∨ _ ↔ _
    rw [hsealed]
    cases c.espKey.isSome with
    | true => simp
    | false =>
      cases c.reseals with
      | true => simp
      | false => simp [or_comm]

/-- Images of one byte behind the first bytes of an executable, measured as they are. -/
def measured (image : Bytes) : Option Bytes :=
  if image.length = 3 ∧ image.take 2 = [77, 90] then some (image.drop 2) else none

/-- A machine with a TPM and no key on the EFI partition. -/
def sealedMachine : Machine Bytes := ⟨[77, 90, 1], none, some ⟨[1], [7]⟩, none⟩

/-- The commit of another image on such a machine. -/
def sealedCommit : Commit Bytes :=
  ⟨measured, [7], [77, 90, 2], true, true, false, true, true, true, true⟩

/-- A commit that is not cut leaves the machine bootable. -/
theorem crash_safe_iff_complete :
    (sealedMachine.after (sealedCommit.writes none [3])).Bootable sealedCommit
      sealedMachine.uki := by
  have h := crash_safe_iff sealedCommit sealedMachine none [3]
    (.inl ⟨⟨[1], [7]⟩, rfl, rfl, rfl⟩) (by decide) (by decide)
  exact ((h.2.2 (by decide)).2 (by decide)).2 (.inr (.inl rfl))

/-- **Locked out**: after an error or a cut between sealing the key and writing the image, the
previous image is still there, but the token on STATE is that of the new one. -/
theorem locked_out : sealedMachine.Bootable sealedCommit sealedMachine.uki ∧
    sealedCommit.tokenWrites none <+: sealedCommit.writes none [3] ∧
    (sealedMachine.after (sealedCommit.tokenWrites none)).uki = sealedMachine.uki ∧
    ¬(sealedMachine.after (sealedCommit.tokenWrites none)).Bootable sealedCommit
      sealedMachine.uki := by
  refine ⟨⟨.inl rfl, .inl ⟨_, rfl, rfl, rfl⟩⟩, ⟨_, rfl⟩, rfl, ?_⟩
  rintro ⟨-, ⟨token, ht, hp, -⟩ | hl⟩
  · have ht' : (⟨[2], [7]⟩ : Token Bytes) = token := Option.some.inj ht
    rw [← ht'] at hp
    exact absurd hp (by decide)
  · exact absurd hl (by decide)

end Muak.Provisiond
