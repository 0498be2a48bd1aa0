import Muak.Luks2.Xts

/-!
# Keyslots

`libs/luks2/src/keyslot.rs`: the volume key is split into stripes that only together give it back,
and these are encrypted with a key derived from the passphrase.

* `afMerge_afSplit`: merging undoes splitting, for every diffusion that keeps the length and every
  choice of the random stripes.
* `keyslot_round_trip`: decrypting a keyslot gives the key that was encrypted.

Hash, key derivation, block cipher and Base64 are parameters, as are the random bytes. The random
number generator does not fail.
-/

namespace Muak.Luks2

open Muak.Bytes List Except

/-! ## Splitting and merging -/

/-- A diffusion of a buffer. -/
abbrev Diffusion := Bytes → Result Bytes

section

variable (diffuse : Diffusion) (random : ℕ → ℕ → UInt8)

/-- Take a stripe into the accumulator and diffuse it. -/
def absorb (diffusion stripe : Bytes) : Result Bytes :=
  diffuse (xorInto diffusion stripe)

/-- The random bytes of a stripe. -/
def randomStripe (keySize stripe : ℕ) : Bytes :=
  (range keySize).map (random stripe)

/-- `random stripe i` is byte `i` of the stripe. -/
def afSplit (key : Bytes) (stripes : UInt32) : Result Bytes := do
  let keySize := key.length
  if keySize * stripes.toNat ≥ 2 ^ 64 then .error (.invalidField "AF split size overflow")
  else
    let buf := (range (stripes.toNat - 1)).map (randomStripe random keySize)
    let diffusion ← buf.foldlM (absorb diffuse) (zeros keySize)
    if stripes = 0 then .error (.invalidField "missing last stripe")
    else .ok (buf.flatten ++ xorInto key diffusion)

/-- One stripe of the merge: the last one is not diffused. -/
def mergeStripe (stripes : ℕ) (diffusion : Bytes) (stripe : Bytes × ℕ) : Result Bytes :=
  if stripe.2 < stripes - 1 then absorb diffuse diffusion stripe.1
  else .ok (xorInto diffusion stripe.1)

/-- The key from its stripes. -/
def afMerge (data : Bytes) (keySize : ℕ) (stripes : UInt32) : Result Bytes :=
  if keySize * stripes.toNat ≥ 2 ^ 64 then .error (.invalidField "AF merge size overflow")
  else if data.length ≠ keySize * stripes.toNat then .error (.invalidField "AF data size mismatch")
  else
    (chunks keySize stripes.toNat data).zipIdx.foldlM (mergeStripe diffuse stripes.toNat)
      (zeros keySize)

end

variable {diffuse : Diffusion} {random : ℕ → ℕ → UInt8}

/-- The diffusion keeps the length of the buffer. -/
def KeepsLength (diffuse : Diffusion) : Prop :=
  ∀ {data out}, diffuse data = .ok out → out.length = data.length

variable {stripes : List Bytes}

theorem length_foldlM_absorb (hd : KeepsLength diffuse) {start out : Bytes}
    (h : stripes.foldlM (absorb diffuse) start = .ok out) : out.length = start.length := by
  induction stripes generalizing start with
  | nil =>
    rw [← ok.inj h]
  | cons stripe stripes ih =>
    obtain ⟨next, hn, h⟩ := of_bind h
    rw [ih h, hd hn, length_xorInto]

/-- **All stripes but the last** are taken in by the merge as by the split. -/
theorem foldlM_mergeStripe {first count : ℕ} (h : first + stripes.length ≤ count - 1)
    (start : Bytes) : (stripes.zipIdx first).foldlM (mergeStripe diffuse count) start =
      stripes.foldlM (absorb diffuse) start := by
  induction stripes generalizing first start with
  | nil => rfl
  | cons stripe stripes ih =>
    rw [length_cons] at h
    rw [zipIdx_cons, foldlM_cons, mergeStripe, if_pos (by omega)]
    refine congrArg _ (funext fun next => ?_)
    exact ih (by omega) next

@[simp] theorem length_randomStripe (random : ℕ → ℕ → UInt8) (keySize stripe : ℕ) :
    (randomStripe random keySize stripe).length = keySize := by
  simp [randomStripe]

variable {stripes : UInt32}

/-- What a split consists of: random stripes, and the key behind their diffusion. -/
theorem afSplit_eq_ok_iff {key out : Bytes} : afSplit diffuse random key stripes = .ok out ↔
      key.length * stripes.toNat < 2 ^ 64 ∧ stripes ≠ 0 ∧ ∃ diffusion,
        ((range (stripes.toNat - 1)).map (randomStripe random key.length)).foldlM
          (absorb diffuse) (zeros key.length) = .ok diffusion ∧
        out = ((range (stripes.toNat - 1)).map (randomStripe random key.length)).flatten ++
          xorInto key diffusion := by
  unfold afSplit
  by_cases hs : key.length * stripes.toNat ≥ 2 ^ 64
  · rw [if_pos hs]
    refine ⟨fun h => absurd h (by simp), fun h => ?_⟩
    omega
  · rw [if_neg hs, bind_eq_ok_iff]
    by_cases hz : stripes = 0
    · simp [hz]
    · simp only [hz, if_false, ok.injEq, ne_eq, not_false_eq_true, true_and, eq_comm]
      exact ⟨fun h => ⟨by omega, h⟩, fun h => h.2⟩

/-- **Merging undoes splitting**, for every diffusion and every choice of the random bytes. -/
theorem afMerge_afSplit (hd : KeepsLength diffuse) {key data : Bytes}
    (h : afSplit diffuse random key stripes = .ok data) :
    afMerge diffuse data key.length stripes = .ok key := by
  obtain ⟨hsz, hz, diffusion, hfl, rfl⟩ := afSplit_eq_ok_iff.1 h
  have hp : 0 < stripes.toNat := by
    rw [Nat.pos_iff_ne_zero]
    exact fun h0 => hz (UInt32.toNat_inj.1 h0)
  generalize hbf : (range (stripes.toNat - 1)).map (randomStripe random key.length) = buf at hfl
  have hl : ∀ stripe ∈ buf ++ [xorInto key diffusion], stripe.length = key.length := by
    intro stripe hs
    rcases mem_append.1 hs with hs | hs
    · rw [← hbf] at hs
      obtain ⟨i, -, rfl⟩ := mem_map.1 hs
      exact length_randomStripe _ _ _
    · rw [mem_singleton.1 hs, length_xorInto]
  have hcn : (buf ++ [xorInto key diffusion]).length = stripes.toNat := by
    rw [← hbf]
    simp only [length_append, length_map, length_range, length_singleton]
    omega
  have hf : buf.flatten ++ xorInto key diffusion =
      (buf ++ [xorInto key diffusion]).flatten := by simp
  have hdt := length_flatten_of_length hl
  rw [hcn, Nat.mul_comm] at hdt
  have hc := chunks_flatten hl []
  rw [hcn, append_nil] at hc
  have hb : buf.length = stripes.toNat - 1 := by
    rw [← hbf]
    simp
  rw [afMerge, if_neg (by omega), hf, if_neg (not_not_intro hdt), hc, zipIdx_append,
    foldlM_append, foldlM_mergeStripe (by omega), hfl, ok_bind]
  -- the last stripe is the key behind the diffusion
  have hlen : diffusion.length = key.length := by
    rw [length_foldlM_absorb hd hfl, length_zeros]
  simp only [zipIdx_cons, foldlM_cons, mergeStripe]
  rw [if_neg (by omega), xorInto_comm (by rw [length_xorInto, hlen]), xorInto_xorInto]
  rfl

theorem length_of_afMerge {data key : Bytes} {keySize : ℕ}
    (h : afMerge diffuse data keySize stripes = .ok key) :
    data.length = keySize * stripes.toNat := by
  unfold afMerge at h
  split_ifs at h with hs hlen
  exact not_not.1 hlen

/-- Splitting succeeds where the diffusion does. -/
theorem exists_afSplit (hd : KeepsLength diffuse) {key : Bytes}
    (ht : ∀ data, data.length = key.length → ∃ out, diffuse data = .ok out)
    (hsz : key.length * stripes.toNat < 2 ^ 64) (hstripes : stripes ≠ 0)
    (random : ℕ → ℕ → UInt8) : ∃ data, afSplit diffuse random key stripes = .ok data := by
  have hf : ∀ (buf : List Bytes) (start : Bytes), start.length = key.length →
      ∃ diffusion, buf.foldlM (absorb diffuse) start = .ok diffusion := by
    intro buf
    induction buf with
    | nil => exact fun start _ => ⟨start, rfl⟩
    | cons stripe buf ih =>
      intro start hs
      obtain ⟨next, hn⟩ := ht (xorInto start stripe) (by rw [length_xorInto, hs])
      obtain ⟨diffusion, h⟩ := ih next (by rw [hd hn, length_xorInto, hs])
      exact ⟨diffusion, by rw [foldlM_cons, absorb, hn, ok_bind, h]⟩
  obtain ⟨diffusion, h⟩ := hf
    ((range (stripes.toNat - 1)).map (randomStripe random key.length)) (zeros key.length)
    (length_zeros _)
  exact ⟨_, afSplit_eq_ok_iff.2 ⟨hsz, hstripes, diffusion, h, rfl⟩⟩

/-! ## The diffusion -/

/-- What the keyslots rest on. -/
structure Crypto where
  cipher : BlockCipher
  sha256 : Bytes → Bytes
  length_sha256 : ∀ data, (sha256 data).length = 32
  /-- Argon2id with memory, time and parallelism, and the length of the result. -/
  argon2id : (passphrase salt : Bytes) → (mCost tCost pCost : UInt32) → (len : ℕ) → Result Bytes
  length_argon2id : ∀ {passphrase salt mCost tCost pCost len out},
    argon2id passphrase salt mCost tCost pCost len = .ok out → out.length = len
  pbkdf2 : (password salt : Bytes) → (iterations : UInt32) → Bytes
  encodeBase64 : Bytes → String
  decodeBase64 : String → Result Bytes

namespace Crypto

variable (crypto : Crypto)

/-- Each piece becomes its hash, together with its number; a short piece that of its length. -/
def diffusePieces : ℕ → List Bytes → Result Bytes
  | _, [] => .ok []
  | index, piece :: pieces => do
    if index < 2 ^ 32 then
      let rest ← diffusePieces (index + 1) pieces
      .ok ((crypto.sha256 (beBytes 4 index ++ piece)).take piece.length ++ rest)
    else .error (.invalidField "too many AF chunks")

/-- The diffusion with SHA-256: pieces of 32 bytes, and what remains. -/
def afDiffuse : Diffusion := fun data =>
  let count := data.length / 32
  let remainder := data.drop (count * 32)
  crypto.diffusePieces 0 (chunks 32 count data ++ if remainder = [] then [] else [remainder])

variable {crypto}

variable {pieces : List Bytes}

theorem length_diffusePieces {index : ℕ} {out : Bytes} (hp : ∀ piece ∈ pieces, piece.length ≤ 32)
    (h : crypto.diffusePieces index pieces = .ok out) : out.length = pieces.flatten.length := by
  induction pieces generalizing index out with
  | nil =>
    rw [← ok.inj h]
    rfl
  | cons piece pieces ih =>
    obtain ⟨hpc, hp⟩ := forall_mem_cons.1 hp
    simp only [diffusePieces] at h
    split_ifs at h with hi
    obtain ⟨rest, hrest, h⟩ := of_bind h
    rw [← ok.inj h, length_append, length_take, crypto.length_sha256, ih hp hrest,
      flatten_cons, length_append]
    omega

theorem keepsLength_afDiffuse : KeepsLength crypto.afDiffuse := by
  intro data out h
  have hrest : (data.drop (data.length / 32 * 32)).length < 32 := by
    rw [length_drop]
    omega
  have hp : ∀ piece ∈ chunks 32 (data.length / 32) data ++
      (if data.drop (data.length / 32 * 32) = [] then []
        else [data.drop (data.length / 32 * 32)]), piece.length ≤ 32 := by
    intro piece hpc
    rcases mem_append.1 hpc with hpc | hpc
    · exact Nat.le_of_eq (length_of_mem_chunks (Nat.div_mul_le_self _ _) hpc)
    · split_ifs at hpc with hn
      · exact absurd hpc not_mem_nil
      · rw [mem_singleton.1 hpc]
        omega
  have hf : (if data.drop (data.length / 32 * 32) = [] then ([] : List Bytes)
      else [data.drop (data.length / 32 * 32)]).flatten = data.drop (data.length / 32 * 32) := by
    split_ifs with hn
    · rw [hn]
      rfl
    · simp
  rw [length_diffusePieces hp h, flatten_append, hf, flatten_chunks_append]

theorem exists_diffusePieces {index : ℕ} (h : index + pieces.length ≤ 2 ^ 32) :
    ∃ out, crypto.diffusePieces index pieces = .ok out := by
  induction pieces generalizing index with
  | nil => exact ⟨[], rfl⟩
  | cons piece pieces ih =>
    rw [length_cons] at h
    obtain ⟨rest, hrest⟩ := @ih (index + 1) (by omega)
    exact ⟨_, by rw [diffusePieces, if_pos (by omega), hrest, ok_bind]⟩

/-- Every key of a realistic size is diffused. -/
theorem exists_afDiffuse {data : Bytes} (h : data.length < 2 ^ 32) :
    ∃ out, crypto.afDiffuse data = .ok out := by
  refine exists_diffusePieces ?_
  rw [length_append, length_chunks]
  split_ifs
  · rw [length_nil]
    omega
  · rw [length_singleton]
    omega

end Crypto

/-! ## Keyslots -/

section

variable (crypto : Crypto)

def deriveKey (passphrase : Bytes) (keyslot : Keyslot) : Result Bytes :=
  if keyslot.kdf.type ≠ "argon2id" then .error (.unsupportedKdf keyslot.kdf.type)
  else do
    let salt ← crypto.decodeBase64 keyslot.kdf.salt
    crypto.argon2id passphrase salt (keyslot.kdf.memory.getD 0x00100000)
      (keyslot.kdf.time.getD 4) (keyslot.kdf.cpus.getD 4) keyslot.keySize.toNat

/-- The stripes of the volume key, encrypted with the key of a passphrase. -/
def encryptKeyslot (random : ℕ → ℕ → UInt8) (passphrase volumeKey : Bytes)
    (keyslot : Keyslot) : Result Bytes := do
  let derivedKey ← deriveKey crypto passphrase keyslot
  let striped ← afSplit crypto.afDiffuse random volumeKey keyslot.af.stripes
  encrypt crypto.cipher derivedKey (zeros 16) striped

/-- The volume key, from the passphrase and the stripes. -/
def decryptKeyslot (passphrase : Bytes) (keyslot : Keyslot) (encryptedData : Bytes) :
    Result Bytes := do
  let derivedKey ← deriveKey crypto passphrase keyslot
  let data ← decrypt crypto.cipher derivedKey (zeros 16) encryptedData
  afMerge crypto.afDiffuse data keyslot.keySize.toNat keyslot.af.stripes

end

variable {crypto : Crypto} {passphrase : Bytes} {keyslot : Keyslot}

theorem length_deriveKey {derivedKey : Bytes}
    (h : deriveKey crypto passphrase keyslot = .ok derivedKey) :
    derivedKey.length = keyslot.keySize.toNat := by
  unfold deriveKey at h
  split_ifs at h with ht
  obtain ⟨salt, -, h⟩ := of_bind h
  exact crypto.length_argon2id h

theorem length_of_encrypt {cipher : BlockCipher} {key tweak data out : Bytes}
    (h : encrypt cipher key tweak data = .ok out) : key.length = 64 := by
  unfold encrypt xtsProcess at h
  split_ifs at h with hkey
  exact not_not.1 hkey

section

variable {random : ℕ → ℕ → UInt8} {volumeKey : Bytes} (hkey : volumeKey.length = 64)
  (hstripes : 1 ≤ keyslot.af.stripes) {data : Bytes}

include hkey hstripes

/-- The material of a keyslot is long enough to be encrypted. -/
theorem le_length_afSplit {striped : Bytes}
    (h : afSplit crypto.afDiffuse random volumeKey keyslot.af.stripes = .ok striped) :
    16 ≤ striped.length := by
  have hp : 1 ≤ keyslot.af.stripes.toNat := UInt32.le_iff_toNat_le.1 hstripes
  rw [length_of_afMerge (afMerge_afSplit Crypto.keepsLength_afDiffuse h), hkey]
  omega

theorem decryptKeyslot_encryptKeyslot
    (h : encryptKeyslot crypto random passphrase volumeKey keyslot = .ok data) :
    decryptKeyslot crypto passphrase keyslot data = .ok volumeKey := by
  obtain ⟨derivedKey, hd, h⟩ := of_bind h
  obtain ⟨striped, hs, h⟩ := of_bind h
  have hlen := length_of_encrypt h
  obtain ⟨out, ho, -, hdc⟩ := @decrypt_encrypt crypto.cipher _ (zeros 16) _ hlen
    (le_length_afSplit hkey hstripes hs)
  have hsz : keyslot.keySize.toNat = volumeKey.length := by
    rw [← length_deriveKey hd, hlen, hkey]
  rw [← ok.inj (ho.symm.trans h), decryptKeyslot, hd, ok_bind, hdc, hsz]
  exact afMerge_afSplit Crypto.keepsLength_afDiffuse hs

theorem length_encryptKeyslot
    (h : encryptKeyslot crypto random passphrase volumeKey keyslot = .ok data) :
    data.length = 64 * keyslot.af.stripes.toNat := by
  obtain ⟨derivedKey, hd, h⟩ := of_bind h
  obtain ⟨striped, hs, h⟩ := of_bind h
  obtain ⟨out, ho, hlen, -⟩ := @decrypt_encrypt crypto.cipher _ (zeros 16) _
    (length_of_encrypt h) (le_length_afSplit hkey hstripes hs)
  rw [← ok.inj (ho.symm.trans h), hlen,
    length_of_afMerge (afMerge_afSplit Crypto.keepsLength_afDiffuse hs), hkey]

/-- Encrypting succeeds once a key is derived, and that has 64 bytes. -/
theorem encryptKeyslot_eq_ok (hsz : keyslot.keySize = 64) {derivedKey : Bytes}
    (hd : deriveKey crypto passphrase keyslot = .ok derivedKey) :
    ∃ data, encryptKeyslot crypto random passphrase volumeKey keyslot = .ok data := by
  have hf : volumeKey.length * keyslot.af.stripes.toNat < 2 ^ 64 := by
    have := keyslot.af.stripes.toNat_lt
    rw [hkey]
    omega
  have hsm : keyslot.af.stripes ≠ 0 := by
    rintro hz
    rw [hz] at hstripes
    exact absurd hstripes (by decide)
  obtain ⟨striped, hs⟩ := exists_afSplit Crypto.keepsLength_afDiffuse
    (fun data hdt => @Crypto.exists_afDiffuse crypto data (by omega)) hf hsm random
  have hlen : derivedKey.length = 64 := by
    rw [length_deriveKey hd, hsz]
    rfl
  obtain ⟨out, ho, -, -⟩ := @decrypt_encrypt crypto.cipher _ (zeros 16) _ hlen
    (le_length_afSplit hkey hstripes hs)
  exact ⟨out, by rw [encryptKeyslot, hd, ok_bind, hs, ok_bind, ho]⟩

end

/-- **The keyslot round trip.** For every passphrase, salt, number of stripes and choice of the
random bytes, what was encrypted is decrypted to the volume key; and encrypting fails only when
no key of the right size can be derived. -/
theorem keyslot_round_trip (crypto : Crypto) (random : ℕ → ℕ → UInt8)
    (passphrase volumeKey : Bytes) (keyslot : Keyslot) (hkey : volumeKey.length = 64)
    (hstripes : 1 ≤ keyslot.af.stripes) :
    (∀ data, encryptKeyslot crypto random passphrase volumeKey keyslot = .ok data →
      decryptKeyslot crypto passphrase keyslot data = .ok volumeKey) ∧
    ((∃ data, encryptKeyslot crypto random passphrase volumeKey keyslot = .ok data) ↔
      keyslot.keySize = 64 ∧
        ∃ derivedKey, deriveKey crypto passphrase keyslot = .ok derivedKey) := by
  refine ⟨fun data h => decryptKeyslot_encryptKeyslot hkey hstripes h, fun ⟨data, h⟩ => ?_,
    fun ⟨hs, derivedKey, hd⟩ => ?_⟩
  · obtain ⟨derivedKey, hd, h⟩ := of_bind h
    obtain ⟨striped, -, h⟩ := of_bind h
    refine ⟨UInt32.toNat_inj.1 ?_, derivedKey, hd⟩
    rw [← length_deriveKey hd, length_of_encrypt h]
    rfl
  · exact encryptKeyslot_eq_ok hkey hstripes hs hd

/-- The cipher that changes nothing, a constant hash and a constant derivation. -/
def plainCrypto : Crypto where
  cipher :=
    { encryptBlock := fun _ block => block
      decryptBlock := fun _ block => block
      length_encryptBlock := id
      length_decryptBlock := id
      decrypt_encrypt := fun _ => rfl }
  sha256 := fun _ => zeros 32
  length_sha256 := fun _ => length_zeros 32
  argon2id := fun _ _ _ _ _ len => .ok (zeros len)
  length_argon2id := fun h => by rw [← ok.inj h, length_zeros]
  pbkdf2 := fun _ _ _ => []
  encodeBase64 := fun _ => ""
  decodeBase64 := fun _ => .ok []

theorem keyslot_round_trip_three_stripes :
    let keyslot : Keyslot := ⟨"luks2", 64, ⟨"argon2id", "", none, none, none⟩,
      ⟨"luks1", 3, "sha256"⟩, ⟨"raw", "32768", "192", cipherSpec, 64⟩⟩
    let volumeKey := (range 64).map Nat.toUInt8
    ∃ data, encryptKeyslot plainCrypto (fun stripe i => (stripe + i).toUInt8) [1] volumeKey
      keyslot = .ok data ∧ decryptKeyslot plainCrypto [1] keyslot data = .ok volumeKey := by
  intro keyslot volumeKey
  obtain ⟨hr, ht⟩ := keyslot_round_trip plainCrypto (fun stripe i => (stripe + i).toUInt8)
    [1] volumeKey keyslot rfl (by decide)
  obtain ⟨data, hd⟩ := ht.2 ⟨rfl, zeros 64, rfl⟩
  exact ⟨data, hd, hr data hd⟩

end Muak.Luks2
