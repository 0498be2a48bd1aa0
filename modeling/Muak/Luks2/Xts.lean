import Muak.Luks2.Metadata

/-!
# AES-XTS

`libs/luks2/src/xts.rs`: the key has two halves, one for the data and one for the tweak. Each block
of 16 bytes is encrypted between two exclusive ors with the tweak, and the tweak is multiplied by
`x` in GF(2^128) from block to block. What does not fill a block stays as it is.

* `xtsBlocks_xtsBlocks`: the two directions are inverse, block by block with the same tweaks.
* `decrypt_encrypt`: decryption undoes encryption.

The block cipher is a parameter.
-/

namespace Muak.Luks2

open Muak.Bytes List

/-- A cipher on blocks of 16 bytes. -/
structure BlockCipher where
  encryptBlock : (key block : Bytes) → Bytes
  decryptBlock : (key block : Bytes) → Bytes
  length_encryptBlock : ∀ {key block}, block.length = 16 → (encryptBlock key block).length = 16
  length_decryptBlock : ∀ {key block}, block.length = 16 → (decryptBlock key block).length = 16
  decrypt_encrypt : ∀ {key block}, block.length = 16 →
    decryptBlock key (encryptBlock key block) = block

inductive Mode
  | encrypt
  | decrypt

namespace BlockCipher

variable (cipher : BlockCipher)

/-- The cipher of a block. -/
def process : Mode → (key block : Bytes) → Bytes
  | .encrypt => cipher.encryptBlock
  | .decrypt => cipher.decryptBlock

variable {cipher}

theorem length_process {mode : Mode} {key block : Bytes} (h : block.length = 16) :
    (cipher.process mode key block).length = 16 := by
  cases mode with
  | encrypt => exact cipher.length_encryptBlock h
  | decrypt => exact cipher.length_decryptBlock h

end BlockCipher

/-! ## The tweak -/

/-- The bytes shifted left by one bit, with the bit that comes in and the one that goes out. -/
def shiftLeft (carry : UInt8) : Bytes → Bytes × UInt8
  | [] => ([], carry)
  | byte :: bytes =>
    let (shifted, out) := shiftLeft (byte >>> 7) bytes
    ((byte <<< 1 ||| carry) :: shifted, out)

/-- Multiply by `x`: a bit that goes out is reduced with the polynomial. -/
def gf128MulX (tweak : Bytes) : Bytes :=
  let (shifted, carry) := shiftLeft 0 tweak
  if carry = 1 then xorInto shifted [0x87] else shifted

/-! ## The blocks -/

section

variable (cipher : BlockCipher)

/-- The blocks, the first one with the given tweak. -/
def xtsBlocks (mode : Mode) (key tweak : Bytes) : List Bytes → List Bytes
  | [] => []
  | block :: blocks =>
    xorInto (cipher.process mode key (xorInto block tweak)) tweak ::
      xtsBlocks mode key (gf128MulX tweak) blocks

/-- All whole blocks of the data, each with its tweak. -/
def xtsProcess (key tweak data : Bytes) (mode : Mode) : Result Bytes :=
  if key.length ≠ 64 then .error (.invalidField "AES-XTS key must be 64 bytes")
  else if data.length < 16 then .error (.invalidField "data must be at least 16 bytes")
  else
    let key1 := key.take 32
    let key2 := key.drop 32
    let count := data.length / 16
    .ok ((xtsBlocks cipher mode key1 (cipher.encryptBlock key2 tweak)
      (chunks 16 count data)).flatten ++ data.drop (count * 16))

def encrypt (key tweak data : Bytes) : Result Bytes :=
  xtsProcess cipher key tweak data .encrypt

def decrypt (key tweak data : Bytes) : Result Bytes :=
  xtsProcess cipher key tweak data .decrypt

end

variable {cipher : BlockCipher} {mode : Mode} {key tweak : Bytes} {blocks : List Bytes}

@[simp] theorem length_xtsBlocks (blocks : List Bytes) :
    (xtsBlocks cipher mode key tweak blocks).length = blocks.length := by
  induction blocks generalizing tweak with
  | nil => rfl
  | cons block blocks ih => simp [xtsBlocks, ih]

theorem length_of_mem_xtsBlocks (h : ∀ block ∈ blocks, block.length = 16) :
    ∀ block ∈ xtsBlocks cipher mode key tweak blocks, block.length = 16 := by
  induction blocks generalizing tweak with
  | nil => exact fun _ hm => absurd hm not_mem_nil
  | cons first blocks ih =>
    obtain ⟨hf, hb⟩ := forall_mem_cons.1 h
    refine forall_mem_cons.2 ⟨?_, ih hb⟩
    rw [length_xorInto]
    exact BlockCipher.length_process (by rw [length_xorInto, hf])

/-- **Decryption follows encryption block by block**, with the same tweaks. -/
theorem xtsBlocks_xtsBlocks (h : ∀ block ∈ blocks, block.length = 16) :
    xtsBlocks cipher .decrypt key tweak (xtsBlocks cipher .encrypt key tweak blocks) = blocks := by
  induction blocks generalizing tweak with
  | nil => rfl
  | cons block blocks ih =>
    obtain ⟨hbl, hb⟩ := forall_mem_cons.1 h
    rw [xtsBlocks, xtsBlocks, ih hb, xorInto_xorInto]
    rw [BlockCipher.process, BlockCipher.process,
      cipher.decrypt_encrypt (by rw [length_xorInto, hbl]), xorInto_xorInto]

/-- **Decryption undoes encryption**, for data of any length from one block on. -/
theorem decrypt_encrypt {data : Bytes} (hk : key.length = 64) (hd : 16 ≤ data.length) :
    ∃ out, encrypt cipher key tweak data = .ok out ∧ out.length = data.length ∧
      decrypt cipher key tweak out = .ok data := by
  have hb : ∀ block ∈ chunks 16 (data.length / 16) data, block.length = 16 :=
    fun _ => length_of_mem_chunks (Nat.div_mul_le_self _ _)
  have hok : ∀ {mode : Mode} {bytes : Bytes}, bytes.length = data.length →
      xtsProcess cipher key tweak bytes mode = .ok
        ((xtsBlocks cipher mode (key.take 32) (cipher.encryptBlock (key.drop 32) tweak)
          (chunks 16 (data.length / 16) bytes)).flatten ++ bytes.drop (data.length / 16 * 16)) := by
    intro mode bytes hby
    rw [xtsProcess, if_neg (by simp [hk]), if_neg (by omega), hby]
  have he : ∀ block ∈ xtsBlocks cipher .encrypt (key.take 32)
      (cipher.encryptBlock (key.drop 32) tweak) (chunks 16 (data.length / 16) data),
      block.length = 16 := length_of_mem_xtsBlocks hb
  have hcn : (xtsBlocks cipher .encrypt (key.take 32)
      (cipher.encryptBlock (key.drop 32) tweak) (chunks 16 (data.length / 16) data)).length =
      data.length / 16 := by rw [length_xtsBlocks, length_chunks]
  refine ⟨_, hok rfl, ?_, ?_⟩
  · rw [length_append, length_flatten_of_length he, length_drop]
    omega
  · rw [decrypt, hok]
    · -- the blocks of the result are the encrypted ones
      have hf := length_flatten_of_length he
      have hc := chunks_flatten he (data.drop (data.length / 16 * 16))
      rw [hcn] at hf hc
      rw [drop_left' hf, hc, xtsBlocks_xtsBlocks hb, flatten_chunks_append]
    · rw [length_append, length_flatten_of_length he, length_drop]
      omega

end Muak.Luks2
