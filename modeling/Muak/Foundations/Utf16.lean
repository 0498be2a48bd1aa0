import Mathlib.Data.Nat.Notation
import Mathlib.Tactic.SplitIfs

/-!
# UTF-16

The encoding of text as 16-bit units and the lossy decoder, which replaces what is no text by
U+FFFD. Decoding an encoded text gives it back (`decodeLossy_encode`).
-/

namespace Muak.Utf16

/-- The units of a character: one, or a surrogate pair above U+FFFF. -/
def encodeChar (c : Char) : List UInt16 :=
  if c.toNat < 0x10000 then [UInt16.ofNat c.toNat]
  else
    [UInt16.ofNat (0xD800 + (c.toNat - 0x10000) / 0x400),
      UInt16.ofNat (0xDC00 + (c.toNat - 0x10000) % 0x400)]

/-- `encode_utf16`. -/
def encode (s : String) : List UInt16 := s.toList.flatMap encodeChar

/-- The replacement character. -/
def replacement : Char := Char.ofNat 0xFFFD

/-- `from_utf16_lossy`: a surrogate that is not the first of a pair is replaced, as is one that is
not followed by the second of a pair; the unit after it is then decoded on its own. -/
def decodeChars : List UInt16 → List Char
  | [] => []
  | [u] => if u.toNat < 0xD800 ∨ 0xDFFF < u.toNat then [Char.ofNat u.toNat] else [replacement]
  | u :: u₂ :: units =>
    if u.toNat < 0xD800 ∨ 0xDFFF < u.toNat then Char.ofNat u.toNat :: decodeChars (u₂ :: units)
    else if 0xDC00 ≤ u.toNat then replacement :: decodeChars (u₂ :: units)
    else if u₂.toNat < 0xDC00 ∨ 0xDFFF < u₂.toNat then replacement :: decodeChars (u₂ :: units)
    else
      Char.ofNat (0x10000 + (u.toNat - 0xD800) * 0x400 + (u₂.toNat - 0xDC00)) :: decodeChars units

def decodeLossy (units : List UInt16) : String := String.ofList (decodeChars units)

/-- A unit that is no surrogate is decoded on its own. -/
theorem decodeChars_cons_of_not_surrogate {u : UInt16} (h : u.toNat < 0xD800 ∨ 0xDFFF < u.toNat)
    (units : List UInt16) : decodeChars (u :: units) = Char.ofNat u.toNat :: decodeChars units := by
  cases units with
  | nil => simp [decodeChars, h]
  | cons u₂ units => simp [decodeChars, h]

theorem decodeChars_encodeChar (c : Char) (units : List UInt16) :
    decodeChars (encodeChar c ++ units) = c :: decodeChars units := by
  -- a character is no surrogate and at most U+10FFFF
  have hc : c.toNat < 0xD800 ∨ (0xDFFF < c.toNat ∧ c.toNat < 0x110000) := c.valid
  unfold encodeChar
  split_ifs with hlt
  · have hu : (UInt16.ofNat c.toNat).toNat = c.toNat := UInt16.toNat_ofNat_of_lt' (by exact hlt)
    rw [List.singleton_append, decodeChars_cons_of_not_surrogate (by omega), hu, Char.ofNat_toNat]
  · have hh : (UInt16.ofNat (0xD800 + (c.toNat - 0x10000) / 0x400)).toNat =
        0xD800 + (c.toNat - 0x10000) / 0x400 :=
      UInt16.toNat_ofNat_of_lt' (by simp only [UInt16.size]; omega)
    have hl : (UInt16.ofNat (0xDC00 + (c.toNat - 0x10000) % 0x400)).toNat =
        0xDC00 + (c.toNat - 0x10000) % 0x400 :=
      UInt16.toNat_ofNat_of_lt' (by simp only [UInt16.size]; omega)
    simp only [List.cons_append, List.nil_append, decodeChars, hh, hl]
    rw [if_neg (by omega), if_neg (by omega), if_neg (by omega),
      show 0x10000 + (0xD800 + (c.toNat - 0x10000) / 0x400 - 0xD800) * 0x400 +
        (0xDC00 + (c.toNat - 0x10000) % 0x400 - 0xDC00) = c.toNat by omega, Char.ofNat_toNat]

/-- **Decoding an encoded text gives it back.** -/
theorem decodeLossy_encode (s : String) : decodeLossy (encode s) = s := by
  have h : ∀ cs : List Char, decodeChars (cs.flatMap encodeChar) = cs := by
    intro cs
    induction cs with
    | nil => rfl
    | cons c cs ih => rw [List.flatMap_cons, decodeChars_encodeChar, ih]
  rw [decodeLossy, encode, h, String.ofList_toList]

end Muak.Utf16
