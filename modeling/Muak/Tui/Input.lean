import Mathlib.Data.List.TakeWhile
import Muak.Foundations.Bytes

/-!
# Keys from a terminal

`libs/tui/src/input.rs`: a decoder is given the bytes of a terminal piece by piece, and keeps the
beginning of an escape sequence until the rest of it comes.

* `decode_append`: what is kept, with what comes next, decodes as if it had come at once.
* `pushAll_eq_push`: keys do not depend on where the bytes are cut, unless a cut is so far behind
  the beginning of a sequence that it is given up.
-/

namespace Muak.Tui

open List

inductive Key
  | up
  | down
  | left
  | right
  | home
  | «end»
  | pageUp
  | pageDown
  | enter
  | tab
  | backspace
  | esc
  | delete
  | insert
  | char (byte : UInt8)
  deriving DecidableEq

def maxPendingBytes : ℕ := 16

/-- The key of a single byte. -/
def plainKey (byte : UInt8) : Option Key :=
  if byte = 0x0D ∨ byte = 0x0A then some .enter
  else if byte = 0x09 then some .tab
  else if byte = 0x7F ∨ byte = 0x08 then some .backspace
  else if 0x20 ≤ byte ∧ byte ≤ 0x7E then some (.char byte)
  else none

/-- The end of a control sequence: a letter or a tilde. -/
def csiEnd (seq : Bytes) : Option ℕ :=
  (seq.findIdx? fun byte =>
    (0x41 ≤ byte ∧ byte ≤ 0x5A) ∨ (0x61 ≤ byte ∧ byte ≤ 0x7A) ∨ byte = 0x7E).map (· + 1)

def csiKey : Bytes → Option Key
  | [0x41] => some .up
  | [0x42] => some .down
  | [0x43] => some .right
  | [0x44] => some .left
  | [0x48] | [0x31, 0x7E] | [0x37, 0x7E] => some .home
  | [0x46] | [0x34, 0x7E] | [0x38, 0x7E] => some .end
  | [0x32, 0x7E] => some .insert
  | [0x33, 0x7E] => some .delete
  | [0x35, 0x7E] => some .pageUp
  | [0x36, 0x7E] => some .pageDown
  | _ => none

def ss3Key (byte : UInt8) : Option Key :=
  if byte = 0x41 then some .up
  else if byte = 0x42 then some .down
  else if byte = 0x43 then some .right
  else if byte = 0x44 then some .left
  else none

/-- The sequence at the front of the buffer, if it is complete: its key and its length. -/
def sequenceLen (pending : Bytes) : Option (Option Key × ℕ) :=
  match pending[1]? with
  | none => none
  | some second =>
    if second = 0x5B then
      (csiEnd (pending.drop 2)).map fun len => (csiKey ((pending.drop 2).take len), 2 + len)
    else if second = 0x4F then pending[2]?.map fun byte => (ss3Key byte, 3)
    else some (some .esc, 1)

/-- The keys in front of the first escape, and the bytes from there on. -/
def takePlain (pending : Bytes) : List Key × Bytes :=
  ((pending.takeWhile (· ≠ 0x1B)).filterMap plainKey, pending.dropWhile (· ≠ 0x1B))

/-- A complete sequence is not changed by what comes after it. -/
theorem sequenceLen_append {pending : Bytes} {found : Option Key × ℕ}
    (h : sequenceLen pending = some found) : 0 < found.2 ∧ found.2 ≤ pending.length ∧
      ∀ bytes, sequenceLen (pending ++ bytes) = some found := by
  rcases pending with _ | ⟨first, _ | ⟨second, rest⟩⟩
  · simp [sequenceLen] at h
  · simp [sequenceLen] at h
  · simp only [sequenceLen, getElem?_cons_succ, getElem?_cons_zero, drop_succ_cons,
      drop_zero, cons_append] at h ⊢
    split_ifs at h ⊢ with hc hss3
    · obtain ⟨len, hlen, rfl⟩ := Option.map_eq_some_iff.1 h
      obtain ⟨i, hi, rfl⟩ := Option.map_eq_some_iff.1 hlen
      have hlt : i < rest.length := (findIdx?_eq_some_iff_getElem.1 hi).1
      refine ⟨Nat.succ_pos _, by simp; omega, fun bytes => ?_⟩
      rw [csiEnd, findIdx?_append, hi]
      simp [take_append_of_le_length hlt]
    · obtain ⟨byte, hb, rfl⟩ := Option.map_eq_some_iff.1 h
      have hlt : 0 < rest.length := (List.getElem?_eq_some_iff.1 hb).1
      refine ⟨by simp, by simp; omega, fun bytes => ?_⟩
      rw [getElem?_append_left hlt, hb, Option.map_some]
    · cases h
      exact ⟨by simp, by simp, fun _ => rfl⟩

/-- `while self.next_sequence(&mut keys) {}`. -/
def decode (pending : Bytes) : List Key × Bytes :=
  match _h : sequenceLen (takePlain pending).2 with
  | none => takePlain pending
  | some (key, len) =>
    let (keys, rest) := decode ((takePlain pending).2.drop len)
    ((takePlain pending).1 ++ key.toList ++ keys, rest)
termination_by pending.length
decreasing_by
  obtain ⟨hpos, hle, -⟩ := sequenceLen_append _h
  have hrest : (takePlain pending).2.length ≤ pending.length := (dropWhile_suffix _).length_le
  rw [length_drop]
  omega

def trimPending (pending : Bytes) : Bytes :=
  if pending.head? = some 0x1B ∧ pending.length < maxPendingBytes then pending else []

def push (pending bytes : Bytes) : List Key × Bytes :=
  ((decode (pending ++ bytes)).1, trimPending (decode (pending ++ bytes)).2)

/-- The pieces are pushed one after the other. -/
def pushAll (pending : Bytes) : List Bytes → List Key × Bytes
  | [] => ([], pending)
  | bytes :: chunks =>
    let rest := pushAll (push pending bytes).2 chunks
    ((push pending bytes).1 ++ rest.1, rest.2)

/-! ## Pieces -/

/-- What may be left: nothing, or a sequence that is not complete. -/
def Unfinished (pending : Bytes) : Prop :=
  pending = [] ∨ pending.head? = some 0x1B ∧ sequenceLen pending = none

variable {pending : Bytes}

theorem takePlain_of_head (h : pending.head? = some 0x1B) : takePlain pending = ([], pending) := by
  obtain ⟨rest, rfl⟩ := head?_eq_some_iff.1 h
  simp [takePlain]

theorem decode_of_unfinished (h : Unfinished pending) : decode pending = ([], pending) := by
  rw [decode.eq_def]
  rcases h with rfl | ⟨hh, hn⟩
  · rfl
  · rw [takePlain_of_head hh]
    split <;> simp_all

theorem decode_of_sequence {key : Option Key} {len : ℕ} (hh : pending.head? = some 0x1B)
    (h : sequenceLen pending = some (key, len)) : decode pending =
      (key.toList ++ (decode (pending.drop len)).1, (decode (pending.drop len)).2) := by
  rw [decode.eq_def, takePlain_of_head hh]
  split <;> simp_all

/-- Bytes in front of an escape are decoded one by one. -/
theorem decode_plain_append {plain : Bytes} (hp : ∀ byte ∈ plain, byte ≠ 0x1B) :
    decode (plain ++ pending) =
      (plain.filterMap plainKey ++ (decode pending).1, (decode pending).2) := by
  have ht : takePlain (plain ++ pending) =
      (plain.filterMap plainKey ++ (takePlain pending).1, (takePlain pending).2) := by
    have ha : ∀ byte ∈ plain, decide (byte ≠ 0x1B) = true := by simpa using hp
    rw [takePlain, takeWhile_append_of_pos ha, dropWhile_append_of_pos ha, filterMap_append]
    rfl
  rw [decode.eq_def, decode.eq_def pending, ht]
  dsimp only
  split <;> simp

/-- A buffer is empty or an unfinished sequence, it begins with a sequence, or with plain bytes. -/
theorem decode_induction {motive : Bytes → Prop}
    (unfinished : ∀ pending, Unfinished pending → motive pending)
    (sequence : ∀ pending key len, pending.head? = some 0x1B →
      sequenceLen pending = some (key, len) → motive (pending.drop len) → motive pending)
    (plain : ∀ plain pending, (∀ byte ∈ plain, byte ≠ 0x1B) → motive pending →
      motive (plain ++ pending)) (pending : Bytes) : motive pending := by
  induction hl : pending.length using Nat.strong_induction_on generalizing pending with
  | _ n ih =>
    have hp : ∀ byte ∈ pending.takeWhile (· ≠ 0x1B), byte ≠ 0x1B := fun byte hb => by
      simpa using mem_takeWhile_imp hb
    have hh := head?_dropWhile_not (fun byte : UInt8 => decide (byte ≠ 0x1B)) pending
    have hle : (pending.dropWhile (· ≠ 0x1B)).length ≤ n := hl ▸ (dropWhile_suffix _).length_le
    rw [← takeWhile_append_dropWhile (p := (· ≠ 0x1B)) (l := pending)]
    apply plain _ _ hp
    generalize pending.dropWhile (· ≠ 0x1B) = rest at hh hle
    rcases rest with _ | ⟨first, rest⟩
    · exact unfinished [] (.inl rfl)
    · have hf : (first :: rest).head? = some 0x1B := by simpa using hh
      cases hs : sequenceLen (first :: rest) with
      | none => exact unfinished _ (.inr ⟨hf, hs⟩)
      | some found =>
        obtain ⟨hps, hlen, -⟩ := sequenceLen_append hs
        refine sequence _ _ _ hf hs (ih _ ?_ _ rfl)
        rw [length_drop]
        omega

theorem unfinished_decode (pending : Bytes) : Unfinished (decode pending).2 := by
  induction pending using decode_induction with
  | unfinished pending h => rwa [decode_of_unfinished h]
  | sequence pending key len hh hlen ih => rwa [decode_of_sequence hh hlen]
  | plain plain pending hp ih => rwa [decode_plain_append hp]

/-- What is kept decodes, with what comes next, as if all had come at once. -/
theorem decode_append (pending bytes : Bytes) : decode (pending ++ bytes) =
    ((decode pending).1 ++ (decode ((decode pending).2 ++ bytes)).1,
      (decode ((decode pending).2 ++ bytes)).2) := by
  induction pending using decode_induction with
  | unfinished pending h => simp [decode_of_unfinished h]
  | sequence pending key len hh hlen ih =>
    obtain ⟨-, hle, happend⟩ := sequenceLen_append hlen
    have hh' : (pending ++ bytes).head? = some 0x1B := by simp [hh]
    rw [decode_of_sequence hh hlen, decode_of_sequence hh' (happend bytes),
      drop_append_of_le_length hle, ih]
    simp
  | plain plain pending hp ih =>
    rw [append_assoc, decode_plain_append hp, decode_plain_append hp, ih]
    simp

/-- What a push leaves in the buffer. -/
def Held (pending : Bytes) : Prop := Unfinished pending ∧ pending.length < maxPendingBytes

theorem trimPending_of_held (h : Held pending) : trimPending pending = pending := by
  rcases h with ⟨rfl | ⟨hh, -⟩, hlt⟩
  · rfl
  · exact if_pos ⟨hh, hlt⟩

theorem held_push (pending bytes : Bytes) : Held (push pending bytes).2 := by
  rw [push, trimPending]
  split_ifs with hk
  · exact ⟨unfinished_decode _, hk.2⟩
  · exact ⟨.inl rfl, Nat.succ_pos _⟩

/-- **Keys do not depend on the pieces** that their bytes come in, as long as no cut is too far
behind the beginning of a sequence; and a push keeps a short unfinished sequence at most. -/
theorem pushAll_eq_push {chunks : List Bytes} (hheld : Held pending)
    (hcuts : ∀ front back, front ++ back = chunks → back ≠ [] →
      (decode (pending ++ front.flatten)).2.length < maxPendingBytes) :
    pushAll pending chunks = push pending chunks.flatten ∧
      ∀ bytes, Held (push pending bytes).2 := by
  refine ⟨?_, held_push pending⟩
  induction chunks generalizing pending with
  | nil => simp [pushAll, push, decode_of_unfinished hheld.1, trimPending_of_held hheld]
  | cons bytes chunks ih =>
    by_cases hn : chunks = []
    · simp [hn, pushAll]
    · have hrest : Held (decode (pending ++ bytes)).2 :=
        ⟨unfinished_decode _, by simpa using hcuts [bytes] chunks rfl hn⟩
      rw [pushAll, push, trimPending_of_held hrest, ih hrest, push, push, flatten_cons,
        ← append_assoc, decode_append (pending ++ bytes)]
      intro front back hf hb
      have hc := hcuts (bytes :: front) back (by rw [cons_append, hf]) hb
      rwa [flatten_cons, ← append_assoc, decode_append (pending ++ bytes)] at hc

/-- An arrow key that comes in two pieces. -/
theorem pushAll_eq_push_up :
    Held [] ∧ pushAll [] [[0x1B], [0x5B, 0x41]] = push [] [0x1B, 0x5B, 0x41] := by
  have hh : Held [] := ⟨.inl rfl, by decide⟩
  refine ⟨hh, (pushAll_eq_push hh fun front back hf hb => ?_).1⟩
  rcases front with _ | ⟨first, _ | ⟨second, front⟩⟩
  · simp [decode_of_unfinished hh.1, maxPendingBytes]
  · obtain ⟨rfl, -⟩ := cons_eq_cons.1 hf
    rw [decode_of_unfinished (.inr ⟨rfl, rfl⟩)]
    decide
  · simp_all

end Muak.Tui
