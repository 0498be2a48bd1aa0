import Mathlib.Algebra.GroupWithZero.Nat
import Mathlib.Data.List.DropRight
import Muak.Foundations.Text

/-!
# Spans of a text

`libs/kmod/src/text.rs`: the databases keep one text and refer to parts of it by byte ranges. A text
is the list of its characters here, and each counts with the length of its UTF-8 encoding.

* `slice_of_at`: the span of a part that begins at `start` yields that part.
* `At.offsets`: the offsets that are counted along while a text is cut at a separator are right.

Offsets are below `2^64`, as the text is in memory: the saturating additions are exact.
-/

namespace Muak.Kmod

open Muak.Text List

/-- The length of the UTF-8 encoding. -/
def byteLen (s : List Char) : ℕ := (s.map Char.utf8Size).sum

@[simp] theorem byteLen_nil : byteLen [] = 0 := rfl

@[simp] theorem byteLen_cons (c : Char) (s : List Char) :
    byteLen (c :: s) = c.utf8Size + byteLen s := rfl

@[simp] theorem byteLen_append (s t : List Char) : byteLen (s ++ t) = byteLen s + byteLen t := by
  simp [byteLen]

/-- A byte range. -/
structure Span where
  start : ℕ
  len : ℕ

/-- Cut a text after `n` bytes, when these end with a character. -/
def splitBytes : List Char → ℕ → Option (List Char × List Char)
  | s, 0 => some ([], s)
  | [], _ + 1 => none
  | c :: s, n + 1 =>
    if c.utf8Size ≤ n + 1 then
      (splitBytes s (n + 1 - c.utf8Size)).map fun parts => (c :: parts.1, parts.2)
    else none

/-- The text of a span, or no text when it is not within bounds. -/
def slice (text : List Char) (span : Span) : List Char :=
  match splitBytes text span.start with
  | none => []
  | some (_, rest) =>
    match splitBytes rest span.len with
    | none => []
    | some (part, _) => part

def trimStart (s : List Char) : List Char := s.dropWhile isWhitespace

def trim (s : List Char) : List Char := (trimStart s).rdropWhile isWhitespace

/-- The span of `raw` without the white space around it, when `raw` begins at `base`. -/
def spanAt (base : ℕ) (raw : List Char) : Span :=
  ⟨base + (byteLen raw - byteLen (trimStart raw)), byteLen (trim raw)⟩

/-- The pieces of a text that was cut at a separator of one byte, each with its offset. -/
def offsets : ℕ → List (List Char) → List (List Char × ℕ)
  | _, [] => []
  | base, piece :: pieces => (piece, base) :: offsets (base + byteLen piece + 1) pieces

/-- `for_each_line`: the lines with their offsets. -/
def forEachLine {β : Type*} (text : List Char) (callback : β → List Char → ℕ → β) (acc : β) : β :=
  (offsets 0 (text.splitOn '\n')).foldl (fun acc line => callback acc line.1 line.2) acc

theorem trimStart_of_trim {s front rest : List Char} (h : trim s = front ++ rest) :
    trimStart front = front := by
  cases front with
  | nil => rfl
  | cons c front =>
    obtain ⟨trail, ht⟩ := rdropWhile_prefix isWhitespace (trimStart s)
    rw [show (trimStart s).rdropWhile isWhitespace = c :: front ++ rest from h] at ht
    have hc := head?_dropWhile_not isWhitespace s
    rw [show s.dropWhile isWhitespace = _ from ht.symm] at hc
    have hc : isWhitespace c = false := by simpa using hc
    simp [trimStart, hc]

/-! ## Parts of a text -/

/-- `part` stands at byte `start` of the text. -/
def At (text : List Char) (start : ℕ) (part : List Char) : Prop :=
  ∃ before after, text = before ++ part ++ after ∧ byteLen before = start

theorem splitBytes_append (s t : List Char) : splitBytes (s ++ t) (byteLen s) = some (s, t) := by
  induction s with
  | nil => simp [splitBytes]
  | cons c s ih =>
    obtain ⟨n, hn⟩ : ∃ n, byteLen (c :: s) = n + 1 :=
      ⟨byteLen (c :: s) - 1, by have := c.utf8Size_pos; rw [byteLen_cons]; omega⟩
    have hrest : n + 1 - c.utf8Size = byteLen s := by
      rw [byteLen_cons] at hn
      omega
    have hle : c.utf8Size ≤ n + 1 := by
      rw [byteLen_cons] at hn
      omega
    rw [hn, cons_append, splitBytes, if_pos hle, hrest, ih]
    rfl

/-- **The span of a part yields the part.** -/
theorem slice_of_at {text part : List Char} {start : ℕ} (h : At text start part) :
    slice text ⟨start, byteLen part⟩ = part := by
  obtain ⟨before, after, rfl, rfl⟩ := h
  rw [slice]
  simp [splitBytes_append]

namespace At

variable {text part : List Char} {start : ℕ}

theorem middle {before after : List Char} (h : At text start (before ++ part ++ after)) :
    At text (start + byteLen before) part := by
  obtain ⟨front, back, rfl, rfl⟩ := h
  exact ⟨front ++ before, after ++ back, by simp, by rw [byteLen_append]⟩

theorem left {after : List Char} (h : At text start (part ++ after)) : At text start part := by
  simpa using @middle text part start [] after h

theorem right {before : List Char} (h : At text start (before ++ part)) :
    At text (start + byteLen before) part :=
  @middle text part start before [] (by rwa [append_nil])

theorem trimStart (h : At text start part) :
    At text (start + (byteLen part - byteLen (Kmod.trimStart part))) (Kmod.trimStart part) := by
  have hp := takeWhile_append_dropWhile (p := isWhitespace) (l := part)
  have hlen := congrArg byteLen hp
  rw [byteLen_append] at hlen
  rw [show byteLen part - byteLen (Kmod.trimStart part) = byteLen (part.takeWhile isWhitespace) by
    rw [Kmod.trimStart]
    omega]
  rw [← hp] at h
  exact h.right

theorem trim (h : At text start part) :
    At text (start + (byteLen part - byteLen (Kmod.trimStart part))) (Kmod.trim part) := by
  obtain ⟨trail, htr⟩ := rdropWhile_prefix isWhitespace (Kmod.trimStart part)
  have ht := h.trimStart
  generalize start + (byteLen part - byteLen (Kmod.trimStart part)) = base at ht ⊢
  rw [← htr] at ht
  exact ht.left

/-- **Offsets are right**: of all pieces of a text that is cut at a separator of one byte. -/
theorem offsets {c : Char} (hc : c.utf8Size = 1) {pieces : List (List Char)} {base : ℕ}
    (h : At text base ([c].intercalate pieces)) :
    ∀ entry ∈ Kmod.offsets base pieces, At text entry.2 entry.1 := by
  induction pieces generalizing base with
  | nil => exact fun entry he => absurd he not_mem_nil
  | cons piece pieces ih =>
    rw [Kmod.offsets, forall_mem_cons]
    cases pieces with
    | nil =>
      rw [intercalate_singleton] at h
      exact ⟨h, fun entry he => absurd he not_mem_nil⟩
    | cons next pieces =>
      rw [intercalate_cons_cons] at h
      have hrest := h.right
      rw [byteLen_append, byteLen_cons, hc] at hrest
      rw [append_assoc] at h
      exact ⟨h.left, ih hrest⟩

theorem offsets_splitOn {c : Char} (hc : c.utf8Size = 1) {base : ℕ} (h : At text base part) :
    ∀ entry ∈ Kmod.offsets base (part.splitOn c), At text entry.2 entry.1 := by
  refine offsets hc ?_
  rwa [intercalate_splitOn]

end At

theorem map_fst_offsets (base : ℕ) (pieces : List (List Char)) :
    (offsets base pieces).map Prod.fst = pieces := by
  induction pieces generalizing base with
  | nil => rfl
  | cons piece pieces ih => rw [offsets, map_cons, ih]

end Muak.Kmod
