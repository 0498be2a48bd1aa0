import Muak.Foundations.Glob
import Muak.Kmod.Deps

/-!
# Aliases

`libs/kmod/src/aliases.rs`: the module for a device is the one of the first line whose pattern
matches what the device reports.

* `IsAlias`: what a line says.
* `entries_load`: the entries of the database are those of its lines.
* `find_module_first`: the first line that matches counts.
-/

namespace Muak.Kmod

open Muak.Glob List

/-- Where the pattern and the module of a line are in the text. -/
structure Alias where
  pattern : Span
  module : Span

/-- The text and the entries of its lines. -/
structure AliasDb where
  text : List Char
  entries : List Alias

/-- `str::as_bytes`. -/
def asBytes (s : List Char) : List UInt8 := (String.ofList s).toUTF8.toList

def toAsciiLowercase (byte : UInt8) : UInt8 := if 65 ≤ byte ∧ byte ≤ 90 then byte + 32 else byte

/-- A byte of a pattern other than the star: a question mark, or the byte up to its case. -/
def Fits (token byte : UInt8) : Prop :=
  token = 63 ∨ toAsciiLowercase token = toAsciiLowercase byte

instance : DecidableRel Fits := fun _ _ => inferInstanceAs (Decidable (_ ∨ _))

/-- The index of the last star and the one of the text there are set together. -/
def globMatchBytes (pattern text : List UInt8) : Bool := search 42 Fits pattern text none

/-- `str::rsplit_once`. -/
def rsplitOnce (c : Char) (s : List Char) : Option (List Char × List Char) :=
  (splitOnce c s.reverse).map fun parts => (parts.2.reverse, parts.1.reverse)

def aliasStart : List Char := "alias ".toList

/-- `line.strip_prefix(ALIAS_PREFIX)`. -/
def stripAlias (line : List Char) : Option (List Char) :=
  if aliasStart <+: line then some (line.drop aliasStart.length) else none

def parseAlias (line : List Char) (offset : ℕ) : Option Alias := do
  let lead := byteLen line - byteLen (trimStart line)
  let rest ← stripAlias (trim line)
  let (pattern, module) ← rsplitOnce ' ' rest
  let base := offset + lead + byteLen aliasStart
  some ⟨spanAt base pattern, spanAt (base + byteLen pattern + 1) module⟩

/-- `AliasDb::load`, of the text of the file. -/
def AliasDb.load (text : List Char) : AliasDb where
  text := text
  entries := forEachLine text (fun entries line offset =>
    entries ++ (parseAlias line offset).toList) []

/-- The module of the first entry that matches. -/
def AliasDb.findModule (db : AliasDb) (modalias : List Char) : Option (List Char) :=
  db.entries.findSome? fun entry =>
    if globMatchBytes (asBytes (slice db.text entry.pattern)) (asBytes modalias) then
      some (slice db.text entry.module)
    else none

/-- A line with a pattern and a module: up to white space around the line and its parts it is the
word `alias`, the pattern and, after the last space, the module. -/
def IsAlias (line pattern module : List Char) : Prop :=
  ∃ front back, trim line = aliasStart ++ front ++ ' ' :: back ∧ ' ' ∉ back ∧
    pattern = trim front ∧ module = trim back

theorem rsplitOnce_eq_some_iff {c : Char} {s front back : List Char} :
    rsplitOnce c s = some (front, back) ↔ s = front ++ c :: back ∧ c ∉ back := by
  have hr : s.reverse = back.reverse ++ c :: front.reverse ↔ s = front ++ c :: back := by
    simp
  rw [rsplitOnce, Option.map_eq_some_iff, ← hr, ← mem_reverse]
  constructor
  · rintro ⟨⟨left, right⟩, h, heq⟩
    obtain ⟨rfl, rfl⟩ := Prod.mk.inj heq
    rw [reverse_reverse, reverse_reverse]
    exact splitOnce_eq_some_iff.1 h
  · intro h
    exact ⟨_, splitOnce_eq_some_iff.2 h, by simp⟩

theorem stripAlias_eq_some_iff {line rest : List Char} :
    stripAlias line = some rest ↔ line = aliasStart ++ rest := by
  rw [stripAlias, Option.ite_none_right_eq_some, Option.some.injEq]
  constructor
  · rintro ⟨⟨rest, rfl⟩, rfl⟩
    rw [drop_left]
  · rintro rfl
    exact ⟨prefix_append _ _, drop_left⟩

/-- The pattern and the module of an entry. -/
def aliasView (text : List Char) (entry : Alias) : List Char × List Char :=
  (slice text entry.pattern, slice text entry.module)

/-- **An entry is what its line says.** -/
theorem map_parseAlias_iff {text line pattern module : List Char} {offset : ℕ}
    (hl : At text offset line) :
    (parseAlias line offset).map (aliasView text) = some (pattern, module) ↔
      IsAlias line pattern module := by
  have hp : ∀ {front back : List Char}, trim line = aliasStart ++ (front ++ ' ' :: back) →
      let base := offset + (byteLen line - byteLen (trimStart line)) + byteLen aliasStart
      slice text (spanAt base front) = trim front ∧
        slice text (spanAt (base + byteLen front + 1) back) = trim back := by
    intro front back h base
    have hrest : At text base (front ++ ' ' :: back) := (h ▸ hl.trim).right
    refine ⟨slice_of_at hrest.left.trim, ?_⟩
    rw [append_cons] at hrest
    have hb := hrest.right
    rw [byteLen_append] at hb
    exact slice_of_at hb.trim
  rw [Option.map_eq_some_iff]
  constructor
  · rintro ⟨entry, h, hv⟩
    obtain ⟨rest, hrest, h⟩ := Option.bind_eq_some_iff.1 h
    obtain ⟨⟨front, back⟩, hs, h⟩ := Option.bind_eq_some_iff.1 h
    cases h
    obtain ⟨rfl, hb⟩ := rsplitOnce_eq_some_iff.1 hs
    have ht := stripAlias_eq_some_iff.1 hrest
    obtain ⟨rfl, rfl⟩ := Prod.mk.inj hv
    exact ⟨front, back, by rw [ht, append_assoc], hb, (hp ht).1, (hp ht).2⟩
  · rintro ⟨front, back, ht, hb, rfl, rfl⟩
    refine ⟨_, Option.bind_eq_some_iff.2 ⟨_, stripAlias_eq_some_iff.2 ht,
      Option.bind_eq_some_iff.2 ⟨_, rsplitOnce_eq_some_iff.2 ⟨rfl, hb⟩, rfl⟩⟩, ?_⟩
    exact Prod.ext (hp ht).1 (hp ht).2

theorem entries_load (text : List Char) : (AliasDb.load text).entries =
    (offsets 0 (text.splitOn '\n')).filterMap fun line => parseAlias line.1 line.2 := by
  have hf : ∀ (lines : List (List Char × ℕ)) (entries : List Alias),
      lines.foldl (fun entries line => entries ++ (parseAlias line.1 line.2).toList) entries =
        entries ++ lines.filterMap fun line => parseAlias line.1 line.2 := by
    intro lines
    induction lines with
    | nil => simp
    | cons line lines ih =>
      intro entries
      rw [foldl_cons, ih, filterMap_cons]
      cases parseAlias line.1 line.2 <;> simp
  exact hf _ []

/-- The pattern of a line matches what a device reports. -/
def Answers (modalias line module : List Char) : Prop :=
  ∃ pattern, IsAlias line pattern module ∧ Stands 42 Fits (asBytes pattern) (asBytes modalias)

theorem globMatchBytes_iff {pattern text : List UInt8} :
    globMatchBytes pattern text = true ↔ Stands 42 Fits pattern text :=
  (search_iff (show Reached 42 pattern text none from trivial)).trans (or_iff_left id)

/-- What a line contributes to the search. -/
def answer (text modalias line : List Char) (offset : ℕ) : Option (List Char) :=
  (parseAlias line offset).bind fun entry =>
    if globMatchBytes (asBytes (slice text entry.pattern)) (asBytes modalias) then
      some (slice text entry.module)
    else none

theorem answer_eq_some_iff {text modalias line module : List Char} {offset : ℕ}
    (hl : At text offset line) :
    answer text modalias line offset = some module ↔ Answers modalias line module := by
  simp only [Answers, ← map_parseAlias_iff hl, ← globMatchBytes_iff, answer, aliasView,
    Option.bind_eq_some_iff, Option.map_eq_some_iff, Option.ite_none_right_eq_some,
    Option.some.injEq, Prod.mk.injEq]
  constructor
  · rintro ⟨entry, he, hm, rfl⟩
    exact ⟨_, ⟨entry, he, rfl, rfl⟩, hm⟩
  · rintro ⟨_, ⟨entry, he, rfl, rfl⟩, hm⟩
    exact ⟨entry, he, hm, rfl⟩

/-- **The first line that matches counts.** -/
theorem find_module_first (text modalias : List Char) :
    (∀ module, (AliasDb.load text).findModule modalias = some module ↔
      ∃ before line after, text.splitOn '\n' = before ++ line :: after ∧
        Answers modalias line module ∧ ∀ other ∈ before, ∀ m, ¬Answers modalias other m) ∧
      ((AliasDb.load text).findModule modalias = none ↔
        ∀ line ∈ text.splitOn '\n', ∀ module, ¬Answers modalias line module) := by
  have hat : ∀ line ∈ offsets 0 (text.splitOn '\n'), At text line.2 line.1 :=
    At.offsets_splitOn (by decide) ⟨[], [], by simp, rfl⟩
  have hf : (AliasDb.load text).findModule modalias =
      (offsets 0 (text.splitOn '\n')).findSome? fun line =>
        answer text modalias line.1 line.2 := by
    rw [AliasDb.findModule, entries_load]
    induction offsets 0 (text.splitOn '\n') with
    | nil => rfl
    | cons line lines ih =>
      rw [filterMap_cons, findSome?_cons, answer]
      cases parseAlias line.1 line.2 with
      | none => exact ih
      | some entry => rw [findSome?_cons, ih]; rfl
  have hn : ∀ line ∈ offsets 0 (text.splitOn '\n'),
      (answer text modalias line.1 line.2 = none ↔ ∀ m, ¬Answers modalias line.1 m) := by
    intro line hln
    rw [Option.eq_none_iff_forall_ne_some]
    exact forall_congr' fun m => not_congr (answer_eq_some_iff (hat line hln))
  have hl := map_fst_offsets 0 (text.splitOn '\n')
  generalize offsets 0 (text.splitOn '\n') = lines at hat hf hn hl
  rw [hf, ← hl]
  refine ⟨fun module => ?_, ?_⟩
  · rw [findSome?_eq_some_iff]
    constructor
    · rintro ⟨before, line, after, rfl, hln, hb⟩
      refine ⟨before.map Prod.fst, line.1, after.map Prod.fst, by simp,
        (answer_eq_some_iff (hat line (by simp))).1 hln, ?_⟩
      rintro _ hm m
      obtain ⟨other, ho, rfl⟩ := mem_map.1 hm
      exact (hn other (mem_append_left _ ho)).1 (hb other ho) m
    · rintro ⟨_, _, _, hs, hln, hb⟩
      obtain ⟨before, rest, rfl, rfl, hrest⟩ := map_eq_append_iff.1 hs
      obtain ⟨line, after, rfl, rfl, rfl⟩ := map_eq_cons_iff.1 hrest
      refine ⟨before, line, after, rfl, (answer_eq_some_iff (hat line (by simp))).2 hln, ?_⟩
      exact fun other ho => (hn other (mem_append_left _ ho)).2
        (hb other.1 (mem_map_of_mem ho))
  · rw [findSome?_eq_none_iff, forall_mem_map]
    exact forall₂_congr hn

end Muak.Kmod
