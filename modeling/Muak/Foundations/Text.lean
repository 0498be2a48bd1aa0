import Mathlib.Algebra.Group.Nat.Defs
import Mathlib.Data.List.DropRight
import Mathlib.Data.List.Infix

/-!
# Lines, keys and truncated text

The string functions of the standard library that line-oriented `KEY=value` formats use, and what
is needed to reason about them.

* `lines` is `str::lines`: it cuts at line feeds, a carriage return before a line feed belongs to
  the line break, and a last line without a line break is kept as it is.
* `stripPrefix` is `str::strip_prefix`, `trim` is `str::trim`, `parseU32` and `parseU64` are
  `str::parse` at these types.
* `lastWith key ls` is the value of the last line starting with `key`: what a parser that lets
  later lines win ends up with.
* `received n bytes` is the text that a receive buffer of `n` bytes holds, when that is UTF-8.
-/

namespace Muak.Text

open List String Nat

/-! ## Slices -/

/-- The characters from a byte offset on; there are none unless one starts there. -/
def getFrom : List Char → ℕ → Option (List Char)
  | s, 0 => some s
  | [], _ + 1 => none
  | c :: s, n + 1 => if c.utf8Size ≤ n + 1 then getFrom s (n + 1 - c.utf8Size) else none

theorem getFrom_utf8Size (c : Char) (s : List Char) : getFrom (c :: s) c.utf8Size = some s := by
  obtain ⟨n, hn⟩ := Nat.exists_eq_succ_of_ne_zero c.utf8Size_pos.ne'
  rw [hn, getFrom, if_pos hn.le, hn, Nat.sub_self]
  cases s <;> rfl

/-! ## Lines -/

/-- Remove a final carriage return. -/
def chopCr (l : List Char) : List Char := if l.getLast? = some '\r' then l.dropLast else l

/-- The lines of `cs`, the current one starting with `cur`. -/
def linesAux (cur : List Char) : List Char → List (List Char)
  | [] => if cur = [] then [] else [cur]
  | c :: cs => if c = '\n' then chopCr cur :: linesAux [] cs else linesAux (cur ++ [c]) cs

/-- The lines of a text. -/
def lines (s : String) : List String := (linesAux [] s.toList).map ofList

theorem chopCr_of_not_mem {l : List Char} (h : '\r' ∉ l) : chopCr l = l :=
  if_neg fun hl => h (mem_of_getLast? hl)

variable {a : List Char}

theorem linesAux_append (ha : '\n' ∉ a) (cur b : List Char) :
    linesAux cur (a ++ b) = linesAux (cur ++ a) b := by
  induction a generalizing cur with
  | nil => simp
  | cons c a ih =>
    rw [mem_cons, not_or] at ha
    rw [cons_append, linesAux, if_neg (Ne.symm ha.1), ih ha.2]
    simp

theorem linesAux_of_not_mem (ha : '\n' ∉ a) (hne : a ≠ []) : linesAux [] a = [a] := by
  have h := linesAux_append ha [] []
  rw [append_nil, nil_append] at h
  rw [h, linesAux, if_neg hne]

/-- A line that has been started, other than by a carriage return, is the first line. -/
theorem linesAux_eq_cons (hne : a ≠ []) (hcr : a.getLast? ≠ some '\r') (b : List Char) :
    ∃ l, linesAux a b = (a ++ l) :: (linesAux [] b).tail := by
  by_cases hb : '\n' ∈ b
  · obtain ⟨b₁, b₂, rfl, hb₁⟩ := eq_append_cons_of_mem hb
    rw [linesAux_append hb₁, linesAux_append hb₁, linesAux, linesAux]
    rcases eq_nil_or_concat b₁ with rfl | ⟨c, x, rfl⟩
    · exact ⟨[], by simp [chopCr, hcr]⟩
    · by_cases hx : x = '\r'
      · exact ⟨c, by simp [chopCr, hx]⟩
      · exact ⟨c ++ [x], by simp [chopCr, hx]⟩
  · have h := linesAux_append hb a []
    have h' := linesAux_append hb [] []
    rw [append_nil] at h h'
    rw [h, h', linesAux, if_neg (by simp [hne]), linesAux]
    by_cases hn : b = [] <;> simp [hn]

variable {a : String}

theorem lines_append_newline (hn : '\n' ∉ a.toList) (hr : '\r' ∉ a.toList) (b : String) :
    lines (a ++ "\n" ++ b) = a :: lines b := by
  have h : (a ++ "\n" ++ b).toList = a.toList ++ '\n' :: b.toList := by simp
  rw [lines, h, linesAux_append hn, nil_append, linesAux, chopCr_of_not_mem hr]
  simp [lines]

theorem tail_lines_append_newline (hn : '\n' ∉ a.toList) (b : String) :
    (lines (a ++ "\n" ++ b)).tail = lines b := by
  have h : (a ++ "\n" ++ b).toList = a.toList ++ '\n' :: b.toList := by simp
  rw [lines, h, linesAux_append hn]
  rfl

theorem lines_of_not_mem (hn : '\n' ∉ a.toList) (hne : a ≠ "") : lines a = [a] := by
  have hne' : a.toList ≠ [] := by simpa using hne
  rw [lines, linesAux_of_not_mem hn hne']
  simp

/-- A text starting with a key: the key starts its first line, and the rest of the lines are those
of what follows the key. -/
theorem lines_key_append {k : String} (hn : '\n' ∉ k.toList) (hne : k ≠ "")
    (hcr : k.toList.getLast? ≠ some '\r') (m : String) :
    ∃ v, lines (k ++ m) = (k ++ v) :: (lines m).tail := by
  obtain ⟨l, hl⟩ := linesAux_eq_cons (by simpa using hne) hcr m.toList
  rw [lines, toList_append, linesAux_append hn, nil_append, hl, lines]
  simp

/-! ## Keys -/

/-- Remove the prefix `p`, when `s` has it. -/
def stripPrefix (p s : String) : Option String :=
  if p.toList.isPrefixOf s.toList then some (ofList (s.toList.drop p.toList.length))
  else none

theorem stripPrefix_eq_some_iff {p s r : String} : stripPrefix p s = some r ↔ s = p ++ r := by
  unfold stripPrefix
  constructor
  · intro h
    split at h
    · next hp =>
      obtain ⟨t, ht⟩ := isPrefixOf_iff_prefix.1 hp
      rw [Option.some.injEq, ← ht, drop_left] at h
      rw [← toList_inj, toList_append, ← h, toList_ofList, ht]
    · simp at h
  · rintro rfl
    simp

@[simp] theorem stripPrefix_append (p r : String) : stripPrefix p (p ++ r) = some r :=
  stripPrefix_eq_some_iff.2 rfl

theorem stripPrefix_isSome {p s : String} :
    (stripPrefix p s).isSome ↔ p.toList <+: s.toList := by
  rw [← isPrefixOf_iff_prefix, stripPrefix]
  split <;> simp [*]

/-- The value of the last line that starts with `key`. -/
def lastWith (key : String) (ls : List String) : Option String :=
  (ls.filterMap (stripPrefix key)).getLast?

@[simp] theorem lastWith_nil (key : String) : lastWith key [] = none := rfl

theorem lastWith_cons (key l : String) (ls : List String) :
    lastWith key (l :: ls) = (lastWith key ls).or (stripPrefix key l) := by
  unfold lastWith
  cases h : stripPrefix key l with
  | none => simp [h]
  | some v =>
    rw [filterMap_cons, h, getLast?_cons]
    cases (ls.filterMap (stripPrefix key)).getLast? <;> rfl

/-! ## White space and separators -/

/-- The characters that Unicode counts as white space. -/
def isWhitespace (c : Char) : Bool :=
  (9 ≤ c.toNat && c.toNat ≤ 13) || (0x2000 ≤ c.toNat && c.toNat ≤ 0x200A) ||
    [0x20, 0x85, 0xA0, 0x1680, 0x2028, 0x2029, 0x202F, 0x205F, 0x3000].contains c.toNat

/-- Remove the characters with `p` at the end. -/
def trimEndMatches (p : Char → Bool) (s : String) : String :=
  ofList (s.toList.reverse.dropWhile p).reverse

/-- Remove white space at both ends. -/
def trim (s : String) : String :=
  trimEndMatches isWhitespace (ofList (s.toList.dropWhile isWhitespace))

/-- The text before the first character with `p`, if there is one. -/
def before (p : Char → Bool) (s : String) : Option String :=
  if s.toList.any p then some (ofList (s.toList.takeWhile fun c => !p c)) else none

theorem dropWhile_append_cons {p : Char → Bool} {c : Char} (h : p c = false) (a b : List Char) :
    (a ++ c :: b).dropWhile p = a.dropWhile p ++ c :: b := by
  induction a with
  | nil => simp [h]
  | cons x a ih =>
    rw [cons_append, dropWhile_cons, dropWhile_cons, ih]
    split_ifs <;> rfl

theorem trimEndMatches_concat {c : Char} {a : List Char} (h : c ∉ a) :
    trimEndMatches (· = c) (ofList (a ++ [c])) = ofList a := by
  have hl : ∀ hl : a ≠ [], ¬ decide (a.getLast hl = c) = true := fun hl hc =>
    h (of_decide_eq_true hc ▸ getLast_mem hl)
  rw [trimEndMatches, toList_ofList]
  exact congrArg ofList
    ((rdropWhile_concat_pos _ _ _ (by simp)).trans (rdropWhile_eq_self_iff.2 hl))

theorem trim_append {gap name gap' : List Char} (hg : ∀ c ∈ gap, isWhitespace c)
    (hg' : ∀ c ∈ gap', isWhitespace c) (hne : name ≠ [])
    (hn : ∀ c ∈ name, isWhitespace c = false) :
    trim (ofList (gap ++ (name ++ gap'))) = ofList name := by
  have hr : name.reverse.dropWhile isWhitespace = name.reverse :=
    dropWhile_eq_self_iff.2 fun hl => ne_true_of_eq_false (hn _ (mem_reverse.1 (getElem_mem hl)))
  obtain ⟨x, l, rfl⟩ := exists_cons_of_ne_nil hne
  rw [trim, trimEndMatches, toList_ofList, toList_ofList, dropWhile_append_of_pos hg, cons_append,
    dropWhile_cons_of_neg (by simp [hn]), ← cons_append, reverse_append,
    dropWhile_append_of_pos (by simpa using hg'), hr, reverse_reverse]

/-! ## Decimal numbers -/

/-- Parse a decimal number of at most `bits` bits, with an optional plus sign. -/
def parseUnsigned (bits : ℕ) (s : String) : Option ℕ :=
  let digits := match s.toList with
    | '+' :: ds => ds
    | ds => ds
  if digits = [] then none
  else if digits.all Char.isDigit then
    let n := ofDigitChars 10 digits 0
    if n < 2 ^ bits then some n else none
  else none

/-- Parse a `u32`. -/
def parseU32 (s : String) : Option ℕ := parseUnsigned 32 s

/-- Parse a `u64`. -/
def parseU64 (s : String) : Option ℕ := parseUnsigned 64 s

theorem ofDigitChars_le_append (l m : List Char) (init : ℕ) :
    ofDigitChars 10 l init ≤ ofDigitChars 10 (l ++ m) init := by
  rw [ofDigitChars_append, ofDigitChars_eq_ofDigitChars_zero (l := m)]
  have h : 1 ≤ 10 ^ m.length := one_le_pow _ _ (by omega)
  calc Nat.ofDigitChars 10 l init ≤ 10 ^ m.length * Nat.ofDigitChars 10 l init :=
        Nat.le_mul_of_pos_left _ h
    _ ≤ _ := Nat.le_add_right _ _

variable {n : ℕ}

/-- A `u32` printed in decimal parses, also when its last digits are cut off. -/
theorem parseU32_isSome_of_toDigits (hn : n < 2 ^ 32) {ds es : List Char} (hds : ds ≠ [])
    (h : ds ++ es = toDigits 10 n) : (parseU32 (ofList ds)).isSome := by
  have hd : ∀ c ∈ ds, c.isDigit := fun c hc =>
    isDigit_of_mem_toDigits (by omega) (by omega) (h ▸ mem_append_left es hc)
  have hle : ofDigitChars 10 ds 0 ≤ n := by
    have := ofDigitChars_le_append ds es 0
    rwa [h, ofDigitChars_toDigits (by omega) (by omega)] at this
  -- a decimal digit is not a plus sign
  have hp : (match (ofList ds).toList with | '+' :: ds => ds | ds => ds) = ds := by
    rw [toList_ofList]
    split
    · next ds' => exact absurd (hd '+' (by simp)) (by decide)
    · rfl
  unfold parseU32 parseUnsigned
  simp only [hp]
  rw [if_neg hds, if_pos (all_eq_true.2 hd), if_pos (by omega)]
  rfl

theorem utf8ByteSize_ofList_of_digits {ds : List Char} (h : ∀ c ∈ ds, c.isDigit) :
    (ofList ds).utf8ByteSize = ds.length := by
  induction ds with
  | nil => rfl
  | cons c ds ih =>
    have hc : c.utf8Size = 1 := by
      have hd := h c mem_cons_self
      simp only [Char.isDigit, Bool.and_eq_true, decide_eq_true_eq] at hd
      exact Char.utf8Size_eq_one_iff.2 (UInt32.le_trans hd.2 (by decide))
    have ha : ofList (c :: ds) = singleton c ++ ofList ds := by
      simp
    rw [ha, utf8ByteSize_append, utf8ByteSize_singleton, hc,
      ih fun c hc => h c (mem_cons_of_mem _ hc), length_cons, add_comm]

/-! ## Truncation -/

/-- The text in a receive buffer of `n` bytes after the bytes of a message arrived: none when they
are not UTF-8. -/
def received (n : ℕ) (bytes : ByteArray) : Option String := fromUTF8? (bytes.extract 0 n)

theorem received_eq_some_iff {bytes : ByteArray} {t : String} :
    received n bytes = some t ↔ t.toByteArray = bytes.extract 0 n := by
  unfold received fromUTF8?
  constructor
  · intro h
    split at h
    · rw [Option.some.injEq] at h
      rw [← h]
      rfl
    · simp at h
  · intro h
    rw [dif_pos (h ▸ t.isValidUTF8), Option.some.injEq, ← String.toByteArray_inj]
    exact h.symm

theorem received_toUTF8 {s : String} (h : s.utf8ByteSize ≤ n) : received n s.toUTF8 = some s := by
  rw [received_eq_some_iff, String.toUTF8_eq_toByteArray]
  have hn : max n s.toByteArray.size = n := max_eq_left (by rwa [String.size_toByteArray])
  rw [← hn, ByteArray.extract_zero_max_size]

theorem received_append {t : String} (h : t.utf8ByteSize = n) (r : String) :
    received n (t ++ r).toUTF8 = some t := by
  rw [received_eq_some_iff, String.toUTF8_eq_toByteArray, String.toByteArray_append,
    ByteArray.extract_append_eq_left (by rw [String.size_toByteArray, h])]

/-- What is received of a text is a part from its start, of the size of the buffer unless it is
all of the text. -/
theorem eq_append_of_received {s t : String} (h : received n s.toUTF8 = some t) :
    t.utf8ByteSize = min n s.utf8ByteSize ∧ ∃ r, s = t ++ r := by
  rw [received_eq_some_iff, toUTF8_eq_toByteArray] at h
  have hsz : t.utf8ByteSize = min n s.utf8ByteSize := by
    rw [← String.size_toByteArray, h, ByteArray.size_extract, String.size_toByteArray]
    omega
  have hs : t.toByteArray ++ s.toByteArray.extract n s.toByteArray.size = s.toByteArray := by
    rw [h, ByteArray.extract_append_extract, Nat.zero_min, ByteArray.extract_zero_max_size]
  have hp : t.toList <+: s.toList := by
    refine isPrefix_of_utf8Encode_append_eq_utf8Encode
      (s.toByteArray.extract n s.toByteArray.size) ?_
    rw [utf8Encode_toList, utf8Encode_toList, hs]
  obtain ⟨r, hr⟩ := hp
  exact ⟨hsz, ofList r, by rw [← toList_inj]; simp [hr]⟩

end Muak.Text
