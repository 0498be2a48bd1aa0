import Mathlib.Data.List.Lex
import Mathlib.Data.List.Sort
import Muak.Foundations.BinarySearch
import Muak.Kmod.Text

/-!
# The module dependency database

`libs/kmod/src/deps.rs`: the index of a `modules.dep` text. Every line `path: dependencies` is an
entry of spans into the text, the entries are sorted by their canonical names and searched by binary
search.

* `modulesOf` is what the text says, line by line and without spans.
* `map_view_entries`: the spans of the index yield exactly that.
* `find_eq_some_iff`: the search finds the entry of a name, with `-` and `_` identified.
-/

namespace Muak.Kmod

open List

/-! ## Names -/

def ko : List Char := ".ko".toList

def koZst : List Char := ".ko.zst".toList

/-- `str::strip_suffix`. -/
def stripSuffix (suffix s : List Char) : Option (List Char) :=
  if suffix <:+ s then some (s.take (s.length - suffix.length)) else none

/-- The part behind the last slash. -/
def fileName (path : List Char) : List Char := path.rtakeWhile (· ≠ '/')

def strippedName (filename : List Char) : Option (List Char) :=
  (stripSuffix koZst filename).or (stripSuffix ko filename)

/-- The bytes of a name, with `-` taken as `_`. -/
def key (name : List Char) : List ℕ :=
  (name.flatMap String.utf8EncodeChar).map fun byte => if byte = 45 then 95 else byte.toNat

/-- A name with `_` for every `-`. -/
def canonical (name : List Char) : List Char := name.map fun c => if c = '-' then '_' else c

/-- Only the hyphen has its byte in its encoding. -/
theorem byte_ne_of_mem {c : Char} (hc : c ≠ '-') {byte : UInt8}
    (h : byte ∈ String.utf8EncodeChar c) : byte ≠ 45 := by
  have hv : c.val.toNat ≠ 45 := fun h45 => hc (Char.ext (UInt32.toNat_inj.1 h45))
  have ho : ∀ n : ℕ, n % 256 ≠ 45 → UInt8.ofNat n ≠ 45 := by
    intro n hn heq
    have := congrArg UInt8.toNat heq
    exact hn this
  unfold String.utf8EncodeChar at h
  simp only at h
  split_ifs at h <;> simp only [mem_cons, not_mem_nil, or_false] at h
  · subst h
    exact ho _ (by omega)
  · rcases h with rfl | rfl <;> exact ho _ (by omega)
  · rcases h with rfl | rfl | rfl <;> exact ho _ (by omega)
  · rcases h with rfl | rfl | rfl | rfl <;> exact ho _ (by omega)

theorem key_eq (name : List Char) :
    key name = ((canonical name).flatMap String.utf8EncodeChar).map UInt8.toNat := by
  unfold key canonical
  induction name with
  | nil => rfl
  | cons c name ih =>
    rw [flatMap_cons, map_append, map_cons, flatMap_cons, map_append]
    congr 1
    by_cases hc : c = '-'
    · subst hc
      decide
    · rw [if_neg hc]
      exact map_congr_left fun byte hb => if_neg (byte_ne_of_mem hc hb)

/-- **Names are compared with `-` and `_` identified**, and otherwise exactly. -/
theorem key_eq_key_iff {left right : List Char} :
    key left = key right ↔ canonical left = canonical right := by
  rw [key_eq, key_eq]
  refine ⟨fun h => ?_, fun h => by rw [h]⟩
  have hb := map_injective_iff.2 (fun _ _ => UInt8.toNat_inj.1) h
  have he : (canonical left).utf8Encode = (canonical right).utf8Encode := by
    rw [utf8Encode, utf8Encode, hb]
  have := congrArg ByteArray.utf8Decode? he
  rw [utf8Decode?_utf8Encode, utf8Decode?_utf8Encode, Option.some.injEq] at this
  exact congrArg Array.toList this

/-- The order of the keys, byte by byte. -/
def compareKeys (left right : List ℕ) : Ordering :=
  if left < right then .lt else if left = right then .eq else .gt

variable {left right : List ℕ}

theorem compareKeys_eq_lt_iff : compareKeys left right = .lt ↔ left < right := by
  unfold compareKeys
  split_ifs with hlt heq <;> simp [*]

theorem compareKeys_eq_eq_iff : compareKeys left right = .eq ↔ left = right := by
  unfold compareKeys
  split_ifs with hlt heq
  · simpa using ne_of_lt hlt
  · simpa using heq
  · simpa using heq

theorem compareKeys_ne_gt_iff : compareKeys left right ≠ .gt ↔ left ≤ right := by
  unfold compareKeys
  split_ifs with hlt heq
  · simpa using le_of_lt hlt
  · simpa using le_of_eq heq
  · simpa using lt_of_le_of_ne (not_lt.1 hlt) (Ne.symm heq)

/-- Where the name of a module is in its path. -/
def nameSpan (path : List Char) (base : ℕ) : Option Span :=
  (strippedName (fileName path)).map fun name =>
    ⟨base + (byteLen path - byteLen (fileName path)), byteLen name⟩

/-! ## The index -/

/-- A module: its name and path in the text, and its dependencies in the list of names. -/
structure Entry where
  name : Span
  path : Span
  deps : Span

/-- The text, the modules and the names of what they need. -/
structure DepDb where
  text : List Char
  modules : List Entry
  depNames : List Span

/-- `str::split_once`. -/
def splitOnce (c : Char) (s : List Char) : Option (List Char × List Char) :=
  match s.dropWhile (· ≠ c) with
  | [] => none
  | _ :: rest => some (s.takeWhile (· ≠ c), rest)

/-- A line with a module adds an entry, and its dependencies to the list of names. -/
def pushModule (acc : List Entry × List Span) (line : List Char) (offset : ℕ) :
    List Entry × List Span :=
  let lead := byteLen line - byteLen (trimStart line)
  match splitOnce ':' (trim line) with
  | none => acc
  | some (rawPath, deps) =>
    let pathBase := offset + lead
    match nameSpan (trim rawPath) pathBase with
    | none => acc
    | some name =>
      let depBase := pathBase + byteLen rawPath + 1
      let names := (offsets depBase (deps.splitOn ' ')).filterMap fun dep => nameSpan dep.1 dep.2
      (acc.1 ++ [⟨name, spanAt pathBase rawPath, ⟨acc.2.length, names.length⟩⟩], acc.2 ++ names)

/-- The entries in the order of the text. -/
def entries (text : List Char) : List Entry × List Span := forEachLine text pushModule ([], [])

/-- `DepDb::load`, of the text of the file. -/
def load (text : List Char) : DepDb where
  text := text
  modules := (entries text).1.insertionSort fun left right =>
    key (slice text left.name) ≤ key (slice text right.name)
  depNames := (entries text).2

namespace DepDb

variable (db : DepDb)

/-- How the entry at an index compares with a name. -/
def compareAt (name : List Char) (index : ℕ) : Ordering :=
  match db.modules[index]? with
  | some entry => compareKeys (key (slice db.text entry.name)) (key name)
  | none => .gt

def find (name : List Char) : Option ℕ := binarySearchBy (db.compareAt name) db.modules.length

/-- The names of the dependencies of an entry. -/
def depsOf (entry : Entry) : List (List Char) :=
  ((db.depNames.drop entry.deps.start).take entry.deps.len).map (slice db.text)

end DepDb

/-! ## What a text says -/

/-- A module by its texts. -/
structure Module where
  name : List Char
  path : List Char
  deps : List (List Char)
deriving DecidableEq

/-- The name of a module file. -/
def moduleName (path : List Char) : Option (List Char) := strippedName (fileName path)

/-- The module of a line `path: dependencies`. -/
def parseLine (line : List Char) : Option Module := do
  let (rawPath, deps) ← splitOnce ':' (trim line)
  let name ← moduleName (trim rawPath)
  some ⟨name, trim rawPath, (deps.splitOn ' ').filterMap moduleName⟩

def modulesOf (text : List Char) : List Module := (text.splitOn '\n').filterMap parseLine

/-! ## The spans are right -/

theorem stripSuffix_eq_some {suffix s name : List Char} (h : stripSuffix suffix s = some name) :
    s = name ++ suffix := by
  unfold stripSuffix at h
  split_ifs at h with hs
  obtain ⟨before, rfl⟩ := hs
  rw [← Option.some.inj h]
  simp

theorem strippedName_eq_some {filename name : List Char} (h : strippedName filename = some name) :
    ∃ suffix, filename = name ++ suffix := by
  rcases Option.or_eq_some_iff.1 h with h | ⟨-, h⟩
  · exact ⟨koZst, stripSuffix_eq_some h⟩
  · exact ⟨ko, stripSuffix_eq_some h⟩

theorem map_slice_nameSpan {text path : List Char} {base : ℕ} (h : At text base path) :
    (nameSpan path base).map (slice text) = moduleName path := by
  unfold nameSpan moduleName
  cases hn : strippedName (fileName path) with
  | none => rfl
  | some name =>
    obtain ⟨suffix, hs⟩ := strippedName_eq_some hn
    have hp : path.rdropWhile (· ≠ '/') ++ fileName path = path := rdropWhile_append_rtakeWhile ..
    have hlen : byteLen path - byteLen (fileName path) = byteLen (path.rdropWhile (· ≠ '/')) := by
      have := congrArg byteLen hp
      rw [byteLen_append] at this
      omega
    rw [← hp, hs, ← append_assoc] at h
    simp only [Option.map_some, hlen, slice_of_at h.middle]

theorem map_slice_filterMap_nameSpan {text : List Char} {pieces : List (List Char × ℕ)}
    (h : ∀ piece ∈ pieces, At text piece.2 piece.1) :
    (pieces.filterMap fun piece => nameSpan piece.1 piece.2).map (slice text) =
      (pieces.map Prod.fst).filterMap moduleName := by
  rw [map_filterMap, filterMap_map]
  exact filterMap_congr fun piece hp => map_slice_nameSpan (h piece hp)

theorem splitOnce_eq_some_iff {c : Char} {s left right : List Char} :
    splitOnce c s = some (left, right) ↔ s = left ++ c :: right ∧ c ∉ left := by
  constructor
  · intro h
    unfold splitOnce at h
    split at h
    · cases h
    · next x rest hd =>
      obtain ⟨rfl, rfl⟩ := Prod.mk.inj (Option.some.inj h)
      have hx : x = c := by
        have := head?_dropWhile_not (fun a => decide (a ≠ c)) s
        rw [hd] at this
        simpa using this
      refine ⟨?_, fun hm => by simpa using mem_takeWhile_imp hm⟩
      conv_lhs => rw [← takeWhile_append_dropWhile (l := s), hd, hx]
  · rintro ⟨rfl, hl⟩
    have hp : ∀ a ∈ left, decide (a ≠ c) = true := fun a ha =>
      decide_eq_true fun heq => hl (heq ▸ ha)
    rw [splitOnce, dropWhile_append_of_pos hp, takeWhile_append_of_pos hp]
    simp

/-- What an entry says. -/
def view (text : List Char) (depNames : List Span) (entry : Entry) : Module where
  name := slice text entry.name
  path := slice text entry.path
  deps := ((depNames.drop entry.deps.start).take entry.deps.len).map (slice text)

/-- **A line adds what it says.** More names do not matter to the entries that are there. -/
theorem map_view_pushModule {text line : List Char} {offset : ℕ} (hl : At text offset line)
    {acc : List Entry × List Span} {parsed : List Module}
    (ha : ∀ more, acc.1.map (view text (acc.2 ++ more)) = parsed) (more : List Span) :
    (pushModule acc line offset).1.map (view text ((pushModule acc line offset).2 ++ more)) =
      parsed ++ (parseLine line).toList := by
  have ht := hl.trim
  unfold pushModule parseLine
  cases hs : splitOnce ':' (trim line) with
  | none => simpa using ha more
  | some parts =>
    obtain ⟨rawPath, deps⟩ := parts
    have hc := (splitOnce_eq_some_iff.1 hs).1
    rw [hc] at ht
    have hr := ht.left
    have hp := hr.trim
    rw [trimStart_of_trim hc, Nat.sub_self, Nat.add_zero] at hp
    have hnm := map_slice_nameSpan hp
    simp only [Option.bind_eq_bind]
    cases hsp : nameSpan (trim rawPath) (offset + (byteLen line - byteLen (trimStart line))) with
    | none =>
      rw [hsp] at hnm
      simpa [← hnm] using ha more
    | some span =>
      rw [hsp, Option.map_some] at hnm
      have hd : At text
          (offset + (byteLen line - byteLen (trimStart line)) + byteLen rawPath + 1) deps := by
        rw [append_cons] at ht
        have := ht.right
        rwa [byteLen_append] at this
      have hn := map_slice_filterMap_nameSpan (hd.offsets_splitOn (c := ' ') (by decide))
      rw [map_fst_offsets] at hn
      simp only [← hnm, Option.bind_some, map_append, append_assoc, ha, map_cons, map_nil,
        Option.toList_some]
      rw [view, drop_left, take_left, hn, spanAt, slice_of_at hr.trim]

/-- **The entries of the index say what the text says.** -/
theorem map_view_entries (text : List Char) :
    (entries text).1.map (view text (entries text).2) = modulesOf text := by
  have hl : ∀ line ∈ offsets 0 (text.splitOn '\n'), At text line.2 line.1 :=
    At.offsets_splitOn (by decide) ⟨[], [], by simp, rfl⟩
  have hf : ∀ (lines : List (List Char × ℕ)) (acc : List Entry × List Span)
      (parsed : List Module), (∀ line ∈ lines, At text line.2 line.1) →
      (∀ more, acc.1.map (view text (acc.2 ++ more)) = parsed) →
      let final := lines.foldl (fun acc line => pushModule acc line.1 line.2) acc
      ∀ more, final.1.map (view text (final.2 ++ more)) =
        parsed ++ (lines.map Prod.fst).filterMap parseLine := by
    intro lines
    induction lines with
    | nil => exact fun acc parsed _ ha more => by simpa using ha more
    | cons line lines ih =>
      intro acc parsed hl ha final more
      obtain ⟨hln, hl⟩ := forall_mem_cons.1 hl
      have := ih (pushModule acc line.1 line.2) (parsed ++ (parseLine line.1).toList) hl
        (map_view_pushModule hln ha) more
      rw [append_assoc] at this
      refine this.trans (congrArg (parsed ++ ·) ?_)
      rw [map_cons, filterMap_cons]
      cases parseLine line.1 <;> rfl
  have := hf _ ([], []) [] hl (fun _ => rfl) []
  rw [map_fst_offsets, append_nil] at this
  exact this

/-! ## The search -/

/-- The modules have distinct canonical names. -/
def DistinctNames (text : List Char) : Prop :=
  ((modulesOf text).map fun m => canonical m.name).Nodup

namespace DepDb

theorem compareAt_eq {db : DepDb} {index : ℕ} {entry : Entry}
    (h : db.modules[index]? = some entry) (name : List Char) :
    db.compareAt name index = compareKeys (key (slice db.text entry.name)) (key name) := by
  rw [compareAt, h]

/-- What the entry at an index says. -/
def moduleAt (db : DepDb) (index : ℕ) : Option Module :=
  (db.modules[index]?).map (view db.text db.depNames)

end DepDb

variable {text : List Char}

theorem perm_modules (text : List Char) :
    ((load text).modules.map (view text (load text).depNames)).Perm (modulesOf text) := by
  rw [← map_view_entries]
  exact (perm_insertionSort _ _).map _

theorem pairwise_modules (h : DistinctNames text) : (load text).modules.Pairwise fun left right =>
    key (slice text left.name) < key (slice text right.name) := by
  have hle := pairwise_insertionSort (fun left right : Entry =>
    key (slice text left.name) ≤ key (slice text right.name)) (entries text).1
  have hne : ((load text).modules.map fun entry => canonical (slice text entry.name)).Nodup := by
    have := ((perm_modules text).map fun m : Module => canonical m.name).nodup_iff.2 h
    rwa [map_map] at this
  rw [List.Nodup, pairwise_map] at hne
  exact (hle.and hne).imp fun ⟨hle, hne⟩ => lt_of_le_of_ne hle (mt key_eq_key_iff.1 hne)

/-- **The search finds the module of a name**, with `-` and `_` identified. -/
theorem find_eq_some_iff (h : DistinctNames text) {name : List Char} {index : ℕ} :
    (load text).find name = some index ↔
      ∃ m, (load text).moduleAt index = some m ∧ canonical m.name = canonical name := by
  have hs := pairwise_iff_getElem.1 (pairwise_modules h)
  rw [DepDb.find, binarySearchBy_eq_some_iff]
  · constructor
    · rintro ⟨hi, heq⟩
      have he := getElem?_eq_getElem hi
      rw [DepDb.compareAt_eq he, compareKeys_eq_eq_iff, key_eq_key_iff] at heq
      exact ⟨_, by rw [DepDb.moduleAt, he, Option.map_some], heq⟩
    · rintro ⟨m, hm, hk⟩
      obtain ⟨entry, he, rfl⟩ := Option.map_eq_some_iff.1 hm
      obtain ⟨hi, -⟩ := List.getElem?_eq_some_iff.1 he
      rw [DepDb.compareAt_eq he, compareKeys_eq_eq_iff, key_eq_key_iff]
      exact ⟨hi, hk⟩
  · intro i j hij hj hgt
    have hlt := hs i j (by omega) hj hij
    rw [DepDb.compareAt_eq (getElem?_eq_getElem hj), compareKeys_ne_gt_iff] at hgt
    rw [DepDb.compareAt_eq (getElem?_eq_getElem (by omega)), compareKeys_eq_lt_iff]
    exact lt_of_lt_of_le hlt hgt

theorem exists_moduleAt_iff {m : Module} :
    (∃ index, (load text).moduleAt index = some m) ↔ m ∈ modulesOf text := by
  rw [← (perm_modules text).mem_iff, mem_iff_getElem?]
  simp only [getElem?_map]
  exact Iff.rfl

theorem moduleAt_inj (h : DistinctNames text) {i j : ℕ} {m : Module}
    (hi : (load text).moduleAt i = some m) (hj : (load text).moduleAt j = some m) : i = j := by
  have hi := (find_eq_some_iff h).2 ⟨m, hi, rfl⟩
  have hj := (find_eq_some_iff h).2 ⟨m, hj, rfl⟩
  exact Option.some.inj (hi.symm.trans hj)

end Muak.Kmod
