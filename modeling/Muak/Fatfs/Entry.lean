import Mathlib.Algebra.BigOperators.Ring.List
import Mathlib.Algebra.Ring.Nat
import Muak.Fatfs.Layout
import Muak.Fatfs.Tree
import Muak.Foundations.Bytes
import Muak.Foundations.Utf16

/-!
# Directory entries

`libs/fatfs/src/name` and `dir.rs`: the 8.3 names of the entries of a directory, the entries for
their long names, and the bytes of a directory.

* `ShortNames.assign`, `append_entry`: names and entries, with the case conversion of characters as
  a parameter.
* `length_buildData`: the size of a directory is predicted exactly.
* `readDir_buildData`: what a reader finds in a directory is its entries, in order, each with its
  attribute, first cluster and size.
-/

namespace Muak.Fatfs

open U64 Bytes List

/-! ## Short names -/

/-- An 8.3 name. -/
structure Alias where
  bytes : Bytes
  length_bytes : bytes.length = 11
  deriving DecidableEq

/-- The two parts of a name, around the last dot. -/
structure Split where
  root : Bytes
  ext : Bytes

/-- The characters besides letters and digits that are kept. -/
def valid : Bytes := [95, 94, 36, 126, 33, 35, 37, 38, 45, 64, 39, 40, 41, 123, 125]

/-- A byte that may not be in a short name is an underscore. -/
def sanitize (byte : UInt8) : UInt8 :=
  if (48 ≤ byte ∧ byte ≤ 57) ∨ (65 ≤ byte ∧ byte ≤ 90) ∨ (97 ≤ byte ∧ byte ≤ 122) ∨
    byte ∈ valid then byte else 95

/-- The last dot separates the extension, unless it comes first. -/
def split (upper : Bytes) : Split :=
  let dot := upper.length - 1 - upper.reverse.idxOf 46
  if 46 ∈ upper ∧ 0 < dot then ⟨upper.take dot, upper.drop (dot + 1)⟩ else ⟨upper, []⟩

/-- The first `rootMax` bytes of the root and the extension, filled up with blanks. -/
def field (split : Split) (rootMax : ℕ) : Alias where
  bytes := (range 11).map fun i =>
    if i < 8 then if i < rootMax then ((split.root[i]?).map sanitize).getD 32 else 32
    else ((split.ext[i - 8]?).map sanitize).getD 32
  length_bytes := by rw [length_map, length_range]

/-- The number of decimal digits. -/
def digits (value : ℕ) : ℕ := if value < 10 then 1 else digits (value / 10) + 1

/-- The last `count` digits, the first of them at `first`. -/
def writeTail (first : ℕ) : (count rest : ℕ) → Bytes → Bytes
  | 0, _, bytes => bytes
  | count + 1, rest, bytes =>
    writeTail first count (rest / 10) (bytes.set (first + count) (UInt8.ofNat (48 + rest % 10)))

theorem length_writeTail (first count rest : ℕ) (bytes : Bytes) :
    (writeTail first count rest bytes).length = bytes.length := by
  induction count generalizing rest bytes with
  | zero => rfl
  | succ count ih => rw [writeTail, ih, length_set]

section Names

-- `char::to_uppercase`
variable (toUppercase : Char → List Char)

def upperBytes (name : String) : Bytes :=
  (name.toList.flatMap toUppercase).flatMap String.utf8EncodeChar

/-- The bytes of a name in upper case, if they fit the buffer. -/
def uppercase (name : String) : Option Bytes :=
  if (upperBytes toUppercase name).length ≤ 512 then some (upperBytes toUppercase name) else none

/-- The plain 8.3 form of a name. -/
def identity (name : String) : Option Alias :=
  ((uppercase toUppercase name).map split).bind fun split =>
    if 8 < split.root.length ∨ 3 < split.ext.length then none
    else if (split.root ++ split.ext).any fun byte => sanitize byte ≠ byte then none
    else some (field split 8)

/-- A name with a numeric tail. -/
def tailed (name : String) (tail : ℕ) : Alias :=
  let split := split ((upperBytes toUppercase name).take 512)
  let used := min split.root.length (8 - (digits tail + 1))
  let short := field split used
  ⟨writeTail (used + 1) (digits tail) tail (short.bytes.set used 126), by
    rw [length_writeTail, length_set, short.length_bytes]⟩

def fits (short : Alias) (name : String) : Bool := identity toUppercase name = some short

/-- `ShortNames::assign`, for the names that are taken. -/
def assign (taken : List Alias) (name : String) : Result Alias :=
  match (identity toUppercase name).filter (· ∉ taken) with
  | some short => .ok short
  | none =>
    okOr (((range' 1 999999).map (tailed toUppercase name)).find? (· ∉ taken))
      (.fat ("no free 8.3 alias left for " ++ name))

/-- The names of one directory. -/
def assignNames (taken : List Alias) : List String → Result (List Alias)
  | [] => .ok []
  | name :: rest => do
    let short ← assign toUppercase taken name
    let others ← assignNames (short :: taken) rest
    .ok (short :: others)

section

variable (tree : DirIndex) (files : List FileMeta)

/-- The short names of all directories. -/
def assignAliases : Result (List (List Alias)) :=
  (range tree.len).mapM fun dirIndex =>
    assignNames toUppercase [] ((tree.entries files dirIndex).map Prod.fst)

/-! ## Long names -/

/-- The units of a long name, at most 40 fragments of them. -/
def lfnUnits (name : String) : List UInt16 := (Utf16.encode name).take 520

def fragmentCount (name : String) : ℕ := divCeil (lfnUnits name).length 13

def checksum (short : Alias) : UInt8 :=
  short.bytes.foldl (fun sum byte => (sum >>> 1 ||| sum <<< 7) + byte) 0

/-- A fragment of a long name: 13 units in three places. -/
def fragment (ordinal checksum : UInt8) (chars : List UInt16) : Bytes :=
  let units (start count : ℕ) : Bytes :=
    (range' start count).flatMap fun i => le16 (chars.getD i 0)
  [ordinal] ++ units 0 5 ++ [0x0F, 0, checksum] ++ units 5 6 ++ [0, 0] ++ units 11 2

/-- The fragments of a name, the last one first. -/
def lfnSlots (name : String) (checksum : UInt8) : List Bytes :=
  let total := fragmentCount name
  (range total).reverse.map fun index =>
    fragment ((if index + 1 = total then 0x40 else 0) ||| UInt8.ofNat (index + 1)) checksum
      (((lfnUnits name).drop (index * 13)).take 13)

/-! ## Entries -/

def attrDirectory : UInt8 := 0x10

def attrArchive : UInt8 := 0x20

def attrLfn : UInt8 := 0x0F

def attrVolumeId : UInt8 := 0x08

/-- A directory entry, with fixed dates and times. -/
def entry (name : Alias) (attr : UInt8) (cluster size : UInt32) : Bytes :=
  name.bytes ++ [attr, 0, 0] ++ le16 0 ++ le16 0x0021 ++ le16 0x0021 ++
    le16 (cluster >>> 16).toUInt16 ++ le16 0 ++ le16 0x0021 ++ le16 cluster.toUInt16 ++ le32 size

/-- `append_entry`: the entries of a name, one unless it is a long one. -/
def entrySlots (name : String) (short : Alias) (attr : UInt8) (cluster size : UInt32) :
    List Bytes :=
  (if fits toUppercase short name then [] else lfnSlots name (checksum short)) ++
    [entry short attr cluster size]

def entryBytesLen (name : String) (short : Alias) : ℕ :=
  if fits toUppercase short name then 32 else 32 * (fragmentCount name + 1)

/-- A name of dots. -/
def dotted (count : ℕ) : Alias where
  bytes := (range 11).map fun i => if i < count then 46 else 32
  length_bytes := by rw [length_map, length_range]

/-- `MUAKOS`. -/
def volumeLabel : Alias := ⟨[77, 85, 65, 75, 79, 83, 32, 32, 32, 32, 32], rfl⟩

/-- The clusters of directories and files. -/
structure ClusterMap where
  dirStarts : List UInt32
  dirCounts : List UInt32
  fileStarts : List UInt32
  fileCounts : List ℕ
  fileSizes : List ℕ

variable (map : ClusterMap)

/-- The entry of the parent has cluster 0 for the root. -/
def parentCluster (dirIndex : ℕ) : UInt32 :=
  if tree.parentOf dirIndex = 0 then 0 else map.dirStarts.getD (tree.parentOf dirIndex) 2

/-- The volume label in the root, and `.` and `..` elsewhere. -/
def headerSlots (dirIndex : ℕ) : List Bytes :=
  if dirIndex = 0 then [entry volumeLabel attrVolumeId 0 0]
  else
    [entry (dotted 1) attrDirectory (map.dirStarts.getD dirIndex 2) 0,
      entry (dotted 2) attrDirectory (parentCluster tree map dirIndex) 0]

/-- Attribute, first cluster and size of an entry. -/
def kindFields : Kind → UInt8 × UInt32 × UInt32
  | .directory index => (attrDirectory, map.dirStarts.getD index 2, 0)
  | .file index =>
    let size := ((files[index]?).map FileMeta.size).getD 0
    (attrArchive, map.fileStarts.getD index 2,
      if size < 2 ^ 32 then UInt32.ofNat size else UInt32.ofNat (2 ^ 32 - 1))

def dirSlots (tree : DirIndex) (map : ClusterMap) (aliases : List (List Alias)) (dirIndex : ℕ) :
    List Bytes :=
  headerSlots tree map dirIndex ++
    ((tree.entries files dirIndex).zip (aliases.getD dirIndex [])).flatMap fun item =>
      let (attr, cluster, size) := kindFields files map item.1.2
      entrySlots toUppercase item.1.1 item.2 attr cluster size

/-- The bytes of one directory. -/
def buildData (tree : DirIndex) (map : ClusterMap) (aliases : List (List Alias)) (dirIndex : ℕ) :
    Bytes :=
  (dirSlots toUppercase files tree map aliases dirIndex).flatten

/-- The predicted size of one directory. -/
def sizeOfDir (aliases : List (List Alias)) (dirIndex : ℕ) : ℕ :=
  (if dirIndex = 0 then 32 else 64) +
    (((tree.entries files dirIndex).zip (aliases.getD dirIndex [])).map fun item =>
      entryBytesLen toUppercase item.1.1 item.2).sum

def sizes (aliases : List (List Alias)) : List ℕ :=
  (range tree.len).map (sizeOfDir toUppercase tree files aliases)

end

/-! ## Sizes -/

theorem length_entry (name : Alias) (attr : UInt8) (cluster size : UInt32) :
    (entry name attr cluster size).length = 32 := by
  simp [entry, name.length_bytes]

theorem length_fragment (ordinal checksum : UInt8) (chars : List UInt16) :
    (fragment ordinal checksum chars).length = 32 := by
  have hu : ∀ start count,
      ((range' start count).flatMap fun i => le16 (chars.getD i 0)).length = 2 * count := by
    intro start count
    simp only [length_flatMap, length_le16, map_const', length_range', sum_replicate,
      Nat.nsmul_eq_mul, Nat.mul_comm]
  simp [fragment]

variable {short : Alias} {cluster size : UInt32} {attr : UInt8}

theorem length_of_mem_entrySlots {name : String} {slot : Bytes}
    (h : slot ∈ entrySlots toUppercase name short attr cluster size) : slot.length = 32 := by
  rw [entrySlots, mem_append, mem_singleton] at h
  rcases h with h | rfl
  · split_ifs at h
    · cases h
    · obtain ⟨index, -, rfl⟩ := mem_map.1 h
      exact length_fragment ..
  · exact length_entry ..

theorem length_entrySlots (name : String) (short : Alias) (attr : UInt8) (cluster size : UInt32) :
    32 * (entrySlots toUppercase name short attr cluster size).length =
      entryBytesLen toUppercase name short := by
  rw [entrySlots, entryBytesLen]
  split_ifs
  · rfl
  · rw [length_append, lfnSlots, length_map, length_reverse, length_range, length_singleton]

variable {toUppercase} {files : List FileMeta} {tree : DirIndex} {map : ClusterMap}
  {aliases : List (List Alias)} {dirIndex : ℕ} {name : String} {taken : List Alias}
  {slot : Bytes}

theorem length_of_mem_dirSlots (h : slot ∈ dirSlots toUppercase files tree map aliases dirIndex) :
    slot.length = 32 := by
  rw [dirSlots, mem_append] at h
  rcases h with h | h
  · rw [headerSlots] at h
    split_ifs at h
    · rw [mem_singleton.1 h]
      exact length_entry ..
    · rcases mem_pair.1 h with rfl | rfl
      · exact length_entry ..
      · exact length_entry ..
  · obtain ⟨item, -, hs⟩ := mem_flatMap.1 h
    exact length_of_mem_entrySlots toUppercase hs

/-- **The size of a directory** is predicted before its entries are built. -/
theorem length_buildData : (buildData toUppercase files tree map aliases dirIndex).length =
      sizeOfDir toUppercase tree files aliases dirIndex := by
  rw [buildData, length_flatten_of_length fun slot => length_of_mem_dirSlots, dirSlots,
    length_append, Nat.add_mul]
  congr 1
  · rw [headerSlots]
    split_ifs <;> rfl
  · rw [length_flatMap, Nat.mul_comm, ← sum_map_mul_left]
    refine congrArg sum (map_congr_left fun item _ => ?_)
    exact length_entrySlots ..

/-! ## Names that are seen -/

/-- The first bytes that mean something else than an entry: the end of the directory, one of the
names of dots, a deleted entry. -/
def marks : Bytes := [0, 46, 0xE5]

/-- No byte of the name is such a mark. -/
def Alias.Visible (short : Alias) : Prop := ∀ byte ∈ short.bytes, byte ∉ marks

theorem sanitize_visible (byte : UInt8) : sanitize byte ∉ marks := by
  have ha : ∀ mark ∈ marks, sanitize mark ≠ mark := by
    rw [marks, forall_mem_cons, forall_mem_cons, forall_mem_singleton]
    decide
  unfold sanitize at ha ⊢
  split_ifs with h
  · intro hm
    exact ha byte hm (if_pos h)
  · decide

theorem field_visible (split : Split) (rootMax : ℕ) : (field split rootMax).Visible := by
  have hg : ∀ byte : Option UInt8, (byte.map sanitize).getD 32 ∉ marks := by
    intro byte
    cases byte with
    | none => decide
    | some byte => exact sanitize_visible byte
  intro byte hb
  obtain ⟨i, -, rfl⟩ := mem_map.1 hb
  split_ifs
  · exact hg _
  · decide
  · exact hg _

theorem writeTail_visible {first count rest : ℕ} {bytes : Bytes}
    (h : ∀ byte ∈ bytes, byte ∉ marks) :
    ∀ byte ∈ writeTail first count rest bytes, byte ∉ marks := by
  induction count generalizing rest bytes with
  | zero => exact h
  | succ count ih =>
    refine ih fun byte hb => ?_
    rcases mem_or_eq_of_mem_set hb with hb | rfl
    · exact h byte hb
    · have hd : rest % 10 < 10 := Nat.mod_lt _ (by decide)
      generalize rest % 10 = digit at hd
      revert digit
      decide

theorem tailed_visible (name : String) (tail : ℕ) : (tailed toUppercase name tail).Visible := by
  refine writeTail_visible fun byte hb => ?_
  rcases mem_or_eq_of_mem_set hb with hb | rfl
  · exact field_visible _ _ byte hb
  · decide

theorem assign_visible (h : assign toUppercase taken name = .ok short) : short.Visible := by
  unfold assign at h
  split at h
  · next found hf =>
    cases h
    have hi := (Option.filter_eq_some_iff.1 hf).1
    rw [identity, Option.bind_eq_some_iff] at hi
    obtain ⟨split, -, hs⟩ := hi
    split_ifs at hs
    cases hs
    exact field_visible split 8
  · have hfn := mem_of_find?_eq_some (okOr_eq_ok_iff.1 h)
    obtain ⟨tail, -, rfl⟩ := mem_map.1 hfn
    exact tailed_visible name tail

/-- A name for each entry, all of them visible. -/
theorem assignNames_spec {names : List String} {shorts : List Alias}
    (h : assignNames toUppercase taken names = .ok shorts) :
    shorts.length = names.length ∧ ∀ short ∈ shorts, short.Visible := by
  induction names generalizing taken shorts with
  | nil =>
    cases h
    exact ⟨rfl, fun short hs => by cases hs⟩
  | cons name rest ih =>
    obtain ⟨short, hs, h⟩ := of_bind h
    obtain ⟨others, ho, h⟩ := of_bind h
    cases h
    obtain ⟨hlen, hv⟩ := ih ho
    exact ⟨congrArg (· + 1) hlen, forall_mem_cons.2 ⟨assign_visible hs, hv⟩⟩

theorem assignNames_of_assignAliases (h : assignAliases toUppercase tree files = .ok aliases)
    (hlt : dirIndex < tree.len) :
    assignNames toUppercase [] ((tree.entries files dirIndex).map Prod.fst) =
      .ok (aliases.getD dirIndex []) := by
  obtain ⟨hlen, hget⟩ := forall₂_iff_get.1 (forall₂_of_mapM_eq_ok h)
  rw [length_range] at hlen
  have hn := hget dirIndex (by rwa [length_range]) (by rwa [← hlen])
  rw [getD_eq_getElem?_getD, getElem?_eq_getElem (by rwa [← hlen])]
  simpa using hn

theorem assignAliases_spec (h : assignAliases toUppercase tree files = .ok aliases)
    (hlt : dirIndex < tree.len) :
    (aliases.getD dirIndex []).length = (tree.entries files dirIndex).length ∧
      ∀ short ∈ aliases.getD dirIndex [], short.Visible := by
  simpa using assignNames_spec (assignNames_of_assignAliases h hlt)

/-! ## Reading a directory -/

/-- What a directory entry says. -/
structure DirEntry where
  name : Bytes
  attr : UInt8
  cluster : UInt32
  size : UInt32
  deriving DecidableEq

/-- The entry in a slot, with the two halves of the cluster put together. -/
def decode (slot : Bytes) : DirEntry where
  name := slot.take 11
  attr := slot.getD 11 0
  cluster := UInt32.ofNat (ofLe ((slot.drop 26).take 2) + 2 ^ 16 * ofLe ((slot.drop 20).take 2))
  size := UInt32.ofNat (ofLe ((slot.drop 28).take 4))

/-- The slots of long names, the label, the names of dots and what was deleted are passed over. -/
def readSlot (slot : Bytes) : Option DirEntry :=
  if slot.getD 0 0 ∈ marks ∨ slot.getD 11 0 &&& attrVolumeId ≠ 0 then none else some (decode slot)

/-- A reader of a directory stops at the first slot that starts with a zero. -/
def readDir (bytes : Bytes) : List DirEntry :=
  ((chunks 32 (bytes.length / 32) bytes).takeWhile (·.getD 0 0 ≠ 0)).filterMap readSlot

section

variable (name : Alias) (attr : UInt8) (cluster size : UInt32)

theorem decode_entry :
    decode (entry name attr cluster size) = ⟨name.bytes, attr, cluster, size⟩ := by
  have hc := cluster.toNat_lt
  have hlo : ofLe (le16 cluster.toUInt16) = cluster.toNat % 2 ^ 16 := by
    rw [le16, ofLe_leBytes (UInt16.toNat_lt _), UInt32.toNat_toUInt16]
  have hhi : ofLe (le16 (cluster >>> 16).toUInt16) = cluster.toNat / 2 ^ 16 := by
    rw [le16, ofLe_leBytes (UInt16.toNat_lt _), UInt32.toNat_toUInt16, UInt32.toNat_shiftRight,
      Nat.shiftRight_eq_div_pow]
    change cluster.toNat / 2 ^ 16 % 2 ^ 16 = _
    omega
  -- behind the name all fields are at fixed places
  have hd : ∀ k, (entry name attr cluster size).drop (11 + k) =
      ([attr, 0, 0] ++ le16 0 ++ le16 0x0021 ++ le16 0x0021 ++ le16 (cluster >>> 16).toUInt16 ++
        le16 0 ++ le16 0x0021 ++ le16 cluster.toUInt16 ++ le32 size).drop k := by
    intro k
    simp only [entry, append_assoc]
    rw [← drop_drop, drop_left' name.length_bytes]
  have hn : (entry name attr cluster size).take 11 = name.bytes := by
    simp only [entry, append_assoc]
    exact take_left' name.length_bytes
  have ha : (entry name attr cluster size).getD 11 0 = attr := by
    rw [getD_eq_getElem?_getD, ← head?_drop, hd 0]
    rfl
  have hf : ((entry name attr cluster size).drop 20).take 2 = le16 (cluster >>> 16).toUInt16 ∧
      ((entry name attr cluster size).drop 26).take 2 = le16 cluster.toUInt16 ∧
      ((entry name attr cluster size).drop 28).take 4 = le32 size := by
    rw [hd 9, hd 15, hd 17]
    exact ⟨rfl, rfl, rfl⟩
  rw [decode, hn, ha, hf.1, hf.2.1, hf.2.2, hlo, hhi, ofNat_ofLe_le32,
    show cluster.toNat % 2 ^ 16 + 2 ^ 16 * (cluster.toNat / 2 ^ 16) = cluster.toNat by omega,
    UInt32.ofNat_toNat]

theorem getD_entry_attr : (entry name attr cluster size).getD 11 0 = attr :=
  congrArg DirEntry.attr (decode_entry name attr cluster size)

theorem getD_entry_mem : (entry name attr cluster size).getD 0 0 ∈ name.bytes := by
  have hlen := name.length_bytes
  unfold entry
  cases hb : name.bytes with
  | nil =>
    rw [hb] at hlen
    cases hlen
  | cons first rest => exact mem_cons_self

end

theorem readSlot_entry {name : Alias} (hn : name.Visible) (ha : attr &&& attrVolumeId = 0)
    (cluster size : UInt32) :
    readSlot (entry name attr cluster size) = some ⟨name.bytes, attr, cluster, size⟩ := by
  rw [readSlot, if_neg, decode_entry]
  rw [getD_entry_attr, not_or, not_not]
  exact ⟨hn _ (getD_entry_mem ..), ha⟩

/-- The slots of a long name are not zero at their beginning, and are passed over. -/
theorem readSlot_of_mem_lfnSlots {sum : UInt8} (h : slot ∈ lfnSlots name sum) :
    slot.getD 0 0 ≠ 0 ∧ readSlot slot = none := by
  have ho : ∀ index < 40,
      0x40 ||| UInt8.ofNat (index + 1) ≠ 0 ∧ 0 ||| UInt8.ofNat (index + 1) ≠ 0 := by
    decide
  have ht : fragmentCount name ≤ 40 := by
    have hu : (lfnUnits name).length ≤ 520 := by
      rw [lfnUnits, length_take]
      omega
    rw [fragmentCount, divCeil]
    omega
  obtain ⟨index, hi, rfl⟩ := mem_map.1 h
  rw [mem_reverse, mem_range] at hi
  obtain ⟨hl, hot⟩ := ho index (by omega)
  refine ⟨?_, if_pos (.inr ?_)⟩
  · change (if _ then 0x40 else 0) ||| UInt8.ofNat (index + 1) ≠ 0
    split_ifs
    · exact hl
    · exact hot
  · change (0x0F : UInt8) &&& attrVolumeId ≠ 0
    decide

/-- All that is read of the slots of a name is its entry. -/
theorem filterMap_entrySlots (hs : short.Visible) (ha : attr &&& attrVolumeId = 0) :
    (entrySlots toUppercase name short attr cluster size).filterMap readSlot =
      [⟨short.bytes, attr, cluster, size⟩] := by
  rw [entrySlots, filterMap_append, filterMap_cons_some (readSlot_entry hs ha ..), filterMap_nil]
  split_ifs
  · rfl
  · rw [filterMap_eq_nil_iff.2 fun slot hsl => (readSlot_of_mem_lfnSlots hsl).2, nil_append]

theorem getD_of_mem_entrySlots (hs : short.Visible)
    (h : slot ∈ entrySlots toUppercase name short attr cluster size) : slot.getD 0 0 ≠ 0 := by
  rw [entrySlots, mem_append, mem_singleton] at h
  rcases h with h | rfl
  · split_ifs at h
    · cases h
    · exact (readSlot_of_mem_lfnSlots h).1
  · intro hz
    exact hs _ (getD_entry_mem ..) (by rw [hz]; decide)

/-- The label and the names of dots are passed over. -/
theorem readSlot_of_mem_headerSlots (h : slot ∈ headerSlots tree map dirIndex) :
    slot.getD 0 0 ≠ 0 ∧ readSlot slot = none := by
  rw [headerSlots] at h
  split_ifs at h
  · rw [mem_singleton.1 h]
    exact ⟨by decide, rfl⟩
  · rcases mem_pair.1 h with rfl | rfl
    · exact ⟨show (46 : UInt8) ≠ 0 by decide, if_pos (.inl (show 46 ∈ marks by decide))⟩
    · exact ⟨show (46 : UInt8) ≠ 0 by decide, if_pos (.inl (show 46 ∈ marks by decide))⟩

/-- What the entry of a directory or a file says. -/
def entryOf (files : List FileMeta) (map : ClusterMap) (kind : Kind) (short : Alias) : DirEntry :=
  let (attr, cluster, size) := kindFields files map kind
  ⟨short.bytes, attr, cluster, size⟩

theorem kindFields_attr (kind : Kind) : (kindFields files map kind).1 &&& attrVolumeId = 0 := by
  cases kind with
  | directory index => exact show attrDirectory &&& attrVolumeId = 0 by decide
  | file index => exact show attrArchive &&& attrVolumeId = 0 by decide

/-- **Reading a directory** gives its entries in order. -/
theorem readDir_buildData (hv : ∀ short ∈ aliases.getD dirIndex [], short.Visible) (pad : ℕ) :
    readDir (buildData toUppercase files tree map aliases dirIndex ++ zeros (32 * pad)) =
      ((tree.entries files dirIndex).zip (aliases.getD dirIndex [])).map fun item =>
        entryOf files map item.1.2 item.2 := by
  have hs : ∀ slot ∈ dirSlots toUppercase files tree map aliases dirIndex ++
      replicate pad (zeros 32), slot.length = 32 := by
    intro slot hsl
    rcases mem_append.1 hsl with hsl | hsl
    · exact length_of_mem_dirSlots hsl
    · rw [eq_of_mem_replicate hsl, length_zeros]
  have hb : buildData toUppercase files tree map aliases dirIndex ++ zeros (32 * pad) =
      (dirSlots toUppercase files tree map aliases dirIndex ++
        replicate pad (zeros 32)).flatten := by
    rw [flatten_append, buildData, zeros, zeros, flatten_replicate_replicate, Nat.mul_comm]
  have hc := chunks_flatten hs []
  rw [readDir, hb, length_flatten_of_length hs, Nat.mul_div_cancel _ (by decide)]
  rw [append_nil] at hc
  rw [hc]
  have hf : ∀ slot ∈ dirSlots toUppercase files tree map aliases dirIndex, slot.getD 0 0 ≠ 0 := by
    intro slot hsl
    rcases mem_append.1 hsl with hsl | hsl
    · exact (readSlot_of_mem_headerSlots hsl).1
    · obtain ⟨item, hi, hsl⟩ := mem_flatMap.1 hsl
      exact getD_of_mem_entrySlots (hv _ (of_mem_zip hi).2) hsl
  -- the zeros end the directory
  have hz : (replicate pad (zeros 32)).takeWhile (·.getD 0 0 ≠ 0) = [] := by
    cases pad with
    | zero => rfl
    | succ pad => rfl
  have hh := filterMap_eq_nil_iff.2 fun slot hsl =>
    (@readSlot_of_mem_headerSlots tree map dirIndex slot hsl).2
  rw [takeWhile_append_of_pos fun slot hsl => decide_eq_true (hf slot hsl), hz, append_nil,
    dirSlots, filterMap_append, hh,
    filterMap_flatMap, map_eq_flatMap]
  refine flatMap_congr fun item hi => ?_
  exact filterMap_entrySlots (hv _ (of_mem_zip hi).2) (kindFields_attr _)

end Names

end Muak.Fatfs
