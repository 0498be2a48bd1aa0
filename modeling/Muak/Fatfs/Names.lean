import Muak.Fatfs.Image

/-!
# Names that survive

The names of a directory and what a reader of its entries makes of them: the 8.3 name where it says
all, and else the long name in the fragments before the entry.

* `readNames`: the reader, which keeps the fragments that it passes for the entry behind them.
* `flatMap_units_lfnSlots`, `shortText_of_identity`: what fragments and 8.3 names say.
* `names_survive_iff`: exactly the names survive that have at most 40 fragments, or whose upper case
  in Unicode is that in ASCII.
* `sharp_s_is_lost`: a name that does not.
-/

namespace Muak.Fatfs

open U64 Bytes List

/-! ## Reading names -/

/-- The slots of a directory. -/
def slots (bytes : Bytes) : List Bytes := chunks 32 (bytes.length / 32) bytes

/-- The entries, each with the fragments that stand before it. -/
def readNames : (pending : List Bytes) → List Bytes → List (List Bytes × DirEntry)
  | _, [] => []
  | pending, slot :: rest =>
    if slot.getD 11 0 = attrLfn then readNames (pending ++ [slot]) rest
    else
      match readSlot slot with
      | some found => (pending, found) :: readNames [] rest
      | none => readNames [] rest

/-- The units in a fragment. -/
def fragmentUnits (slot : Bytes) : List UInt16 :=
  [1, 3, 5, 7, 9, 14, 16, 18, 20, 22, 24, 28, 30].map fun place =>
    UInt16.ofNat (ofLe ((slot.drop place).take 2))

/-- The text of an 8.3 name: root and extension without the blanks behind them. -/
def shortText (name : Bytes) : Bytes :=
  let root := (name.take 8).takeWhile (· ≠ 32)
  let ext := (name.drop 8).takeWhile (· ≠ 32)
  if ext = [] then root else root ++ 46 :: ext

def asciiUpper (byte : UInt8) : UInt8 := if 97 ≤ byte ∧ byte ≤ 122 then byte - 32 else byte

def utf8 (name : String) : Bytes := name.toList.flatMap String.utf8EncodeChar

/-- What is found is the name. -/
def Decodes (name : String) (found : List Bytes × DirEntry) : Prop :=
  if found.1 = [] then (shortText found.2.name).map asciiUpper = (utf8 name).map asciiUpper
  else
    (∃ n, found.1.map (·.getD 0 0) =
      (UInt8.ofNat (n + 1) ||| 0x40) :: (range n).reverse.map fun i => UInt8.ofNat (i + 1)) ∧
    (∃ short : Alias, short.bytes = found.2.name ∧ ∀ slot ∈ found.1,
      slot.getD 13 0 = checksum short) ∧
    ∃ pad < 13, found.1.reverse.flatMap fragmentUnits = Utf16.encode name ++ replicate pad 0

/-- The names are found, in their order, and no 8.3 name is found twice. -/
structure Survive (names : List String) (found : List (List Bytes × DirEntry)) : Prop where
  decodes : List.Forall₂ Decodes names found
  distinct : (found.map (·.2.name)).Nodup

/-! ## Padding -/

theorem map_getD_range {α : Type*} {l : List α} {n : ℕ} (h : l.length ≤ n) (d : α) :
    (range n).map (fun i => l.getD i d) = l ++ replicate (n - l.length) d := by
  refine ext_getElem (by simp [h]) fun i hi hi' => ?_
  rw [getElem_append]
  split_ifs with hlt
  · simp [hlt]
  · simp [not_lt.1 hlt]

theorem flatMap_range {α : Type*} (width : ℕ) (value : ℕ → α) (count : ℕ) :
    (range count).flatMap (fun i => (range width).map fun j => value (i * width + j)) =
      (range (count * width)).map value := by
  induction count with
  | zero => simp
  | succ count ih =>
    rw [range_succ, flatMap_append, ih, flatMap_singleton, Nat.succ_mul, range_add, map_append,
      map_map]
    rfl

/-! ## Fragments -/

theorem fragmentUnits_fragment (ordinal checksum : UInt8) (chars : List UInt16) :
    fragmentUnits (fragment ordinal checksum chars) = (range 13).map fun j => chars.getD j 0 := by
  change (range 13).map (fun j => UInt16.ofNat (ofLe (le16 (chars.getD j 0)))) = _
  simp

variable {name : String} {sum : UInt8} {upper : Bytes} {toUppercase : Char → List Char}

theorem length_lfnUnits (name : String) :
    (lfnUnits name).length = min 520 (Utf16.encode name).length := length_take

/-- **The units of all fragments** are those of the name, and zeros up to a whole fragment. -/
theorem flatMap_units_lfnSlots : (lfnSlots name sum).reverse.flatMap fragmentUnits =
    lfnUnits name ++ replicate (fragmentCount name * 13 - (lfnUnits name).length) 0 := by
  have hu : ∀ i j, j < 13 → (((lfnUnits name).drop (i * 13)).take 13).getD j 0 =
      (lfnUnits name).getD (i * 13 + j) 0 := by
    intro i j hj
    simp [hj]
  have hle : (lfnUnits name).length ≤ fragmentCount name * 13 := le_divCeil_mul (by decide)
  rw [← map_getD_range hle, ← flatMap_range 13, lfnSlots, ← map_reverse, reverse_reverse,
    flatMap_map]
  refine flatMap_congr fun i _ => ?_
  rw [fragmentUnits_fragment]
  exact map_congr_left fun j hj => hu i j (mem_range.1 hj)

theorem getD_of_mem_lfnSlots {slot : Bytes} (h : slot ∈ lfnSlots name sum) :
    slot.getD 11 0 = attrLfn ∧ slot.getD 13 0 = sum := by
  obtain ⟨index, -, rfl⟩ := mem_map.1 h
  exact ⟨rfl, rfl⟩

/-- The ordinals count down to one, the first of them marked. -/
theorem ordinals_lfnSlots {n : ℕ} (h : fragmentCount name = n + 1) :
    (lfnSlots name sum).map (·.getD 0 0) = (UInt8.ofNat (n + 1) ||| 0x40) ::
        (range n).reverse.map fun i => UInt8.ofNat (i + 1) := by
  simp only [lfnSlots, h, map_map, range_succ, reverse_append, reverse_singleton, singleton_append,
    map_cons]
  congr 1
  · exact (UInt8.or_comm _ _ : 0x40 ||| UInt8.ofNat (n + 1) = _)
  · refine map_congr_left fun i hi => ?_
    rw [mem_reverse, mem_range] at hi
    exact (congrArg (· ||| UInt8.ofNat (i + 1)) (if_neg (by omega))).trans (UInt8.zero_or)

/-- **A long name** is found exactly if its units are all there. -/
theorem decodes_lfnSlots_iff (hnm : name ≠ "") (short : Alias) {found : DirEntry}
    (hf : found.name = short.bytes) :
    Decodes name (lfnSlots name (checksum short), found) ↔ (Utf16.encode name).length ≤ 520 := by
  have hu := length_lfnUnits name
  have hp : 0 < (Utf16.encode name).length := by
    obtain ⟨c, rest, hc⟩ := exists_cons_of_ne_nil (mt String.toList_eq_nil_iff.1 hnm)
    rw [Utf16.encode, hc, flatMap_cons, length_append]
    have hch : 0 < (Utf16.encodeChar c).length := by
      rw [Utf16.encodeChar]
      split_ifs <;> simp
    omega
  obtain ⟨n, hn⟩ : ∃ n, fragmentCount name = n + 1 :=
    Nat.exists_eq_add_one_of_ne_zero (mt (divCeil_eq_zero_iff (by decide)).1 (by omega))
  have hcn : fragmentCount name = ((lfnUnits name).length + 12) / 13 := rfl
  have hne : lfnSlots name (checksum short) ≠ [] := by
    rw [← length_pos_iff, lfnSlots, length_map, length_reverse, length_range]
    omega
  rw [Decodes, if_neg hne, flatMap_units_lfnSlots]
  constructor
  · rintro ⟨-, -, pad, -, heq⟩
    -- with more units there are 40 full fragments, and these are not enough
    have hlen := congrArg length heq
    simp only [length_append, length_replicate] at hlen
    omega
  · intro hle
    refine ⟨⟨n, ordinals_lfnSlots hn⟩, ⟨short, hf.symm, fun slot hs =>
      (getD_of_mem_lfnSlots hs).2⟩, _, ?_, congrArg (· ++ _) (take_of_length_le hle)⟩
    omega

/-! ## Short names -/

/-- A dot at the end is not kept. -/
def stripDot (bytes : Bytes) : Bytes :=
  if bytes.getLast? = some 46 then bytes.dropLast else bytes

theorem sanitize_ne {byte : UInt8} (h : sanitize byte = byte) : byte ≠ 32 ∧ byte ≠ 46 := by
  constructor
  · rintro rfl
    exact absurd h (by decide)
  · rintro rfl
    exact absurd h (by decide)

/-- No byte that is kept as it is is a dot. -/
theorem stripDot_append {before after : Bytes} (hne : after ≠ [])
    (h : ∀ byte ∈ after, sanitize byte = byte) : stripDot (before ++ after) = before ++ after := by
  rw [stripDot, if_neg]
  rw [getLast?_append_of_ne_nil _ hne]
  exact fun hl => (sanitize_ne (h _ (mem_of_getLast? hl))).2 rfl

theorem exists_dot (h : 46 ∈ upper) : upper.take (upper.length - 1 - upper.reverse.idxOf 46) ++
      46 :: upper.drop (upper.length - 1 - upper.reverse.idxOf 46 + 1) = upper := by
  have hi : upper.reverse.idxOf 46 < upper.reverse.length :=
    idxOf_lt_length_of_mem (mem_reverse.2 h)
  have hget := getElem_idxOf hi
  rw [getElem_reverse] at hget
  rw [length_reverse] at hi
  conv_rhs => rw [← take_append_drop (upper.length - 1 - upper.reverse.idxOf 46) upper,
    drop_eq_getElem_cons (by omega), hget]

theorem split_cases (upper : Bytes) :
    split upper = ⟨upper, []⟩ ∨ (split upper).root ++ 46 :: (split upper).ext = upper := by
  unfold split
  dsimp only
  split_ifs with hd
  · exact .inr (exists_dot hd.1)
  · exact .inl rfl

theorem join_split (h : ∀ byte ∈ (split upper).root ++ (split upper).ext, sanitize byte = byte) :
    (if (split upper).ext = [] then (split upper).root
      else (split upper).root ++ 46 :: (split upper).ext) = stripDot upper := by
  obtain hp | hd := split_cases upper
  · rw [hp]
    rw [hp, append_nil] at h
    by_cases hne : upper = []
    · rw [hne]
      rfl
    · exact (@stripDot_append [] upper hne h).symm
  · conv_rhs => rw [← hd]
    split_ifs with he
    · rw [he, stripDot, if_pos getLast?_concat, dropLast_concat]
    · have hl := @stripDot_append ((split upper).root ++ [46]) _ he fun byte hb =>
        h byte (mem_append_right _ hb)
      rw [append_assoc] at hl
      exact hl.symm

/-- The blanks behind a part are what is added to it. -/
theorem takeWhile_field {part : Bytes} {n : ℕ} (hlen : part.length ≤ n)
    (h : ∀ byte ∈ part, sanitize byte = byte) :
    ((range n).map fun i => ((part[i]?).map sanitize).getD 32).takeWhile (· ≠ 32) = part := by
  have hm : part.map sanitize = part := by
    conv_rhs => rw [← map_id part]
    exact map_congr_left h
  have hp := map_getD_range hlen 32
  simp only [getD_eq_getElem?_getD] at hp
  simp only [← getElem?_map, hm, hp]
  rw [takeWhile_append_of_pos fun byte hb => by simpa using (sanitize_ne (h byte hb)).1]
  simp

/-- **A plain 8.3 name** says the name in upper case. -/
theorem shortText_of_identity {short : Alias} (h : identity toUppercase name = some short) :
    shortText short.bytes = stripDot (upperBytes toUppercase name) := by
  rw [identity, Option.bind_eq_some_iff] at h
  obtain ⟨parts, hp, h⟩ := h
  obtain ⟨upper, hu, rfl⟩ := Option.map_eq_some_iff.1 hp
  rw [uppercase] at hu
  split_ifs at hu h with hln hl ha
  cases hu
  cases h
  simp only [decide_not, any_eq_true, Bool.not_eq_eq_eq_not, Bool.not_true, decide_eq_false_iff_not,
    not_exists, not_and, not_not] at ha
  rw [← join_split ha]
  rw [not_or, not_lt, not_lt] at hl
  have hroot := takeWhile_field hl.1 fun byte hb =>
    ha byte (mem_append_left _ hb)
  have he := takeWhile_field hl.2 fun byte hb =>
    ha byte (mem_append_right _ hb)
  have hf : (field (split (upperBytes toUppercase name)) 8).bytes.take 8 =
      (range 8).map (fun i => (((split (upperBytes toUppercase name)).root[i]?).map
        sanitize).getD 32) ∧
    (field (split (upperBytes toUppercase name)) 8).bytes.drop 8 =
      (range 3).map (fun i => (((split (upperBytes toUppercase name)).ext[i]?).map
        sanitize).getD 32) := ⟨rfl, rfl⟩
  rw [shortText, hf.1, hf.2, hroot, he]

/-! ## The names of a directory -/

section

variable (toUppercase : Char → List Char) {aliases : List (List Alias)}

/-- The upper case of the name in Unicode is that in ASCII. -/
def AsciiCase (name : String) : Prop :=
  (stripDot (upperBytes toUppercase name)).map asciiUpper = (utf8 name).map asciiUpper

instance decidableAsciiCase (name : String) : Decidable (AsciiCase toUppercase name) :=
  inferInstanceAs (Decidable (_ = _))

/-- With the names that are taken when its turn comes, each name has either a plain 8.3 form that
only changes letters of ASCII, or at most 40 fragments. -/
def NamesFit : (taken : List Alias) → List String → Prop
  | _, [] => True
  | taken, name :: rest =>
    (if ((identity toUppercase name).filter (· ∉ taken)).isSome then AsciiCase toUppercase name
      else (Utf16.encode name).length ≤ 520) ∧
    ∀ short, assign toUppercase taken name = .ok short → NamesFit (short :: taken) rest

/-- The fragments of a name with this 8.3 name. -/
def fragmentsOf (name : String) (short : Alias) : List Bytes :=
  if fits toUppercase short name then [] else lfnSlots name (checksum short)

variable {toUppercase} {taken : List Alias} {short : Alias}

/-- A name that is assigned is not taken, and is the plain one if that is free. -/
theorem assign_spec (h : assign toUppercase taken name = .ok short) : short ∉ taken ∧
    (fits toUppercase short name = true ↔
      ((identity toUppercase name).filter (· ∉ taken)).isSome) := by
  unfold assign at h
  split at h
  · next found hf =>
    cases h
    obtain ⟨hi, hfr⟩ := Option.filter_eq_some_iff.1 hf
    exact ⟨of_decide_eq_true hfr, by simpa [fits, hi] using hfr⟩
  · next hn =>
    have hfr : short ∉ taken := by simpa using find?_some (okOr_eq_ok_iff.1 h)
    refine ⟨hfr, fun hft => ?_, fun hs => by rw [hn] at hs; cases hs⟩
    have hi := of_decide_eq_true hft
    rw [hi, Option.filter_some, if_pos (decide_eq_true hfr)] at hn
    cases hn

theorem decodes_fragmentsOf_iff (hn : name ≠ "") (h : assign toUppercase taken name = .ok short)
    {found : DirEntry} (hf : found.name = short.bytes) :
    Decodes name (fragmentsOf toUppercase name short, found) ↔
      if ((identity toUppercase name).filter (· ∉ taken)).isSome then AsciiCase toUppercase name
      else (Utf16.encode name).length ≤ 520 := by
  have hs := (assign_spec h).2
  by_cases hft : fits toUppercase short name = true
  · rw [if_pos (hs.1 hft), fragmentsOf, if_pos hft, Decodes, if_pos rfl, hf,
      shortText_of_identity (of_decide_eq_true hft), AsciiCase]
  · rw [if_neg (mt hs.2 hft), fragmentsOf, if_neg hft, decodes_lfnSlots_iff hn short hf]

variable {files : List FileMeta} {map : ClusterMap}

/-- What is found of the entries with these 8.3 names. -/
def foundOf (toUppercase : Char → List Char) (files : List FileMeta) (map : ClusterMap)
    (item : (String × Kind) × Alias) : List Bytes × DirEntry :=
  (fragmentsOf toUppercase item.1.1 item.2, entryOf files map item.1.2 item.2)

theorem decodes_foundOf_iff {entries : List (String × Kind)} {shorts : List Alias}
    (hn : ∀ entry ∈ entries, entry.1 ≠ "")
    (h : assignNames toUppercase taken (entries.map Prod.fst) = .ok shorts) :
    (List.Forall₂ Decodes (entries.map Prod.fst)
        ((entries.zip shorts).map (foundOf toUppercase files map)) ↔
      NamesFit toUppercase taken (entries.map Prod.fst)) ∧
    shorts.Nodup ∧ (∀ short ∈ shorts, short ∉ taken) ∧
    ((entries.zip shorts).map (foundOf toUppercase files map)).map (·.2.name) =
      shorts.map Alias.bytes := by
  induction entries generalizing taken shorts with
  | nil =>
    cases h
    exact ⟨⟨fun _ => trivial, fun _ => .nil⟩, nodup_nil, by simp, rfl⟩
  | cons item rest ih =>
    obtain ⟨hnm, hn⟩ := forall_mem_cons.1 hn
    obtain ⟨short, hs, h⟩ := of_bind h
    obtain ⟨others, ho, h⟩ := of_bind h
    cases h
    obtain ⟨hi, hnd, hf, hb⟩ := ih hn ho
    refine ⟨?_, nodup_cons.2 ⟨fun hm => hf short hm mem_cons_self, hnd⟩,
      forall_mem_cons.2 ⟨(assign_spec hs).1, fun other hot hm =>
        hf other hot (mem_cons_of_mem _ hm)⟩, ?_⟩
    · rw [zip_cons_cons, map_cons, map_cons, forall₂_cons, hi]
      refine and_congr (decodes_fragmentsOf_iff hnm hs rfl) ⟨fun hrest other hot => ?_,
        fun hrest => hrest short hs⟩
      cases hs.symm.trans hot
      exact hrest
    · rw [zip_cons_cons, map_cons, map_cons, hb]
      rfl

/-! ## The bytes of a directory -/

theorem readNames_of_lfn {fragments : List Bytes}
    (h : ∀ slot ∈ fragments, slot.getD 11 0 = attrLfn) (pending rest : List Bytes) :
    readNames pending (fragments ++ rest) = readNames (pending ++ fragments) rest := by
  induction fragments generalizing pending with
  | nil => rw [nil_append, append_nil]
  | cons slot fragments ih =>
    obtain ⟨hsl, hs⟩ := forall_mem_cons.1 h
    rw [cons_append, readNames, if_pos hsl, ih hs, append_assoc, singleton_append]

theorem readNames_entrySlots (hs : short.Visible) {attr : UInt8}
    (ha : attr &&& attrVolumeId = 0) (cluster size : UInt32) (rest : List Bytes) :
    readNames [] (entrySlots toUppercase name short attr cluster size ++ rest) =
      (fragmentsOf toUppercase name short, ⟨short.bytes, attr, cluster, size⟩) ::
        readNames [] rest := by
  have hl : ∀ slot ∈ fragmentsOf toUppercase name short, slot.getD 11 0 = attrLfn := by
    intro slot hsl
    rw [fragmentsOf] at hsl
    split_ifs at hsl
    · cases hsl
    · exact (getD_of_mem_lfnSlots hsl).1
  have hne : (entry short attr cluster size).getD 11 0 ≠ attrLfn := by
    rw [getD_entry_attr]
    rintro rfl
    exact absurd ha (by decide)
  rw [show entrySlots toUppercase name short attr cluster size =
      fragmentsOf toUppercase name short ++ [entry short attr cluster size] from rfl,
    append_assoc, readNames_of_lfn hl, nil_append, singleton_append, readNames,
    if_neg hne, readSlot_entry hs ha]

theorem readNames_headerSlots (tree : DirIndex) (dirIndex : ℕ) (rest : List Bytes) :
    readNames [] (headerSlots tree map dirIndex ++ rest) = readNames [] rest := by
  have hsk : ∀ slot ∈ headerSlots tree map dirIndex,
      slot.getD 11 0 ≠ attrLfn ∧ readSlot slot = none := by
    intro slot hs
    refine ⟨?_, (readSlot_of_mem_headerSlots hs).2⟩
    rw [headerSlots] at hs
    split_ifs at hs
    · rw [mem_singleton.1 hs]
      decide
    · rcases mem_pair.1 hs with rfl | rfl <;> rw [getD_entry_attr] <;> decide
  generalize headerSlots tree map dirIndex = header at hsk
  induction header with
  | nil => rfl
  | cons slot header ih =>
    obtain ⟨⟨ha, hn⟩, hsk⟩ := forall_mem_cons.1 hsk
    rw [cons_append, readNames, if_neg ha, hn]
    exact ih hsk

/-- **Reading the names** of a directory. -/
theorem readNames_buildData {tree : DirIndex} {dirIndex : ℕ}
    (hv : ∀ short ∈ aliases.getD dirIndex [], short.Visible) :
    readNames [] (slots (buildData toUppercase files tree map aliases dirIndex)) =
      ((tree.entries files dirIndex).zip (aliases.getD dirIndex [])).map
        (foundOf toUppercase files map) := by
  have hs : slots (buildData toUppercase files tree map aliases dirIndex) =
      dirSlots toUppercase files tree map aliases dirIndex := by
    have hc := chunks_flatten (fun slot => @length_of_mem_dirSlots toUppercase files tree map
      aliases dirIndex slot) []
    rwa [append_nil, ← Nat.mul_div_cancel (length _) (show 0 < 32 by decide),
      ← length_flatten_of_length fun slot => length_of_mem_dirSlots] at hc
  rw [hs, dirSlots, readNames_headerSlots]
  have hm : ∀ item ∈ (tree.entries files dirIndex).zip (aliases.getD dirIndex []),
      item.2.Visible := fun item hit => hv _ (of_mem_zip hit).2
  generalize (tree.entries files dirIndex).zip (aliases.getD dirIndex []) = items at hm
  induction items with
  | nil => rfl
  | cons item items ih =>
    obtain ⟨hit, hi⟩ := forall_mem_cons.1 hm
    rw [flatMap_cons, readNames_entrySlots hit (kindFields_attr _), ih hi]
    rfl

/-- Names as a directory has them. -/
structure Proper (toUppercase : Char → List Char) (names : List String) : Prop where
  nonempty : ∀ name ∈ names, name ≠ ""
  distinct : (names.map fun name => name.toList.flatMap toUppercase).Nodup
  slash : ∀ name ∈ names, '/' ∉ name.toList
  last : ∀ name ∈ names, name.toList.getLast? ≠ some '.' ∧ name.toList.getLast? ≠ some ' '

theorem Planned.survive_iff {imageSize : ℕ} {P : Precomputed}
    (h : Planned toUppercase files imageSize aliases P) {dirIndex : ℕ} (hlt : dirIndex < P.tree.len)
    (hn : ∀ entry ∈ P.tree.entries files dirIndex, entry.1 ≠ "") :
    Survive ((P.tree.entries files dirIndex).map Prod.fst)
        (readNames [] (slots (P.dirData.getD dirIndex []))) ↔
      NamesFit toUppercase [] ((P.tree.entries files dirIndex).map Prod.fst) := by
  have hv := (assignAliases_spec h.names hlt).2
  obtain ⟨hi, hnd, -, hb⟩ := @decodes_foundOf_iff toUppercase [] files P.clusterMap _ _
    hn (assignNames_of_assignAliases h.names hlt)
  rw [h.getD_dirData hlt, readNames_buildData hv, ← hi]
  refine ⟨Survive.decodes, fun hd => ⟨hd, ?_⟩⟩
  rw [hb]
  exact hnd.map fun left right heq => by cases left; cases right; cases heq; rfl

end

/-- **The names of a directory survive** exactly if each has, when its turn comes, a plain 8.3 form
that differs from it in letters of ASCII only, or no more than 40 fragments. -/
theorem names_survive_iff (toUppercase : Char → List Char) (files : List FileMeta) (imageSize : ℕ)
    (P : Precomputed) (hP : precompute toUppercase files imageSize = some (.ok P)) (dirIndex : ℕ)
    (hlt : dirIndex < P.tree.len)
    (hproper : Proper toUppercase ((P.tree.entries files dirIndex).map Prod.fst)) :
    Survive ((P.tree.entries files dirIndex).map Prod.fst)
        (readNames [] (slots (P.dirData.getD dirIndex []))) ↔
      NamesFit toUppercase [] ((P.tree.entries files dirIndex).map Prod.fst) := by
  obtain ⟨aliases, h⟩ := exists_planned_of_precompute hP
  exact h.survive_iff hlt fun entry he => hproper.nonempty _ (mem_map_of_mem he)

theorem exists_precompute_of_plan {files : List FileMeta}
    (h : (plan toUppercase files minImageSize).map (fun found => found.1) =
      .ok ⟨66581, 8, 524, 1, 65525⟩) :
    ∃ P, precompute toUppercase files minImageSize = some (.ok P) := by
  obtain ⟨⟨layout, aliases, map⟩, hp, rfl⟩ := map_eq_ok_iff.1 h
  rw [precompute, hp]
  exact ⟨_, rfl⟩

/-- One file with a plain name, and two with long names that begin alike. -/
def longNames : List FileMeta := [⟨"a", 1⟩, ⟨"readme.text", 1⟩, ⟨"readme.texts", 1⟩]

theorem names_survive_long : ∃ P, precompute asciiUppercase longNames minImageSize =
    some (.ok P) ∧ Survive ["a", "readme.text", "readme.texts"]
      (readNames [] (slots (P.dirData.getD 0 []))) := by
  obtain ⟨P, hP⟩ := @exists_precompute_of_plan asciiUppercase longNames (by decide +kernel)
  obtain ⟨aliases, h⟩ := exists_planned_of_precompute hP
  have he : (P.tree.entries longNames 0).map Prod.fst = ["a", "readme.text", "readme.texts"] := by
    rw [h.tree]
    decide +kernel
  have hlt : 0 < P.tree.len := h.tree ▸ DirIndex.len_pos _
  have hi := names_survive_iff asciiUppercase longNames minImageSize P hP 0 hlt
  rw [he] at hi
  have hf : identity asciiUppercase "readme.text" = none := by decide +kernel
  have hs : identity asciiUppercase "readme.texts" = none := by decide +kernel
  refine ⟨P, hP, (hi ⟨by decide, by decide, by decide, by decide⟩).2
    ⟨by decide +kernel, fun _ _ => ⟨?_, fun _ _ => ⟨?_, fun _ _ => trivial⟩⟩⟩⟩
  · rw [hf, Option.filter_none, if_neg (by decide)]
    decide +kernel
  · rw [hs, Option.filter_none, if_neg (by decide)]
    decide +kernel

/-! ## A sharp s -/

/-- `char::to_uppercase` of the letters of ASCII and of a sharp s. -/
def sharpUppercase (c : Char) : List Char := if c = 'ß' then ['S', 'S'] else [c.toUpper]

/-- **A sharp s** is read back as two letters. -/
theorem sharp_s_is_lost : ∃ P, precompute sharpUppercase [⟨"ß", 1⟩] minImageSize = some (.ok P) ∧
    (P.tree.entries [⟨"ß", 1⟩] 0).map Prod.fst = ["ß"] ∧
    ¬Survive ["ß"] (readNames [] (slots (P.dirData.getD 0 []))) := by
  obtain ⟨P, hP⟩ := @exists_precompute_of_plan sharpUppercase [⟨"ß", 1⟩] (by decide +kernel)
  obtain ⟨aliases, h⟩ := exists_planned_of_precompute hP
  have he : (P.tree.entries [⟨"ß", 1⟩] 0).map Prod.fst = ["ß"] := by
    rw [h.tree]
    decide +kernel
  have hlt : 0 < P.tree.len := h.tree ▸ DirIndex.len_pos _
  have hn : ∀ entry ∈ P.tree.entries [⟨"ß", 1⟩] 0, entry.1 ≠ "" := by
    intro entry hen
    have hm := mem_map_of_mem hen (f := Prod.fst)
    rw [he, mem_singleton] at hm
    rw [hm]
    decide
  have hi := h.survive_iff hlt hn
  rw [he] at hi
  refine ⟨P, hP, he, fun hs => absurd (hi.1 hs).1 ?_⟩
  decide +kernel

end Muak.Fatfs
