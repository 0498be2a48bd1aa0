import Muak.Erofs.PackRefinement

/-!
# The compact index of a compressed file

The index that `write_metadata` writes is compared with the reading rule of the format.

* `Written`: how far the index has been written, and that what was written is read as it is to be.
  One pack keeps it (`Written.pack`), so does a run of packs (`Written.packs`) and the whole index
  (`Written.indexes`).
* `locate_eq`: the reader looks where the writer writes.
* `write_metadata_iff`: exactly when every byte of the file is found in its own cluster.

The buffer has room for the index as the planner sizes it (`index_bytes`), and its length is a
`usize`.
-/

namespace Muak.Erofs

open Muak.Bytes Muak.BitField List Option Nat

variable {pclusters : List Pcluster} {b header k lcn : ℕ} {buf written : Bytes}
  {state : CompactWriteState} {kind : PackKind}

/-! ## What is read of what is written -/

/-- The index of a logical cluster is the one that is to be read. -/
structure Loads (pclusters : List Pcluster) (b lcn : ℕ) (lcluster : Option Lcluster) : Prop where
  head : ∀ i, Owner pclusters lcn i 0 →
    lcluster = some (.head true (start pclusters i % pclusterSize) (b + i))
  nonhead : ∀ i d, 0 < d → Owner pclusters lcn i d →
    ∃ delta0, lcluster = some (.nonhead delta0) ∧ 0 < delta0 ∧ delta0 ≤ d
  tail : lcn = headLcn pclusters pclusters.length →
    start pclusters pclusters.length % pclusterSize ≠ 0 →
    ∃ compressed blkaddr, lcluster =
      some (.head compressed (start pclusters pclusters.length % pclusterSize) blkaddr)

theorem HoldsPack.loads {p m : ℕ} {bytes : Bytes} (h : HoldsPack pclusters b p kind bytes)
    (hrep : Representable pclusters) (hfit : b + pclusters.length ≤ 2 ^ 32) (hm : m < kind.count) :
    Loads pclusters b (p + m) (lclusterAt true kind bytes m) where
  head _ ho := h.lclusterAt_head hrep hfit hm ho
  nonhead _ _ hd ho := h.lclusterAt_nonhead hm ho hd
  tail he ht := h.lclusterAt_tail hm he ht

theorem Loads.mono {lcluster lcluster' : Option Lcluster} (h : Loads pclusters b lcn lcluster)
    (hm : ∀ value, lcluster = some value → lcluster' = some value) :
    Loads pclusters b lcn lcluster' where
  head i ho := hm _ (h.head i ho)
  nonhead i d hd ho := by
    obtain ⟨delta0, hl, hdelta0⟩ := h.nonhead i d hd ho
    exact ⟨delta0, hm _ hl, hdelta0⟩
  tail he ht := by
    obtain ⟨compressed, blkaddr, hl⟩ := h.tail he ht
    exact ⟨compressed, blkaddr, hm _ hl⟩

theorem loadLcluster_eq {size offset m : ℕ} {advise : Bytes}
    (ha : slice buf (header + 4) 2 = some advise)
    (hl : locate ((ofLe advise).testBit 0) ((size + 4095) / 4096)
      (header + zErofsMapHeaderSize) lcn = (kind, offset, m)) :
    loadLcluster buf header size lcn =
      (slice buf (header + zErofsMapHeaderSize + offset) kind.bytes).bind
        (lclusterAt ((ofLe advise).testBit 1) kind · m) := by
  simp only [loadLcluster, ha, bind_eq_bind, bind_some, hl]

/-- More bytes behind those that were read do not matter. -/
theorem loadLcluster_of_isPrefix {size : ℕ} (hb : written <+: buf) (value : Lcluster)
    (h : loadLcluster written header size lcn = some value) :
    loadLcluster buf header size lcn = some value := by
  obtain ⟨advise, ha, -⟩ := bind_eq_some_iff.1 h
  obtain ⟨⟨kind, offset, m⟩, hl⟩ : ∃ place, locate ((ofLe advise).testBit 0)
    ((size + 4095) / 4096) (header + zErofsMapHeaderSize) lcn = place := ⟨_, rfl⟩
  rw [loadLcluster_eq ha hl] at h
  obtain ⟨pack, hp, h⟩ := bind_eq_some_iff.1 h
  rw [loadLcluster_eq (slice_of_isPrefix hb ha) hl, slice_of_isPrefix hb hp]
  exact h

theorem HasEntries.isEntry {entries : List LegacyIndexEntry} {entry : LegacyIndexEntry}
    (h : HasEntries pclusters b entries) (he : entries[k]? = some entry) :
    IsEntry pclusters b k entry where
  owned i d ho := by
    have := h.entry i ho.lt d ho.lt_lclusters
    rw [← ho.eq, he] at this
    exact some.inj this
  tail hen ht := by
    rw [hen, h.tail ht] at he
    rw [← some.inj he]
    rfl
  plain hen := by
    have hlt := (List.getElem?_eq_some_iff.1 he).1
    have hlen := h.length_eq
    -- the only entry behind the clusters is the last one
    have ht : start pclusters pclusters.length % pclusterSize ≠ 0 ∧
        k = headLcn pclusters pclusters.length := by
      simp only [headLcn, pclusterSize_eq] at *
      omega
    rw [ht.2, h.tail ht.1] at he
    rw [← some.inj he]
    rfl

/-- The bytes with the indexes of the logical clusters before `k`, and the state of the writer
behind them. -/
structure Written (pclusters : List Pcluster) (b header k : ℕ) (written : Bytes)
    (state : CompactWriteState) : Prop where
  length_eq : written.length = state.outOff
  advise : slice written (header + 4) 2 = some (leBytes 2 hAdvise)
  reached : ∀ i d, Owner pclusters k i d → Reached b i d state.beginPack
  loads : ∀ lcn < k, lcn < (start pclusters pclusters.length + 4095) / 4096 → Loads pclusters b lcn
      (loadLcluster written header (start pclusters pclusters.length) lcn)

/-- **The reader looks where the writer writes**: the regions of `index_layout` are packs of two,
packs of sixteen and packs of two. -/
theorem locate_eq {total ebase c4i c2b c4e : ℕ} (ha : ebase % 8 = 0)
    (hl : indexLayout total ebase = (c4i, c2b, c4e)) :
    c4i % 2 = 0 ∧ c2b % 16 = 0 ∧ c4i + c2b + c4e = total ∧
    (∀ lcn < c4i, locate true total ebase lcn = (.two, lcn / 2 * 8, lcn % 2)) ∧
    (∀ lcn < c2b, locate true total ebase (c4i + lcn) =
      (.sixteen, c4i / 2 * 8 + lcn / 16 * 32, lcn % 16)) ∧
    ∀ lcn < c4e, locate true total ebase (c4i + c2b + lcn) =
      (.two, c4i / 2 * 8 + c2b / 16 * 32 + lcn / 2 * 8, lcn % 2) := by
  rw [indexLayout] at hl
  obtain ⟨initial, hi⟩ : ∃ initial, (32 - ebase % 32) / 4 % 8 = initial := ⟨_, rfl⟩
  have he : initial % 2 = 0 := by omega
  simp only [locate, hi, true_and] at hl ⊢
  split_ifs at hl with hs
  · simp only [Prod.mk.injEq] at hl
    obtain ⟨rfl, rfl, rfl⟩ := hl
    rw [if_pos hs]
    refine ⟨he, by omega, by omega, fun lcn hlc => ?_, fun lcn hlc => ?_, fun lcn hlc => ?_⟩
    · rw [if_pos hlc]
    · rw [if_neg (by omega), if_pos (by omega), Nat.add_sub_cancel_left]
    · rw [if_neg (by omega), if_neg (by omega), Nat.mul_div_cancel _ (by decide),
        show initial + (total - initial) / 16 * 16 + lcn - initial - (total - initial) / 16 * 16 =
          lcn by omega]
  · -- fewer entries than fit before the first multiple of 32 bytes
    obtain ⟨rfl, rfl, rfl⟩ := hl
    refine ⟨rfl, rfl, by omega, fun lcn hlc => by omega, fun lcn hlc => by omega,
      fun lcn hlc => ?_⟩
    rw [if_pos (by omega)]
    simp

section

variable (hrep : Representable pclusters) (hfit : b + pclusters.length ≤ 2 ^ 32)

include hrep hfit

/-- **One pack**: the logical clusters in it are read as they are to be. -/
theorem Written.pack (h : Written pclusters b header k written state) {kind : PackKind}
    {pack : List LegacyIndexEntry} (hp : pack.length = kind.count)
    (he : ∀ m (hm : m < pack.length), IsEntry pclusters b (k + m) pack[m]) {offset : ℕ}
    (ho : state.outOff = header + zErofsMapHeaderSize + offset)
    (hl : ∀ m < kind.count, k + m < (start pclusters pclusters.length + 4095) / 4096 →
      locate true ((start pclusters pclusters.length + 4095) / 4096)
        (header + zErofsMapHeaderSize) (k + m) = (kind, offset, m))
    (hbf : buf.length < 2 ^ 64) (hbg : written <+: buf)
    (hrm : state.outOff + kind.bytes ≤ buf.length) :
    ∃ bytes buf' state', writePack buf state pack kind.destsize true = .ok (buf', state') ∧
      written ++ bytes <+: buf' ∧ buf'.length = buf.length ∧
      state'.outOff = state.outOff + kind.bytes ∧
      Written pclusters b header (k + kind.count) (written ++ bytes) state' := by
  obtain ⟨⟨fields, state'⟩, hsc⟩ :
    ∃ scanned, scan kind.count 0 state.beginPack pack = scanned := ⟨_, rfl⟩
  obtain ⟨hfl, hrt, hr⟩ := scan_pack hrep hp he h.reached hsc
  obtain ⟨bytes, hw, hlen, hbs, hbt⟩ := writePack_eq hsc hp hbf hrm
  have hf : fields.length = kind.count := by
    have := length_scan kind.count 0 state.beginPack pack
    rwa [hsc, hp] at this
  have hh := holdsPack_of_fields hf hfl hrt hbs hbt
  refine ⟨bytes, _, _, hw,
    append_isPrefix_put hbg h.length_eq (by rw [hlen]; exact hrm), length_put _ _ _, rfl,
    ?_, ?_, ?_, ?_⟩
  · rw [length_append, h.length_eq, hlen]
  · exact slice_of_isPrefix (prefix_append _ _) h.advise
  · exact hr
  · intro lcn hlc ht
    obtain hb | hfr := lt_or_ge lcn k
    · exact (h.loads lcn hb ht).mono (loadLcluster_of_isPrefix (prefix_append _ _))
    · obtain ⟨m, rfl⟩ := Nat.exists_eq_add_of_le hfr
      have hm : m < kind.count := by omega
      have hs : slice (written ++ bytes) (header + zErofsMapHeaderSize + offset) kind.bytes =
          some bytes := by
        have := @slice_append bytes written [] _ _ (h.length_eq.trans ho) hlen
        rwa [append_nil] at this
      have ha := slice_of_isPrefix (prefix_append written bytes) h.advise
      refine (hh.loads hrep hfit hm).mono fun value hv => ?_
      rw [loadLcluster_eq ha (hl m hm ht), hs]
      exact hv

/-- **A run of packs** of one kind. -/
theorem Written.packs {entries : List LegacyIndexEntry}
    (he : HasEntries pclusters b entries) {kind : PackKind} (message : String)
    (hbf : buf.length < 2 ^ 64) {packs offset : ℕ}
    (h : Written pclusters b header k written state) (hb : written <+: buf)
    (ho : state.outOff = header + zErofsMapHeaderSize + offset)
    (hen : k + packs * kind.count ≤ entries.length)
    (hl : ∀ lcn < packs * kind.count, locate true ((start pclusters pclusters.length + 4095) / 4096)
        (header + zErofsMapHeaderSize) (k + lcn) =
          (kind, offset + lcn / kind.count * kind.bytes, lcn % kind.count))
    (hr : state.outOff + packs * kind.bytes ≤ buf.length) :
    ∃ written' buf' state', writePacks (packAt kind.count message entries) kind.count kind.destsize
        packs k buf state = .ok (buf', state') ∧ written' <+: buf' ∧ buf'.length = buf.length ∧
      state'.outOff = state.outOff + packs * kind.bytes ∧
      Written pclusters b header (k + packs * kind.count) written' state' := by
  have hps : 0 < kind.count := zero_lt_of_lt kind.two_le_count
  induction packs generalizing k written buf state offset with
  | zero => exact ⟨written, buf, state, rfl, hb, rfl, by omega, by rwa [zero_mul]⟩
  | succ packs ih =>
    rw [succ_mul] at hen hr hl
    have hp : packAt kind.count message entries k =
        .ok ((entries.drop k).take kind.count) := if_pos (by omega)
    have hlen : ((entries.drop k).take kind.count).length = kind.count := by
      rw [length_take, length_drop]
      omega
    obtain ⟨bytes, buf₁, state₁, hwri, hb₁, hlen₁, ho₁, hw⟩ :=
      h.pack hrep hfit hlen (fun m hm => he.isEntry (by
        rw [getElem_take, getElem_drop, getElem?_eq_getElem])) ho
        (fun m hm _ => by
          rw [hl m (by omega), div_eq_of_lt hm, mod_eq_of_lt hm, zero_mul,
            add_zero]) hbf hb (by omega)
    have hl₁ : ∀ lcn < packs * kind.count,
        locate true ((start pclusters pclusters.length + 4095) / 4096)
          (header + zErofsMapHeaderSize) (k + kind.count + lcn) =
            (kind, offset + kind.bytes + lcn / kind.count * kind.bytes, lcn % kind.count) :=
      fun lcn hlc => by
        rw [add_assoc, hl _ (by omega), add_div_left _ hps, add_mod_left, succ_mul,
          add_comm (_ * _), add_assoc]
    obtain ⟨written', buf', state', hwr, hb', hlen', ho', hw'⟩ :=
      ih (by omega) hw hb₁ (by omega) (by omega) hl₁ (by omega)
    refine ⟨written', buf', state', ?_, hb', hlen'.trans hlen₁, ?_, ?_⟩
    · rw [writePacks, hp, ok_bind, hwri]
      exact hwr
    · rw [succ_mul]
      omega
    · rw [succ_mul, add_comm (packs * _), ← add_assoc]
      exact hw'

/-- The last pack has one entry of the file when their number is odd. -/
theorem Written.lastPack (h : Written pclusters b header k written state)
    {entry : LegacyIndexEntry} (he : IsEntry pclusters b k entry)
    (ht : (start pclusters pclusters.length + 4095) / 4096 = k + 1) {offset : ℕ}
    (ho : state.outOff = header + zErofsMapHeaderSize + offset)
    (hl : locate true ((start pclusters pclusters.length + 4095) / 4096)
      (header + zErofsMapHeaderSize) k = (.two, offset, 0))
    (hbf : buf.length < 2 ^ 64) (hb : written <+: buf)
    (hr : state.outOff + 8 ≤ buf.length) :
    ∃ bytes buf' state', writePack buf state [entry, .zero] 4 true = .ok (buf', state') ∧
      written ++ bytes <+: buf' ∧ buf'.length = buf.length ∧
      state'.outOff = state.outOff + 8 ∧
      Written pclusters b header (k + 2) (written ++ bytes) state' := by
  have hen : headLcn pclusters pclusters.length ≤ k + 1 := by
    rw [headLcn, pclusterSize_eq]
    omega
  have hz : IsEntry pclusters b (k + 1) .zero := by
    refine ⟨fun i d hown => absurd hown.lt_end hen.not_gt, fun hls htl => ?_, fun _ => rfl⟩
    simp only [headLcn, pclusterSize_eq] at hls htl
    omega
  have hp : [entry, LegacyIndexEntry.zero].length = PackKind.two.count := rfl
  refine h.pack hrep hfit hp (fun m hm => ?_) ho (fun m hm hlt => ?_) hbf hb hr
  · obtain rfl | rfl : m = 0 ∨ m = 1 := le_one_iff_eq_zero_or_eq_one.1 (le_of_lt_succ hm)
    · exact he
    · exact hz
  · obtain rfl : m = 0 := by omega
    exact hl

/-- **The whole index**: every logical cluster is read as it is to be. -/
theorem Written.indexes {entries : List LegacyIndexEntry}
    (he : HasEntries pclusters b entries) (hbf : buf.length < 2 ^ 64)
    (h : Written pclusters b header 0 written state) (hb : written <+: buf)
    (ha : header % 8 = 0) (ho : state.outOff = header + zErofsMapHeaderSize)
    {total c4i c2b c4e : ℕ} (htt : (start pclusters pclusters.length + 4095) / 4096 = total)
    (hl : indexLayout total (header + zErofsMapHeaderSize) = (c4i, c2b, c4e))
    (hr : header + zErofsMapHeaderSize + indexBytes total (header + zErofsMapHeaderSize) ≤
      buf.length) :
    ∃ buf', writeIndexes buf entries state c4i c2b c4e = .ok buf' ∧
      ∀ lcn < total, Loads pclusters b lcn
        (loadLcluster buf' header (start pclusters pclusters.length) lcn) := by
  have hlen := he.length_eq
  rw [indexBytes, hl] at hr
  simp only at hr
  obtain ⟨hev, hsx, hsm, hf, hs, ht⟩ := locate_eq (by rw [zErofsMapHeaderSize]; omega) hl
  rw [← htt] at hf hs ht
  -- numbers of packs, and of entries in them
  have hc4i : (c4i + 1) / 2 * 2 = c4i := by omega
  have hc4iHalf : (c4i + 1) / 2 = c4i / 2 := by omega
  have hc2b : c2b / 16 * 16 = c2b := by omega
  have hc4e : c4e / 2 * 2 ≤ c4e := div_mul_le_self c4e 2
  have hls : c4i + c2b + c4e / 2 * 2 = total - c4e % 2 := by omega
  obtain ⟨written₁, buf₁, state₁, hw₁, hb₁, hlen₁, ho₁, h₁⟩ :=
    @Written.packs pclusters b header 0 buf written state hrep hfit entries he .two
      "missing compact index entry" hbf ((c4i + 1) / 2) 0 h hb ho
      (by rw [PackKind.count, hc4i]; omega)
      (fun lcn hlc => by
        rw [zero_add, hf lcn (by rwa [PackKind.count, hc4i] at hlc), zero_add]
        rfl)
      (by rw [PackKind.bytes]; omega)
  rw [PackKind.count, hc4i, zero_add] at h₁
  rw [PackKind.bytes, hc4iHalf, ho] at ho₁
  obtain ⟨written₂, buf₂, state₂, hw₂, hb₂, hlen₂, ho₂, h₂⟩ :=
    @Written.packs pclusters b header c4i buf₁ written₁ state₁ hrep hfit entries he .sixteen
      "missing 16-entry compact index pack" (by omega) (c2b / 16) (c4i / 2 * 8) h₁ hb₁ ho₁
      (by rw [PackKind.count, hc2b]; omega)
      (fun lcn hlc => hs lcn (by rwa [PackKind.count, hc2b] at hlc))
      (by rw [PackKind.bytes]; omega)
  rw [PackKind.count, hc2b] at h₂
  rw [PackKind.bytes, ho₁, add_assoc] at ho₂
  obtain ⟨written₃, buf₃, state₃, hw₃, hb₃, hlen₃, ho₃, h₃⟩ :=
    @Written.packs pclusters b header (c4i + c2b) buf₂ written₂ state₂ hrep hfit entries he
      .two "missing compact index entry" (by omega) (c4e / 2) (c4i / 2 * 8 + c2b / 16 * 32) h₂
      hb₂ ho₂ (by rw [PackKind.count]; omega)
      (fun lcn hlc => ht lcn (hlc.trans_le hc4e))
      (by rw [PackKind.bytes]; omega)
  rw [PackKind.count, hls] at h₃
  rw [PackKind.bytes, ho₂, add_assoc] at ho₃
  simp only [PackKind.count, PackKind.destsize] at hw₁ hw₂ hw₃
  rw [writeIndexes, twoEntryPack, sixteenEntryPack, hw₁]
  simp only [ok_bind, hc4i, hc2b, hw₂, hw₃, hls]
  split_ifs with hod
  · rw [hod] at h₃ ⊢
    have hlt : total - 1 < entries.length := by omega
    obtain ⟨bytes, buf₄, state₄, hw₄, hb₄, -, -, h₄⟩ :=
      h₃.lastPack hrep hfit (he.isEntry (getElem?_eq_getElem hlt)) (htt.trans (by omega)) ho₃ (by
          rw [show total - 1 = c4i + c2b + c4e / 2 * 2 by omega, ht _ (by omega),
            Nat.mul_div_cancel _ Nat.two_pos, Nat.mul_mod_left]) (by omega) hb₃ (by omega)
    refine ⟨buf₄, ?_, fun lcn hlc => ?_⟩
    · rw [getElem?_eq_getElem hlt, okOr_some, ok_bind, hw₄]
      rfl
    · exact (h₄.loads lcn (by omega) (by omega)).mono (loadLcluster_of_isPrefix hb₄)
  · refine ⟨buf₃, rfl, fun lcn hlc => ?_⟩
    exact (h₃.loads lcn (by omega) (by omega)).mono (loadLcluster_of_isPrefix hb₃)

end

/-! ## The metadata of an inode -/

theorem writeBytes_eq {offset : ℕ} {value : Bytes} (hb : buf.length < 2 ^ 64)
    (hr : offset + value.length ≤ buf.length) :
    writeBytes buf offset value = some (put buf offset value) := by
  rw [writeBytes, add, if_pos (hr.trans_lt hb), bind_eq_bind, bind_some, if_pos hr]

theorem writeMapHeader_eq (hbuf : buf.length < 2 ^ 64) (hroom : header + 8 ≤ buf.length) :
    ∃ buf', writeMapHeader buf header = .ok buf' ∧ buf'.length = buf.length ∧
      slice buf' (header + 4) 2 = some (leBytes 2 hAdvise) := by
  refine ⟨put (put (put (put buf header (leBytes 4 0)) (header + 4) (leBytes 2 hAdvise))
    (header + 6) [zErofsCompressionZstd]) (header + 7) [0], ?_, ?_, ?_⟩
  · rw [writeMapHeader, writeBytes_eq hbuf (by rw [length_leBytes]; omega)]
    simp only [bind_eq_bind, bind_some]
    rw [writeBytes_eq (by simpa using hbuf) (by simp only [length_put, length_leBytes]; omega)]
    simp only [bind_some]
    rw [writeBytes_eq (by simpa using hbuf) (by simp only [length_put, length_singleton]; omega)]
    simp only [bind_some]
    rw [writeBytes_eq (by simpa using hbuf) (by simp only [length_put]; omega)]
    rfl
  · simp
  · rw [slice_put_of_disjoint (.inr (by omega)), slice_put_of_disjoint (.inr (by omega))]
    exact slice_put (by simp only [length_put, length_leBytes]; omega) (length_leBytes _ _)

section

variable {layout : CompressedLayout} {xattrPayload : Bytes} {slotOffset : ℕ}
  {load : ℕ → Option Lcluster}

/-- Before the entries, the metadata need room for the map header. -/
theorem writeMetadata_eq (haccepted : hasRepresentableCompactIndexes layout)
    (hbuf : buf.length < 2 ^ 64) (hheader : mapHeaderOff slotOffset xattrPayload.length = header)
    (hroom : header + zErofsMapHeaderSize ≤ buf.length) :
    ∃ buf', buf'.length = buf.length ∧ slice buf' (header + 4) 2 = some (leBytes 2 hAdvise) ∧
      writeMetadata buf ⟨some layout, xattrPayload, b⟩ slotOffset = (do
        let entries ← buildLegacyIndexEntries layout b
        if entries.length ≠ lclusterCount layout then
          .error (.internal "compressed index entry count mismatch")
        else
          let state := ⟨header + zErofsMapHeaderSize, b, false, b, false⟩
          let (c4i, c2b, c4e) :=
            indexLayout (lclusterCount layout) (header + zErofsMapHeaderSize)
          writeIndexes buf' entries state c4i c2b c4e) := by
  rw [mapHeaderOff] at hheader
  obtain ⟨buf', hwrite, hlength, hadvise⟩ := writeMapHeader_eq hbuf hroom
  refine ⟨buf', hlength, hadvise, ?_⟩
  have hinode : slotOffset + compactInodeSize < 2 ^ 64 := by omega
  have hend : slotOffset + compactInodeSize + xattrPayload.length < 2 ^ 64 := by omega
  have halign : align8 (slotOffset + compactInodeSize + xattrPayload.length) = header := by
    rw [align8, add, if_pos (by omega)]
    exact hheader
  have hbase : header + zErofsMapHeaderSize < 2 ^ 64 := by omega
  rw [writeMetadata]
  simp only [okOr_some, ok_bind, add, if_pos hinode, if_pos hend, bind_some, halign, hwrite,
    if_pos hbase, haccepted, not_true_eq_false, if_false]

/-- A place in the file is in one cluster only. -/
theorem start_unique {i j offset : ℕ} (hi : start pclusters i ≤ offset)
    (hi' : offset < start pclusters (i + 1)) (hj : start pclusters j ≤ offset)
    (hj' : offset < start pclusters (j + 1)) : j = i := by
  have hle := (start_mono pclusters).reflect_lt (hj.trans_lt hi')
  have hge := (start_mono pclusters).reflect_lt (hi.trans_lt hj')
  omega

/-- Every byte of the file is found in the one cluster that contains it, with the place where that
cluster begins and its block. -/
def FindsAll (layout : CompressedLayout) (b : ℕ) (load : ℕ → Option Lcluster) : Prop :=
  ∀ offset < layout.originalSize, ∃ i < layout.pclusters.length,
    (start layout.pclusters i ≤ offset ∧ offset < start layout.pclusters (i + 1)) ∧
    (∀ j < layout.pclusters.length, start layout.pclusters j ≤ offset →
      offset < start layout.pclusters (j + 1) → j = i) ∧
    lookup load offset = some ⟨true, start layout.pclusters i, b + i⟩

theorem Indexed.findsAll (h : Indexed load layout.pclusters (b + ·))
    (hrep : Representable layout.pclusters)
    (ht : (layout.pclusters.map (·.inputLen)).sum = layout.originalSize) :
    FindsAll layout b load := by
  intro offset ho
  rw [← ht, ← start_length] at ho
  obtain ⟨i, hi, hf, hto⟩ := exists_le_lt_succ (zero_le _) ho
  exact ⟨i, hi, ⟨hf, hto⟩, fun j _ hj hj' => start_unique hf hto hj hj', h.lookup_eq hrep hi hf hto⟩

/-- The indexes that are read are those of the clusters. -/
theorem indexed_of_loads (hrep : Representable pclusters)
    (h : ∀ lcn < (start pclusters pclusters.length + 4095) / 4096,
      Loads pclusters b lcn (load lcn)) : Indexed load pclusters (b + ·) := by
  have he : headLcn pclusters pclusters.length ≤
      (start pclusters pclusters.length + 4095) / 4096 := by
    rw [headLcn, pclusterSize_eq]
    omega
  refine ⟨fun i hi => ?_, fun i hi d hd hlt => ?_, fun ht => ?_⟩
  · have ho := hrep.owner_head hi
    exact (h _ (ho.lt_end.trans_le he)).head i ho
  · have ho : Owner pclusters (headLcn pclusters i + d) i d := ⟨hi, rfl, hlt⟩
    exact (h _ (ho.lt_end.trans_le he)).nonhead i d hd ho
  · refine (h _ ?_).tail rfl ht
    simp only [headLcn, pclusterSize_eq] at *
    omega

/-! ## Addresses that are read -/

theorem blkaddr_lt_of_headAddr {pack : Bytes} {m clusterofs : ℕ}
    {compressed compressed' : Bool} {clusterofs' blkaddr : ℕ}
    (h : (headAddr kind pack m).map (Lcluster.head compressed clusterofs) =
      some (.head compressed' clusterofs' blkaddr)) : blkaddr < 2 ^ 32 := by
  obtain ⟨addr, ha, hh⟩ := map_eq_some_iff.1 h
  obtain ⟨-, -, rfl⟩ := Lcluster.head.inj hh
  obtain ⟨base, -, hs⟩ := bind_eq_some_iff.1 ha
  rw [← some.inj hs]
  exact Nat.mod_lt _ (Nat.two_pow_pos 32)

theorem loadLcluster_blkaddr_lt {size clusterofs blkaddr : ℕ} {compressed : Bool}
    (h : loadLcluster buf header size lcn = some (.head compressed clusterofs blkaddr)) :
    blkaddr < 2 ^ 32 := by
  obtain ⟨advise, -, h⟩ := bind_eq_some_iff.1 h
  obtain ⟨pack, -, h⟩ := bind_eq_some_iff.1 h
  unfold lclusterAt at h
  split at h
  · exact blkaddr_lt_of_headAddr h
  · exact blkaddr_lt_of_headAddr h
  · split_ifs at h
    exact absurd (some.inj h) (by simp)
  · exact absurd (some.inj h) (by simp)

/-- What a lookup returns is the address of a head. -/
theorem lookup_blkaddr_lt {bound offset : ℕ} {extent : Extent}
    (hld : ∀ lcn compressed clusterofs blkaddr,
      load lcn = some (.head compressed clusterofs blkaddr) → blkaddr < bound)
    (h : lookup load offset = some extent) : extent.blkaddr < bound := by
  have hb : ∀ lcn delta, lookBack load lcn delta = some extent → extent.blkaddr < bound := by
    intro lcn
    induction lcn using Nat.strong_induction_on with
    | _ lcn ih =>
      intro delta hl
      rw [lookBack] at hl
      split_ifs at hl with hd
      split at hl
      · next hh =>
        rw [← some.inj hl]
        exact hld _ _ _ _ hh
      · exact ih _ (by omega) _ hl
      · simp at hl
  rw [lookup] at h
  split at h
  · next hh =>
    split_ifs at h
    · rw [← some.inj h]
      exact hld _ _ _ _ hh
    · exact hb _ _ h
  · exact hb _ _ h
  · simp at h

/-! ## The result -/

/-- Behind the header no index has been written yet. -/
theorem written_header (hrep : Representable pclusters) (hb : b < 2 ^ 32)
    (hroom : header + zErofsMapHeaderSize ≤ buf.length)
    (hadvise : slice buf (header + 4) 2 = some (leBytes 2 hAdvise)) :
    Written pclusters b header 0 (buf.take (header + zErofsMapHeaderSize))
      ⟨header + zErofsMapHeaderSize, b, false, b, false⟩ := by
  refine ⟨length_take_of_le hroom, slice_take hadvise (by rw [zErofsMapHeaderSize]; omega),
    fun i d hown => ?_, fun lcn hlcn => absurd hlcn (not_lt_zero lcn)⟩
  have hfirst := hrep.owner_head (zero_lt_of_lt hown.lt)
  rw [headLcn_zero] at hfirst
  obtain ⟨rfl, rfl⟩ := hown.unique hfirst
  exact (min_eq_left (le_sub_one_of_lt hb)).symm

/-- The index that is written, when it is. -/
theorem exists_writeMetadata
    (htotal : (layout.pclusters.map (·.inputLen)).sum = layout.originalSize)
    (haccepted : hasRepresentableCompactIndexes layout) (hb : b < 2 ^ 32)
    (hbuf : buf.length < 2 ^ 64)
    (hheader : mapHeaderOff slotOffset xattrPayload.length = header)
    (hroom : header + zErofsMapHeaderSize +
      indexBytes (lclusterCount layout) (header + zErofsMapHeaderSize) ≤ buf.length)
    (hshort : ∀ i < layout.pclusters.length, lclusters layout.pclusters i ≤ 2 ^ 16)
    (hfit : b + layout.pclusters.length ≤ 2 ^ 32) :
    ∃ buf', writeMetadata buf ⟨some layout, xattrPayload, b⟩ slotOffset = .ok buf' ∧
      FindsAll layout b (loadLcluster buf' header layout.originalSize) := by
  obtain ⟨hrep, hsize, hcount⟩ := representable_of_accepted htotal haccepted
  have hend : start layout.pclusters layout.pclusters.length = layout.originalSize :=
    (start_length _).trans htotal
  obtain ⟨buf₁, hlength, hadvise, hwrite⟩ :=
    @writeMetadata_eq b header buf layout xattrPayload slotOffset haccepted hbuf hheader (by omega)
  obtain ⟨entries, hbuild, hentries⟩ :=
    @buildLegacyIndexEntries_spec layout b hrep (by omega) hb hshort
  obtain ⟨⟨c4i, c2b, c4e⟩, hlayout⟩ : ∃ regions, indexLayout (lclusterCount layout)
    (header + zErofsMapHeaderSize) = regions := ⟨_, rfl⟩
  have hwritten := written_header hrep hb (by omega) hadvise
  obtain ⟨buf', hindexes, hloads⟩ := hwritten.indexes hrep hfit hentries (by omega)
    ⟨_, take_append_drop _ _⟩ (by rw [← hheader, mapHeaderOff]; omega) rfl
    ((congrArg (fun size => (size + 4095) / 4096) hend).trans hcount.symm) hlayout (by omega)
  refine ⟨buf', ?_, ?_⟩
  · rw [hwrite, hbuild, ok_bind, if_neg (not_not_intro ?_), hlayout]
    · exact hindexes
    · rw [hentries.length_eq, hend, hcount]
  · rw [hcount, hend] at hloads
    exact (indexed_of_loads hrep (by rwa [hend])).findsAll hrep htotal

end

/-- **The compact index.** For a layout that is accepted and a buffer with room for what the layout
is planned to take: the index is written, and every byte of the file is found in its own cluster,
exactly if no cluster has more than 65536 logical clusters and the last block has an address of 32
bits. -/
theorem write_metadata_iff (layout : CompressedLayout) (xattrPayload buf : Bytes)
    (slotOffset b : ℕ) (htotal : (layout.pclusters.map (·.inputLen)).sum = layout.originalSize)
    (haccepted : hasRepresentableCompactIndexes layout) (hb : b < 2 ^ 32)
    (hbuf : buf.length < 2 ^ 64)
    (hroom : mapHeaderOff slotOffset xattrPayload.length + zErofsMapHeaderSize +
      indexBytes (lclusterCount layout)
        (mapHeaderOff slotOffset xattrPayload.length + zErofsMapHeaderSize) ≤ buf.length) :
    (∃ buf', writeMetadata buf ⟨some layout, xattrPayload, b⟩ slotOffset = .ok buf' ∧
      FindsAll layout b (loadLcluster buf' (mapHeaderOff slotOffset xattrPayload.length)
        layout.originalSize)) ↔
    (∀ i < layout.pclusters.length, lclusters layout.pclusters i ≤ 65536) ∧
      b + layout.pclusters.length ≤ 2 ^ 32 := by
  obtain ⟨hrep, hsize, -⟩ := representable_of_accepted htotal haccepted
  have hend : start layout.pclusters layout.pclusters.length = layout.originalSize :=
    (start_length _).trans htotal
  constructor
  · rintro ⟨buf', hwrite, hfinds⟩
    refine ⟨fun i hi => ?_, ?_⟩
    · by_contra hlong
      obtain ⟨buf₁, -, -, heq⟩ := @writeMetadata_eq b _ buf layout xattrPayload slotOffset haccepted
        hbuf rfl (by omega)
      rw [heq, buildLegacyIndexEntries_error hrep (by omega) hb hi (not_le.1 hlong)] at hwrite
      exact absurd hwrite (by simp [bind, Except.bind])
    · by_contra hover
      -- the first byte of the last cluster
      obtain ⟨n, hn⟩ : ∃ n, layout.pclusters.length = n + 1 := exists_eq_succ_of_ne_zero (by omega)
      have hlast : start layout.pclusters n < start layout.pclusters (n + 1) := by
        have := hrep n (by omega)
        simp only [headLcn, pclusterSize_eq] at this
        omega
      obtain ⟨i, -, ⟨hfrom, hto⟩, -, hlookup⟩ :=
        hfinds (start layout.pclusters n) (by rw [← hend, hn]; exact hlast)
      obtain rfl := start_unique hfrom hto le_rfl hlast
      have := lookup_blkaddr_lt (fun _ _ _ _ => loadLcluster_blkaddr_lt) hlookup
      simp only at this
      omega
  · rintro ⟨hshort, hfit⟩
    exact exists_writeMetadata htotal haccepted hb hbuf rfl hroom hshort hfit

/-- Three clusters of one block each. -/
def threeBlocks : CompressedLayout := ⟨[⟨4096, 1⟩, ⟨4096, 1⟩, ⟨4096, 1⟩], 12288⟩

/-- An ordinary address. -/
theorem write_metadata_iff_three_blocks :
    ∃ buf', writeMetadata (zeros 56) ⟨some threeBlocks, [], 7⟩ 0 = .ok buf' ∧
      FindsAll threeBlocks 7 (loadLcluster buf' 32 12288) :=
  (write_metadata_iff threeBlocks [] (zeros 56) 0 7 (by decide) (by decide) (by decide) (by decide)
    (by decide)).2 ⟨by decide, by decide⟩

/-! ## Layouts that are accepted and not found -/

/-- One cluster of 65537 blocks. -/
def longCluster : CompressedLayout := ⟨[⟨65537 * 4096, 1⟩], 65537 * 4096⟩

theorem writeMetadata_longCluster (buf : Bytes) (hbuf : buf.length < 2 ^ 64)
    (hroom : 40 ≤ buf.length) : writeMetadata buf ⟨some longCluster, [], 0⟩ 0 =
      .error (.internal "delta1 does not fit u16") := by
  have haccepted : hasRepresentableCompactIndexes longCluster := by decide
  obtain ⟨hrep, -⟩ := representable_of_accepted (by decide) haccepted
  obtain ⟨buf', -, -, hwrite⟩ := @writeMetadata_eq 0 32 buf longCluster [] 0 haccepted hbuf
    (by decide) hroom
  have hlong : 2 ^ 16 < lclusters longCluster.pclusters 0 := by decide
  rw [hwrite, buildLegacyIndexEntries_error hrep (by decide) (by decide) (by decide) hlong]
  rfl

/-- A cluster that is too long is refused, and addresses that are too large are all read as the last
one. -/
theorem long_cluster_refused_and_address_saturated : (hasRepresentableCompactIndexes longCluster ∧
      writeMetadata (zeros (40 + indexBytes 65537 40)) ⟨some longCluster, [], 0⟩ 0 =
        .error (.internal "delta1 does not fit u16")) ∧
    hasRepresentableCompactIndexes threeBlocks ∧
    ∃ buf', writeMetadata (zeros 56) ⟨some threeBlocks, [], 2 ^ 32 - 1⟩ 0 = .ok buf' ∧
      lookup (loadLcluster buf' 32 12288) 8192 = some ⟨true, 8192, 2 ^ 32 - 1⟩ := by
  refine ⟨⟨by decide, writeMetadata_longCluster _ ?_ ?_⟩, by decide, zeros 36 ++
    [7, 0, 3, 0, 0, 16, 0, 16, 255, 255, 255, 255, 0, 16, 0, 0, 255, 255, 255, 255], ?_, ?_⟩
  · rw [length_zeros]
    decide
  · rw [length_zeros]
    exact le_add_right 40 _
  · rw [writeMetadata]
    decide +kernel
  · decide +kernel

end Muak.Erofs
