import Muak.Erofs.Extent

/-!
# A pack that is written is the pack that is read

The writer carries an address from pack to pack and puts it off whether a head is to be counted
(`dummy_head`); the reader counts from the address of the pack. Both are related to the place in the
layout: the logical cluster of an entry is the `d`-th one of the `i`-th cluster (`Owner`).

* `InPack.step`: what an entry does to the state of the writer, case by case over `d`.
* `scan_pack`: the fields of a pack, its address, and the state after it.
* `HoldsPack.accounted_eq`: what the reader counts before a head.
* `HoldsPack.lclusterAt_head`, `HoldsPack.lclusterAt_nonhead`: what the reader gets.
-/

namespace Muak.Erofs

open Muak.Bytes Muak.BitField List Nat

variable {pclusters : List Pcluster} {b k i d i' d' : ℕ}

/-! ## Logical clusters and their clusters -/

/-- The logical cluster `k` is the `d`-th one of the `i`-th cluster. -/
structure Owner (pclusters : List Pcluster) (k i d : ℕ) : Prop where
  lt : i < pclusters.length
  eq : k = headLcn pclusters i + d
  lt_lclusters : d < lclusters pclusters i

theorem Owner.bounds (h : Owner pclusters k i d) :
    headLcn pclusters i ≤ k ∧ k < headLcn pclusters (i + 1) := by
  have := h.eq
  have := h.lt_lclusters
  rw [lclusters] at this
  omega

theorem Owner.lt_end (h : Owner pclusters k i d) : k < headLcn pclusters pclusters.length :=
  h.bounds.2.trans_le (headLcn_mono pclusters h.lt)

theorem Owner.le_of_le {k' : ℕ} (h : Owner pclusters k i d) (h' : Owner pclusters k' i' d')
    (hle : k ≤ k') : i ≤ i' :=
  le_of_lt_succ ((headLcn_mono pclusters).reflect_lt ((h.bounds.1.trans hle).trans_lt h'.bounds.2))

theorem Owner.unique (h : Owner pclusters k i d) (h' : Owner pclusters k i' d') :
    i = i' ∧ d = d' := by
  obtain rfl : i = i' := le_antisymm (h.le_of_le h' le_rfl) (h'.le_of_le h le_rfl)
  have := h.eq
  have := h'.eq
  exact ⟨rfl, by omega⟩

theorem Representable.owner_head (hr : Representable pclusters) (hi : i < pclusters.length) :
    Owner pclusters (headLcn pclusters i) i 0 :=
  ⟨hi, rfl, Nat.sub_pos_of_lt (hr i hi)⟩

/-- Every logical cluster before the end has an owner. -/
theorem exists_owner (hk : k < headLcn pclusters pclusters.length) :
    ∃ i d, Owner pclusters k i d := by
  obtain ⟨i, hi, hf, hto⟩ :=
    exists_le_lt_succ ((headLcn_zero pclusters).trans_le (Nat.zero_le k)) hk
  exact ⟨i, k - headLcn pclusters i, hi, (Nat.add_sub_cancel' hf).symm, Nat.sub_lt_sub_right hf hto⟩

/-- The next logical cluster is of the same cluster, or the first one of the next cluster. -/
theorem Owner.succ (h : Owner pclusters k i d) (hr : Representable pclusters)
    (h' : Owner pclusters (k + 1) i' d') : i' = i ∧ d' = d + 1 ∨ i' = i + 1 ∧ d' = 0 := by
  obtain hlt | hge := lt_or_ge (d + 1) (lclusters pclusters i)
  · exact .inl (h'.unique ⟨h.lt, by rw [h.eq, add_assoc], hlt⟩)
  · have hk : k + 1 = headLcn pclusters (i + 1) := by
      have := h.bounds
      have := h.eq
      rw [lclusters] at hge
      omega
    have hne : i ≠ i' := by
      rintro rfl
      have := h'.bounds
      omega
    have hi : i + 1 < pclusters.length := by
      have := h.le_of_le h' (le_succ k)
      have := h'.lt
      omega
    rw [hk] at h'
    exact .inr (h'.unique (hr.owner_head hi))

/-! ## The state of the writer -/

/-- The first cluster that a pack accounts for when it begins in the `i`-th cluster. -/
def due (i d : ℕ) : ℕ := if d ≤ 1 then i else i + 1

/-- The state before the entry of the `d`-th logical cluster of the `i`-th cluster: whether the head
before it still has to be counted, and the address up to it. -/
def Reached (b i d : ℕ) (state : CompactWriteState) : Prop :=
  match d with
  | 0 => (if state.dummyHead then blockAddr (state.blkaddr + 1) else state.blkaddr) =
      blockAddr (b + i)
  | 1 => state.dummyHead = true ∧ state.blkaddr = blockAddr (b + i)
  | _ => state.dummyHead = false ∧ state.blkaddr = blockAddr (b + (i + 1))

/-- The entry for a place in a pack. Behind the file it is a plain one. -/
structure IsEntry (pclusters : List Pcluster) (b k : ℕ) (entry : LegacyIndexEntry) : Prop where
  owned : ∀ i d, Owner pclusters k i d → entry = entryAt (start pclusters i % pclusterSize)
    (blockAddr (b + i)) (lclusters pclusters i) d
  tail : k = headLcn pclusters pclusters.length →
    start pclusters pclusters.length % pclusterSize ≠ 0 →
    entry.clusterofs = start pclusters pclusters.length % pclusterSize
  plain : headLcn pclusters pclusters.length ≤ k → entry.clustertype = .plain

/-- The state before the `j`-th entry of a pack that begins at the logical cluster `p`. -/
structure InPack (pclusters : List Pcluster) (b p j : ℕ) (state : CompactWriteState) : Prop where
  reached : ∀ i d, Owner pclusters (p + j) i d → Reached b i d state
  fresh : j = 0 → state.updateBlkaddrInPack = true ∧ state.blkaddr = state.blkaddrRet
  settled : 0 < j → ∀ i d, Owner pclusters (p + j) i d → state.updateBlkaddrInPack = true →
    state.dummyHead = false
  base : 0 < j → ∀ i d, Owner pclusters p i d → state.blkaddrRet = blockAddr (b + due i d)

/-- What a pack holds at its `j`-th place of the entry of a `d`-th logical cluster. -/
def fieldAt (kind : PackKind) (j clusterofs lclusters d : ℕ) : ClusterType × ℕ :=
  match d with
  | 0 => (.head1, clusterofs)
  | 1 => (.nonhead, cblkcnt + 1)
  | d => (.nonhead, min (if j + 1 = kind.count then lclusters - d else d) (cblkcnt - 1))

/-- The field for a place in a pack. -/
structure IsField (pclusters : List Pcluster) (kind : PackKind) (k j : ℕ)
    (field : ClusterType × ℕ) : Prop where
  owned : ∀ i d, Owner pclusters k i d →
    field = fieldAt kind j (start pclusters i % pclusterSize) (lclusters pclusters i) d
  tail : k = headLcn pclusters pclusters.length →
    start pclusters pclusters.length % pclusterSize ≠ 0 →
    field = (.plain, start pclusters pclusters.length % pclusterSize)

section

variable {kind : PackKind} {j clusterofs blkaddr count p : ℕ} {state : CompactWriteState}

theorem entryOffset_blocks : entryOffset (entryAt clusterofs blkaddr count 1) j kind.count state =
      (cblkcnt + 1,
        { state with blkaddr := blockAddr (state.blkaddr + 1), dummyHead := false }) := by
  have ha : (cblkcnt ||| 1) &&& cblkcnt ≠ 0 := by decide
  have hor : cblkcnt ||| 1 = cblkcnt + 1 := by decide
  simp only [entryOffset, entryAt, LegacyIndexEntry.nonhead, nonheadOffset, if_pos ha]
  rw [hor, Nat.add_sub_cancel_left]

theorem entryOffset_back :
    entryOffset (entryAt clusterofs blkaddr count (d + 2)) j kind.count state =
      ((fieldAt kind j clusterofs count (d + 2)).2, state) := by
  have hlt : min (d + 2) (cblkcnt - 1) < 2 ^ 11 := (min_le_right _ _).trans_lt (by decide)
  have ha : min (d + 2) (cblkcnt - 1) &&& cblkcnt = 0 := by
    rw [show cblkcnt = 2 ^ 11 from rfl] at *
    rw [and_two_pow, testBit_lt_two_pow hlt, Bool.toNat_false, zero_mul]
  simp only [entryOffset, entryAt, LegacyIndexEntry.nonhead, nonheadOffset, ne_eq, fieldAt]
  split_ifs <;> rfl

/-- The state after the entry of a logical cluster. -/
def after (kind : PackKind) (j clusterofs blkaddr count d : ℕ) (state : CompactWriteState) :
    CompactWriteState :=
  (entryOffset (entryAt clusterofs blkaddr count d) j kind.count state).2

/-- After an entry the state is the one expected by the next entry, of the same cluster or of the
next one. -/
theorem Reached.step (h : Reached b i d state) :
    Reached b i (d + 1) (after kind j clusterofs blkaddr count d state) ∧
      Reached b (i + 1) 0 (after kind j clusterofs blkaddr count d state) := by
  match d with
  | 0 =>
    have hb : (after kind j clusterofs blkaddr count 0 state).blkaddr = blockAddr (b + i) := h
    have hd : (after kind j clusterofs blkaddr count 0 state).dummyHead = true := rfl
    refine ⟨⟨hd, hb⟩, ?_⟩
    rw [Reached, hb, if_pos hd, blockAddr_add, add_assoc]
  | 1 =>
    rw [after, entryOffset_blocks]
    have hb : blockAddr (state.blkaddr + 1) = blockAddr (b + (i + 1)) := by
      rw [h.2, blockAddr_add, add_assoc]
    exact ⟨⟨rfl, hb⟩, hb⟩
  | d + 2 =>
    rw [after, entryOffset_back]
    refine ⟨h, ?_⟩
    rw [Reached, h.1, h.2]
    rfl

/-- A head is counted at once, or left to the next entry. -/
theorem Reached.settled_step (h : Reached b i d state)
    (hu : (after kind j clusterofs blkaddr count d state).updateBlkaddrInPack = true) :
    (after kind j clusterofs blkaddr count d state).dummyHead = false := by
  match d with
  | 0 => exact absurd (show false = true from hu) (by decide)
  | 1 => rw [after, entryOffset_blocks]
  | d + 2 =>
    rw [after, entryOffset_back]
    exact h.1

/-- The first entry of a pack settles the address of the pack. -/
theorem Reached.blkaddrRet_first (h : Reached b i d state)
    (hu : state.updateBlkaddrInPack = true) (hr : state.blkaddr = state.blkaddrRet) :
    (after kind j clusterofs blkaddr count d state).blkaddrRet = blockAddr (b + due i d) := by
  match d with
  | 0 =>
    rw [Reached] at h
    simp only [after, entryOffset, headOffset, hu, and_true, ← hr]
    split_ifs at h ⊢ <;> exact h
  | 1 =>
    rw [after, entryOffset_blocks]
    exact hr.symm.trans h.2
  | d + 2 =>
    rw [after, entryOffset_back]
    exact hr.symm.trans h.2

theorem blkaddrRet_after (h : state.updateBlkaddrInPack = true → state.dummyHead = false) :
    (after kind j clusterofs blkaddr count d state).blkaddrRet = state.blkaddrRet := by
  match d with
  | 0 =>
    have hn : ¬(state.dummyHead = true ∧ state.updateBlkaddrInPack = true) :=
      fun ⟨hd, hu⟩ => by simp [h hu] at hd
    exact if_neg hn
  | 1 => rw [after, entryOffset_blocks]
  | d + 2 => rw [after, entryOffset_back]

/-- **What an entry does to the state**, and what the pack holds of it. -/
theorem InPack.step (h : InPack pclusters b p j state) (hrp : Representable pclusters)
    {entry : LegacyIndexEntry} (he : IsEntry pclusters b (p + j) entry) :
    IsField pclusters kind (p + j) j (entry.clustertype, (entryOffset entry j kind.count state).1) ∧
      InPack pclusters b p (j + 1) (entryOffset entry j kind.count state).2 := by
  by_cases hen : headLcn pclusters pclusters.length ≤ p + j
  · -- behind the clusters nothing changes any more
    have hof : entryOffset entry j kind.count state = (entry.clusterofs, state) := by
      rw [entryOffset, he.plain hen]
    have hn : ∀ m i d, ¬Owner pclusters (p + j + m) i d := fun m i d ho => by
      have := ho.lt_end
      omega
    rw [hof]
    refine ⟨⟨fun i d ho => absurd ho (hn 0 i d), fun hk hne => ?_⟩,
      fun i d ho => absurd ho (hn 1 i d), fun hj => absurd hj (succ_ne_zero j),
      fun _ i d ho => absurd ho (hn 1 i d), fun _ i d ho => ?_⟩
    · rw [he.plain hen, he.tail hk hne]
    · obtain rfl | hj := Nat.eq_zero_or_pos j
      · exact absurd ho (hn 0 i d)
      · exact h.base hj i d ho
  · obtain ⟨i, d, ho⟩ := exists_owner (not_le.1 hen)
    have hr := h.reached i d ho
    obtain rfl := he.owned i d ho
    have hnx := @Reached.step b i d kind j (start pclusters i % pclusterSize)
      (blockAddr (b + i)) (lclusters pclusters i) state hr
    refine ⟨⟨fun i' d' ho' => ?_, fun hk => absurd hk.ge hen⟩, fun i' d' ho' => ?_,
      fun hj => absurd hj (succ_ne_zero j), fun _ _ _ _ => hr.settled_step,
      fun _ i' d' ho' => ?_⟩
    · obtain ⟨rfl, rfl⟩ := ho.unique ho'
      match d with
      | 0 => rfl
      | 1 => rw [entryOffset_blocks]; rfl
      | d + 2 => rw [entryOffset_back]; rfl
    · obtain ⟨rfl, rfl⟩ | ⟨rfl, rfl⟩ := ho.succ hrp ho'
      · exact hnx.1
      · exact hnx.2
    · obtain rfl | hj := Nat.eq_zero_or_pos j
      · obtain ⟨rfl, rfl⟩ := ho.unique ho'
        obtain ⟨hu, hrt⟩ := h.fresh rfl
        exact hr.blkaddrRet_first hu hrt
      · exact (blkaddrRet_after (h.settled hj i d ho)).trans (h.base hj i' d' ho')

/-- The rule for what holds along the entries of a pack. -/
theorem scan_induction {P : ℕ → CompactWriteState → Prop} {Q : ℕ → ClusterType × ℕ → Prop}
    {pack : List LegacyIndexEntry} {valueCount index : ℕ}
    (hstep : ∀ m (hm : m < pack.length) state, P (index + m) state →
      Q (index + m) (pack[m].clustertype, (entryOffset pack[m] (index + m) valueCount state).1) ∧
      P (index + m + 1) (entryOffset pack[m] (index + m) valueCount state).2)
    (hs : P index state) :
    P (index + pack.length) (scan valueCount index state pack).2 ∧
    ∀ m (hm : m < (scan valueCount index state pack).1.length),
      Q (index + m) (scan valueCount index state pack).1[m] := by
  induction pack generalizing index state with
  | nil => exact ⟨hs, fun m hm => absurd hm (not_lt_zero m)⟩
  | cons entry entries ih =>
    obtain ⟨hf, hn⟩ := hstep 0 (succ_pos _) state hs
    have hrest := ih (fun m hm state' hst' => by
      have := hstep (m + 1) (succ_lt_succ hm) state'
        (by rw [← add_assoc, add_right_comm]; exact hst')
      rw [← add_assoc, add_right_comm] at this
      exact this) hn
    rw [length_cons, ← add_assoc, add_right_comm]
    refine ⟨hrest.1, fun m hm => ?_⟩
    cases m with
    | zero => exact hf
    | succ m =>
      rw [← add_assoc, add_right_comm]
      exact hrest.2 m (lt_of_succ_lt_succ hm)

/-- **A pack**: what it holds, its address, and the state that it leaves. -/
theorem scan_pack (hr : Representable pclusters) {pack : List LegacyIndexEntry}
    (hp : pack.length = kind.count)
    (he : ∀ m (hm : m < pack.length), IsEntry pclusters b (p + m) pack[m])
    (hs : ∀ i d, Owner pclusters p i d → Reached b i d state.beginPack)
    {fields : List (ClusterType × ℕ)} {state' : CompactWriteState}
    (hsc : scan kind.count 0 state.beginPack pack = (fields, state')) :
    (∀ m (hm : m < fields.length), IsField pclusters kind (p + m) m fields[m]) ∧
    (∀ i d, Owner pclusters p i d → state'.blkaddrRet = blockAddr (b + due i d)) ∧
    ∀ i d, Owner pclusters (p + kind.count) i d → Reached b i d state' := by
  have hps : 0 < kind.count := zero_lt_of_lt kind.two_le_count
  obtain ⟨hl, hf⟩ := @scan_induction state.beginPack
    (fun m => InPack pclusters b p m) (fun m => IsField pclusters kind (p + m) m) pack kind.count 0
    (fun m hm state hi => by
      rw [zero_add] at hi ⊢
      exact hi.step hr (he m hm))
    ⟨hs, fun _ => ⟨rfl, rfl⟩, fun h => absurd h (lt_irrefl 0),
      fun h => absurd h (lt_irrefl 0)⟩
  rw [hsc] at hl hf
  rw [zero_add, hp] at hl
  simp only [zero_add] at hf
  exact ⟨hf, hl.base hps, hl.reached⟩

end

/-! ## Reading a pack -/

section

variable {kind : PackKind} {bytes : Bytes} {p m : ℕ} {clustertype : ClusterType}

/-- What is read of a field. -/
def indexOf (field : ClusterType × ℕ) : Index :=
  match field.1 with
  | .plain => .plain field.2
  | .head1 => .head field.2
  | .nonhead => if cblkcnt ≤ field.2 then .blocks (field.2 - cblkcnt) else .back field.2

theorem testBit_encoded_low {offset k : ℕ} (hk : k < 12) :
    (encoded clustertype offset).testBit k = offset.testBit k := by
  rw [encoded, testBit_or, testBit_shiftLeft, decide_eq_false (by omega), Bool.false_and,
    Bool.false_or]

theorem testBit_encoded_high {offset : ℕ} (ho : offset < 2 ^ 12) (k : ℕ) :
    (encoded clustertype offset).testBit (12 + k) = clustertype.code.testBit k := by
  have hf : offset.testBit (12 + k) = false :=
    Nat.testBit_lt_two_pow (ho.trans_le (Nat.pow_le_pow_right (by decide) (by omega)))
  rw [encoded, Nat.testBit_or, Nat.testBit_shiftLeft, hf, decide_eq_true (by omega),
    Nat.add_sub_cancel_left, Bool.true_and, Bool.or_false]

theorem indexAt_eq {field : ClusterType × ℕ} (hf : field.2 < 2 ^ 12) (hb : ∀ k < kind.encodebits,
      bit bytes (m * kind.encodebits + k) = (encoded field.1 field.2).testBit k) :
    indexAt kind bytes m = indexOf field := by
  have hw : 14 ≤ kind.encodebits := by cases kind <;> decide
  have hlo : readBits bytes (m * kind.encodebits) 12 = field.2 := by
    rw [@readBits_eq_mod _ _ _ field.2 fun k hk => by
      rw [hb k (by omega), testBit_encoded_low hk], mod_eq_of_lt hf]
  have ht : readBits bytes (m * kind.encodebits + 12) 2 = field.1.code := by
    rw [@readBits_eq_mod _ _ _ field.1.code fun k hk => by
      rw [add_assoc, hb (12 + k) (by omega), testBit_encoded_high hf]]
    cases field.1 <;> rfl
  rw [indexAt, hlo, ht, indexOf]
  cases field.1 <;> rfl

variable (pclusters) in
/-- The indexes of a pack that begins at the logical cluster `p`. -/
structure HoldsPack (b p : ℕ) (kind : PackKind) (bytes : Bytes) : Prop where
  base : ∃ ret, slice bytes (kind.bytes - 4) 4 = some (leBytes 4 ret) ∧
    ∀ i d, Owner pclusters p i d → ret = blockAddr (b + due i d)
  owned : ∀ m < kind.count, ∀ i d, Owner pclusters (p + m) i d → indexAt kind bytes m =
    indexOf (fieldAt kind m (start pclusters i % pclusterSize) (lclusters pclusters i) d)
  tail : ∀ m < kind.count, p + m = headLcn pclusters pclusters.length →
    start pclusters pclusters.length % pclusterSize ≠ 0 → indexAt kind bytes m =
      .plain (start pclusters pclusters.length % pclusterSize)

theorem fieldAt_lt (m clusterofs count d : ℕ) (h : clusterofs < pclusterSize) :
    (fieldAt kind m clusterofs count d).2 < 2 ^ 12 := by
  match d with
  | 0 => exact h
  | 1 => exact (by decide : cblkcnt + 1 < 2 ^ 12)
  | d + 2 => exact (min_le_right _ _).trans_lt (by decide)

/-- The pack that was written is the one that is read. -/
theorem holdsPack_of_fields {fields : List (ClusterType × ℕ)} {ret : ℕ}
    (hlen : fields.length = kind.count)
    (hf : ∀ m (hm : m < fields.length), IsField pclusters kind (p + m) m fields[m])
    (hrt : ∀ i d, Owner pclusters p i d → ret = blockAddr (b + due i d))
    (hbs : slice bytes (kind.bytes - 4) 4 = some (leBytes 4 ret))
    (hb : ∀ m (hm : m < fields.length), ∀ k < kind.encodebits,
      bit bytes (m * kind.encodebits + k) = (encoded fields[m].1 fields[m].2).testBit k) :
    HoldsPack pclusters b p kind bytes := by
  have ho := start_mod_lt pclusters
  refine ⟨⟨ret, hbs, hrt⟩, fun m hm i d hown => ?_, fun m hm he ht => ?_⟩
  · have hfl := (hf m (hlen ▸ hm)).owned i d hown
    have hr := @indexAt_eq kind bytes m fields[m] (hfl ▸ fieldAt_lt _ _ _ _ (ho i))
      (hb m (hlen ▸ hm))
    rw [hr, hfl]
  · have hfl := (hf m (hlen ▸ hm)).tail he ht
    have hr := @indexAt_eq kind bytes m fields[m] (by rw [hfl]; exact ho _) (hb m (hlen ▸ hm))
    rw [hr, hfl]
    rfl

theorem indexOf_blocks (m clusterofs count : ℕ) :
    indexOf (fieldAt kind m clusterofs count 1) = .blocks 1 := by
  have hle : cblkcnt ≤ cblkcnt + 1 := le_succ _
  rw [fieldAt, indexOf]
  simp

theorem indexOf_back (m clusterofs count d : ℕ) :
    indexOf (fieldAt kind m clusterofs count (d + 2)) =
      .back (min (if m + 1 = kind.count then count - (d + 2) else d + 2) (cblkcnt - 1)) := by
  have hlt : ¬cblkcnt ≤ min (if m + 1 = kind.count then count - (d + 2) else d + 2) (cblkcnt - 1) :=
    not_le.2 ((min_le_right _ _).trans_lt (by decide))
  exact if_neg hlt

section

variable (h : HoldsPack pclusters b p kind bytes)

include h

/-- The first cluster to account for moves on by what an index accounts for. -/
theorem HoldsPack.accounts_add_due (hm : m < kind.count) (ho : Owner pclusters (p + m) i d)
    (hn : i' = i ∧ d' = d + 1 ∨ i' = i + 1 ∧ d' = 0) {next : Option Index}
    (hb : d' = 1 → next = some (.blocks 1)) (hh : d' = 0 → ∀ n, next ≠ some (.blocks n)) :
    (indexAt kind bytes m).accounts next + due i d = due i' d' := by
  rw [h.owned m hm i d ho]
  match d with
  | 0 =>
    obtain ⟨rfl, rfl⟩ | ⟨rfl, rfl⟩ := hn
    · rw [hb rfl]
      exact zero_add _
    · have ha : (Index.head (start pclusters i % pclusterSize)).accounts next = 1 := by
        match next with
        | some (.blocks n) => exact absurd rfl (hh rfl n)
        | some (.plain _) | some (.head _) | some (.back _) | none => rfl
      exact (congrArg (· + i) ha).trans (add_comm 1 i)
  | 1 =>
    rw [indexOf_blocks]
    obtain ⟨rfl, rfl⟩ | ⟨rfl, rfl⟩ := hn <;> exact add_comm 1 _
  | d + 2 =>
    rw [indexOf_back]
    obtain ⟨rfl, rfl⟩ | ⟨rfl, rfl⟩ := hn <;> exact zero_add _

/-- **What the earlier indexes of a pack account for**, before a head. -/
theorem HoldsPack.accounted_eq (hr : Representable pclusters) {j : ℕ} (hj : j < kind.count)
    (hh : Owner pclusters (p + j) i 0) {n : ℕ} (hm : m + n = j)
    (ho : Owner pclusters (p + m) i' d') :
    accounted ((range' m n).map (indexAt kind bytes)) + due i' d' = i := by
  induction n generalizing m i' d' with
  | zero =>
    obtain rfl : m = j := hm
    obtain ⟨rfl, rfl⟩ := ho.unique hh
    exact zero_add _
  | succ n ih =>
    have hlt := hh.lt_end
    obtain ⟨i₁, d₁, ho₁⟩ := @exists_owner pclusters (p + (m + 1)) (by omega)
    have hrest := ih (by omega) ho₁
    have hnx := ho.succ hr ho₁
    have hstep : (indexAt kind bytes m).accounts
        ((range' (m + 1) n).map (indexAt kind bytes)).head? + due i' d' = due i₁ d₁ := by
      refine h.accounts_add_due (by omega) ho hnx (fun hd => ?_) fun hd count => ?_
      · -- the head is not at ha yet, so the number of blocks is in this pack
        have hn : n ≠ 0 := by
          rintro rfl
          obtain rfl : m + 1 = j := hm
          exact absurd ((ho₁.unique hh).2.symm.trans hd) (by decide)
        obtain ⟨n, rfl⟩ := exists_eq_succ_of_ne_zero hn
        subst hd
        rw [range'_succ, map_cons, head?_cons, h.owned (m + 1) (by omega) _ _ ho₁, indexOf_blocks]
      · subst hd
        cases n with
        | zero => exact Option.some_ne_none _ ∘ Eq.symm
        | succ n =>
          rw [range'_succ, map_cons, h.owned (m + 1) (by omega) _ _ ho₁]
          exact fun heq => Index.noConfusion (Option.some.inj heq)
    rw [range'_succ, map_cons, accounted]
    omega

/-- **The head of a cluster is read with the address of the cluster.** -/
theorem HoldsPack.lclusterAt_head (hr : Representable pclusters)
    (hft : b + pclusters.length ≤ 2 ^ 32) (hm : m < kind.count)
    (ho : Owner pclusters (p + m) i 0) : lclusterAt true kind bytes m =
      some (.head true (start pclusters i % pclusterSize) (b + i)) := by
  have hi := ho.lt
  obtain ⟨i₀, d₀, hf⟩ := @exists_owner pclusters p (by have := ho.lt_end; omega)
  obtain ⟨ret, hs, hrt⟩ := h.base
  have ha := h.accounted_eq hr hm ho (zero_add m) hf
  have hb : ofLe (leBytes 4 ret) = b + due i₀ d₀ := by
    rw [hrt i₀ d₀ hf, blockAddr, min_eq_left (by omega)]
    exact ofLe_leBytes (by omega)
  have had : headAddr kind bytes m = some (b + i) := by
    rw [headAddr, hs, range_eq_range', Option.bind_eq_bind, Option.bind_some]
    congr 1
    omega
  rw [lclusterAt, h.owned m hm i 0 ho]
  simp [fieldAt, indexOf, had]

/-- The other logical clusters lead back, and not beyond the head. -/
theorem HoldsPack.lclusterAt_nonhead (hm : m < kind.count) (ho : Owner pclusters (p + m) i d)
    (hd : 0 < d) :
    ∃ delta0, lclusterAt true kind bytes m = some (.nonhead delta0) ∧ 0 < delta0 ∧ delta0 ≤ d := by
  have hc : cblkcnt = 2048 := rfl
  match d with
  | 1 =>
    refine ⟨1, ?_, one_pos, le_rfl⟩
    rw [lclusterAt, h.owned m hm i 1 ho]
    rfl
  | d + 2 =>
    rw [lclusterAt, h.owned m hm i (d + 2) ho, indexOf_back]
    refine ⟨_, rfl, ?_⟩
    rw [delta0At]
    split_ifs with hl hlt
    · omega
    · omega
    · -- the last index of a pack: the distance is the one of the index before it
      have hcn := kind.two_le_count
      have heq := ho.eq
      have hlt := ho.lt_lclusters
      have hb : Owner pclusters (p + (m - 1)) i (d + 1) := ⟨ho.lt, by omega, by omega⟩
      rw [h.owned (m - 1) (by omega) i (d + 1) hb]
      match d with
      | 0 =>
        exact ⟨Nat.two_pos, le_rfl⟩
      | d + 1 =>
        rw [indexOf_back, if_neg (by omega)]
        simp only
        omega

theorem HoldsPack.lclusterAt_tail (hm : m < kind.count)
    (he : p + m = headLcn pclusters pclusters.length)
    (ht : start pclusters pclusters.length % pclusterSize ≠ 0) :
    ∃ compressed blkaddr, lclusterAt true kind bytes m =
      some (.head compressed (start pclusters pclusters.length % pclusterSize) blkaddr) := by
  obtain ⟨ret, hs, -⟩ := h.base
  rw [lclusterAt, h.tail m hm he ht, headAddr, hs]
  exact ⟨_, _, rfl⟩

end

end

end Muak.Erofs
