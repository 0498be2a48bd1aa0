import Mathlib.Algebra.BigOperators.Group.List.Basic
import Mathlib.Algebra.GroupWithZero.Nat
import Mathlib.Algebra.Order.Group.Nat
import Mathlib.Logic.Relation
import Muak.Foundations.Reader
import Muak.Foundations.Result

/-!
# Compression of file data

`libs/erofs/src/compress/chunk.rs` and `compressed_blocks` of `writer/compressed.rs`: the first pass
cuts a file into clusters that compress into one block each, the second compresses them again.

* `step_spec`: what one turn of the loop does, from every state of the loop.
* `compress_file_iff`: exactly when the first pass succeeds, and that the second one then reproduces
  the recorded lengths.

`compress2` is a parameter: a function of level, size of the destination and input that fails only
when the destination is too small.
-/

namespace Muak.Erofs

open Muak.Bytes Relation List Except Option

/-- Why no image is written. -/
inductive ErofsError
  | io (message : String)
  | filenameTooLong (name : Bytes)
  | fileReadMismatch (path : String) (expected actual : ℕ)
  | compression (detail : String)
  | invalidCompressionLevel (level min max : ℤ)
  | internal (message : String)
deriving DecidableEq

abbrev Result := Except ErofsError

def pclusterSize : ℕ := 4096

def chunkStart : ℕ := 4 * pclusterSize

def chunkMax : ℕ := 64 * pclusterSize

def dstLen : ℕ := pclusterSize + 32

theorem pclusterSize_pos : 0 < pclusterSize := by decide

/-- A part of a file that is compressed as a whole. -/
structure Pcluster where
  inputLen : ℕ
  compressedLen : ℕ
deriving DecidableEq

/-- The parts of a compressed file. -/
structure CompressedLayout where
  pclusters : List Pcluster
  originalSize : ℕ
deriving DecidableEq

structure Zstd where
  minLevel : ℤ
  maxLevel : ℤ
  /-- The compressed bytes, unless they do not fit into the destination. -/
  compress2 : (level : ℤ) → (dst : ℕ) → (input : Bytes) → Option Bytes

section

variable (zstd : Zstd) (level : ℤ) {pclusters : List Pcluster} {pcluster : Pcluster}
  {expectedSize : ℕ} {src : Bytes}

/-- The level is one that zstd supports. -/
def Zstd.Supports : Prop := level = 0 ∨ zstd.minLevel ≤ level ∧ level ≤ zstd.maxLevel

instance : Decidable (zstd.Supports level) := inferInstanceAs (Decidable (_ ∨ _))

/-- `new_cctx`: the level is checked. -/
def newCctx : Result Unit :=
  if zstd.Supports level then .ok ()
  else .error (.invalidCompressionLevel level zstd.minLevel zstd.maxLevel)

/-! ## The first pass -/

/-- Read until the window has `want` bytes. The window lies in a buffer of `chunkMax` bytes. -/
def topUp (reader : Reader) (window : Bytes) (want : ℕ) (path : String)
    (offset expectedSize : ℕ) : Result (Bytes × Reader) :=
  if window.length < want then
    if want > chunkMax then .error (.internal "chunk fill window out of bounds")
    else
      let (window, reader) := reader.fill want window
      if window.length < want then
        .error (.fileReadMismatch path expectedSize (offset + window.length))
      else .ok (window, reader)
  else .ok (window, reader)

/-- The length of the compressed input, when that is one block at most. -/
def fits (input : Bytes) : Option ℕ :=
  match zstd.compress2 level dstLen input with
  | some out => if out.length ≤ pclusterSize then some out.length else none
  | none => none

/-- The first half of the input, half of that and so on, until it fits; not less than a block. -/
def compressFitting (src : Bytes) (want : ℕ) : Result (Option (ℕ × ℕ)) :=
  if want > src.length then .error (.internal "chunk prefix out of bounds")
  else
    match fits zstd level (src.take want) with
    | some written => .ok (some (want, written))
    | none =>
      if want ≤ pclusterSize then .ok none
      else compressFitting src (max (want / 2) pclusterSize)
termination_by want
decreasing_by
  have := pclusterSize_pos
  omega

/-- The loop between two turns. The window is what has been read and not yet been compressed. -/
structure State where
  reader : Reader
  window : Bytes
  remaining : ℕ
  take : ℕ
  take_pos : 0 < take
  pclusters : List Pcluster

/-- How much the next cluster is to take: a short rest is taken along. -/
def State.want (s : State) : ℕ :=
  let want := min (min s.take s.remaining) chunkMax
  if s.remaining > want ∧ s.remaining - want < pclusterSize then s.remaining else want

/-- How much to take after a cluster of `want` bytes came out at `outLen`. -/
def adapt (want outLen : ℕ) : ℕ :=
  min (max (pclusterSize * want / max outLen 1) pclusterSize) chunkMax

theorem adapt_bounds (want outLen : ℕ) :
    pclusterSize ≤ adapt want outLen ∧ adapt want outLen ≤ chunkMax := by
  have : pclusterSize ≤ chunkMax := by decide
  unfold adapt
  omega

theorem adapt_pos (want outLen : ℕ) : 0 < adapt want outLen :=
  Nat.lt_of_lt_of_le (by decide) (adapt_bounds want outLen).1

/-- The state after a cluster of `fitting.1` bytes that came out at `fitting.2`. -/
def State.next (s : State) (window : Bytes) (reader : Reader) (fitting : ℕ × ℕ) : State where
  reader := reader
  window := window.drop fitting.1
  remaining := s.remaining - fitting.1
  take := adapt fitting.1 fitting.2
  take_pos := adapt_pos _ _
  pclusters := s.pclusters ++ [⟨fitting.1, fitting.2⟩]

/-- One turn of the loop; `none` when the data do not compress. -/
def step (path : String) (expectedSize : ℕ) (s : State) : Result (Option State) := do
  let (window, reader) ←
    topUp s.reader s.window s.want path (expectedSize - s.remaining) expectedSize
  let fitting ← compressFitting zstd level window s.want
  .ok (fitting.map (s.next window reader))

variable {zstd level}

/-- What fitted: not more than was wanted, and at least a block or all of it. -/
theorem compressFitting_eq_some {want want' outLen : ℕ}
    (h : compressFitting zstd level src want = .ok (some (want', outLen))) :
    want' ≤ want ∧ min want pclusterSize ≤ want' ∧
      fits zstd level (src.take want') = some outLen := by
  induction want using compressFitting.induct zstd level src with
  | case1 want hgt =>
    rw [compressFitting, if_pos hgt] at h
    simp at h
  | case2 want hle written hf =>
    rw [compressFitting, if_neg hle, hf] at h
    obtain ⟨rfl, rfl⟩ := Prod.mk.inj (some.inj (ok.inj h))
    exact ⟨le_rfl, min_le_left _ _, hf⟩
  | case3 want hle hf hs =>
    rw [compressFitting, if_neg hle, hf] at h
    simp [hs] at h
  | case4 want hle hf hl ih =>
    rw [compressFitting, if_neg hle, hf] at h
    simp only [hl] at h
    obtain ⟨hle', hm, hf'⟩ := ih h
    refine ⟨?_, ?_, hf'⟩ <;> omega

theorem exists_compressFitting {want : ℕ} (h : want ≤ src.length) :
    ∃ result, compressFitting zstd level src want = .ok result := by
  induction want using compressFitting.induct zstd level src with
  | case1 want hgt => omega
  | case2 want hle written hf =>
    exact ⟨some (want, written), by rw [compressFitting, if_neg hle, hf]⟩
  | case3 want hle hf hs =>
    exact ⟨none, by rw [compressFitting, if_neg hle, hf]; simp [hs]⟩
  | case4 want hle hf hl ih =>
    obtain ⟨result, hr⟩ := ih (by omega)
    exact ⟨result, by rw [compressFitting, if_neg hle, hf]; simp [hl, hr]⟩

theorem State.want_pos {s : State} (h : s.remaining ≠ 0) : 0 < s.want := by
  have := s.take_pos
  have : 0 < chunkMax := by decide
  unfold State.want
  simp only
  split_ifs <;> omega

/-- Every turn takes something. -/
theorem remaining_lt {path : String} {s s' : State} (hs : s.remaining ≠ 0)
    (h : step zstd level path expectedSize s = .ok (some s')) : s'.remaining < s.remaining := by
  obtain ⟨⟨window, reader⟩, -, h⟩ := of_bind h
  obtain ⟨result, hr, h⟩ := of_bind h
  obtain ⟨⟨want, outLen⟩, rfl, rfl⟩ := map_eq_some_iff.1 (ok.inj h)
  obtain ⟨-, hm, -⟩ := compressFitting_eq_some hr
  have := State.want_pos hs
  have := pclusterSize_pos
  simp only [State.next]
  omega

variable (zstd level) (reader : Reader)

/-- The loop, until nothing remains. -/
def loop (path : String) (expectedSize : ℕ) (s : State) : Result (Option State) :=
  if _hdone : s.remaining = 0 then .ok (some s)
  else
    match _hstep : step zstd level path expectedSize s with
    | .error e => .error e
    | .ok none => .ok none
    | .ok (some s') => loop path expectedSize s'
termination_by s.remaining
decreasing_by exact remaining_lt _hdone _hstep

/-- The loop at its beginning. -/
def State.init (expectedSize : ℕ) : State where
  reader := reader
  window := []
  remaining := expectedSize
  take := chunkStart
  take_pos := by decide
  pclusters := []

/-- After the loop: there must not be more data, and the clusters must take less room. -/
def State.conclude (s : State) (path : String) (expectedSize : ℕ) :
    Result (Option CompressedLayout) :=
  if (s.reader.read 1).1 ≠ [] then
    .error (.fileReadMismatch path expectedSize (expectedSize + 1))
  else if s.pclusters.length * pclusterSize ≥ expectedSize ∨
      s.pclusters.any (·.compressedLen > pclusterSize) then .ok none
  else .ok (some ⟨s.pclusters, expectedSize⟩)

/-- Compress a file part by part, unless it is empty or does not get smaller. -/
def compressFile (expectedSize : ℕ) (path : String) : Result (Option CompressedLayout) :=
  if expectedSize = 0 then .ok none
  else do
    newCctx zstd level
    match ← loop zstd level path expectedSize (.init reader expectedSize) with
    | none => .ok none
    | some s => s.conclude path expectedSize

/-! ## The second pass -/

/-- Compress the next cluster, with buffers of the given sizes. -/
def recompressPcluster (inputLen stage dst : ℕ) : Result (Bytes × Reader) :=
  if inputLen > stage ∨ dst < dstLen then
    .error (.internal "pcluster re-emission buffers too small")
  else
    let (input, reader) := reader.fill inputLen []
    if input.length < inputLen then .error (.io "failed to fill whole buffer")
    else do
      newCctx zstd level
      match zstd.compress2 level dst input with
      | none => .error (.compression "zstd error code")
      | some out => .ok (out, reader)

/-- The clusters of these lengths, one after another. -/
def recompressAll (stage : ℕ) : Reader → List ℕ → Result (List Bytes)
  | _, [] => .ok []
  | reader, inputLen :: inputLens => do
    let (written, reader) ← recompressPcluster zstd level reader inputLen stage dstLen
    let rest ← recompressAll stage reader inputLens
    .ok (written :: rest)

/-- A block that ends with the compressed bytes. -/
def padded (written : Bytes) : Bytes :=
  zeros (pclusterSize - written.length) ++ written

/-- `compressed_blocks`: the clusters in blocks of their own, behind zeros. -/
def compressedBlocks (stage : ℕ) : Reader → List Pcluster → Result Bytes
  | _, [] => .ok []
  | reader, pcluster :: pclusters => do
    let (written, reader) ← recompressPcluster zstd level reader pcluster.inputLen stage dstLen
    if written.length ≠ pcluster.compressedLen then
      .error (.internal "re-compressed pcluster length drifts from recorded layout")
    else
      let rest ← compressedBlocks stage reader pclusters
      .ok (padded written ++ rest)

/-! ## The loop -/

/-- The clusters compress to the recorded lengths, one after another. -/
def Recorded : Bytes → List Pcluster → Prop
  | _, [] => True
  | data, pcluster :: pclusters =>
    fits zstd level (data.take pcluster.inputLen) = some pcluster.compressedLen ∧
      Recorded (data.drop pcluster.inputLen) pclusters

variable {zstd level}

theorem recorded_concat {data : Bytes} :
    Recorded zstd level data (pclusters ++ [pcluster]) ↔ Recorded zstd level data pclusters ∧
      fits zstd level ((data.drop (pclusters.map (·.inputLen)).sum).take pcluster.inputLen) =
        some pcluster.compressedLen := by
  induction pclusters generalizing data with
  | nil => simp [Recorded]
  | cons first pclusters ih =>
    rw [cons_append, Recorded, Recorded, ih, map_cons, sum_cons, drop_drop, and_assoc]

variable (zstd level) in
/-- **The invariant of the loop**, on the data of a file. -/
structure Valid (data : Bytes) (s : State) : Prop where
  remaining_le : s.remaining ≤ data.length
  rest : s.window ++ s.reader.data = data.drop (data.length - s.remaining)
  window_le : s.window.length ≤ chunkMax
  take_bounds : pclusterSize ≤ s.take ∧ s.take ≤ chunkMax
  total : (s.pclusters.map (·.inputLen)).sum = data.length - s.remaining
  sizes : ∀ p ∈ s.pclusters, 1 ≤ p.inputLen ∧ p.inputLen ≤ chunkMax ∧ p.compressedLen ≤ pclusterSize
  recorded : Recorded zstd level data s.pclusters

theorem valid_init (reader : Reader) :
    Valid zstd level reader.data (.init reader reader.data.length) where
  remaining_le := le_rfl
  rest := by simp [State.init]
  window_le := Nat.zero_le _
  take_bounds := (by decide : pclusterSize ≤ chunkStart ∧ chunkStart ≤ chunkMax)
  total := by simp [State.init]
  sizes p hp := absurd hp not_mem_nil
  recorded := trivial

/-- What is to be taken fits into the buffer. -/
def State.HasRoom (s : State) : Prop :=
  ¬(chunkMax < s.remaining ∧ s.remaining < s.take + pclusterSize)

theorem State.want_le_remaining (s : State) : s.want ≤ s.remaining := by
  unfold State.want
  simp only
  split_ifs <;> omega

variable {data : Bytes} {s : State} {path : String}

section

variable (h : Valid zstd level data s)

include h

theorem Valid.length_rest : s.window.length + s.reader.data.length = s.remaining := by
  have := congrArg length h.rest
  have := h.remaining_le
  rw [length_append, length_drop] at *
  omega

theorem Valid.want_le_iff : s.want ≤ chunkMax ↔ s.HasRoom := by
  have := h.take_bounds
  unfold State.want State.HasRoom
  simp only
  split_ifs <;> omega

/-- A cluster that is longer than the buffer is an error. -/
theorem step_of_not_hasRoom (hr : ¬s.HasRoom) : step zstd level path data.length s =
      .error (.internal "chunk fill window out of bounds") := by
  have hw : chunkMax < s.want := not_le.1 (mt h.want_le_iff.1 hr)
  have := h.window_le
  rw [step, topUp, if_pos (by omega), if_pos hw]
  rfl

/-- Otherwise the window is filled from the data, and as much taken as fits. -/
theorem step_of_hasRoom (hrm : s.HasRoom) :
    ∃ window reader, window ++ reader.data = data.drop (data.length - s.remaining) ∧
      s.want ≤ window.length ∧ window.length ≤ chunkMax ∧
      step zstd level path data.length s = (compressFitting zstd level window s.want).map
        (Option.map (s.next window reader)) := by
  have hwn := h.want_le_iff.2 hrm
  have hrest := h.length_rest
  have hle := s.want_le_remaining
  by_cases hlt : s.window.length < s.want
  · obtain ⟨hw, hr⟩ := @Reader.fill_eq s.want s.window s.reader (by omega)
    obtain ⟨⟨window, reader⟩, hf⟩ : ∃ filled, s.reader.fill s.want s.window = filled := ⟨_, rfl⟩
    rw [hf] at hw hr
    simp only at hw hr
    have hlen : window.length = s.want := by
      rw [hw, length_take, length_append]
      omega
    refine ⟨window, reader, ?_, by omega, by omega, ?_⟩
    · rw [hw, hr, take_append_drop, h.rest]
    · rw [step, topUp, if_pos hlt, if_neg (by omega), hf]
      simp [hlen, bind_ok_eq_map]
  · refine ⟨s.window, s.reader, h.rest, by omega, h.window_le, ?_⟩
    rw [step, topUp, if_neg hlt]
    simp [bind_ok_eq_map]

/-- What a cluster leaves behind. -/
theorem Valid.next {window : Bytes} {reader : Reader} (hs : s.remaining ≠ 0)
    (hrest : window ++ reader.data = data.drop (data.length - s.remaining))
    (hwn : window.length ≤ chunkMax) {fitting : ℕ × ℕ} (hle : fitting.1 ≤ s.want)
    (hlen : s.want ≤ window.length) (hps : min s.want pclusterSize ≤ fitting.1)
    (hf : fits zstd level (window.take fitting.1) = some fitting.2) :
    Valid zstd level data (s.next window reader fitting) := by
  have hr := h.remaining_le
  have hwa := s.want_le_remaining
  have hw := State.want_pos hs
  have hsz := pclusterSize_pos
  have hd : data.length - (s.remaining - fitting.1) =
      data.length - s.remaining + fitting.1 := by omega
  constructor
  · exact (Nat.sub_le _ _).trans hr
  · simp only [State.next, hd]
    rw [← drop_drop, ← hrest, drop_append_of_le_length (by omega)]
  · simp only [State.next, length_drop]
    omega
  · exact adapt_bounds _ _
  · simp only [State.next, map_append, sum_append, h.total, map_cons, map_nil, sum_cons, sum_nil]
    omega
  · intro p hp
    rcases mem_append.1 hp with hp | hp
    · exact h.sizes p hp
    · rw [mem_singleton.1 hp]
      refine ⟨by simp only; omega, by simp only; omega, ?_⟩
      unfold fits at hf
      split at hf
      · split_ifs at hf with ho
        rw [← some.inj hf]
        exact ho
      · simp at hf
  · refine recorded_concat.2 ⟨h.recorded, ?_⟩
    rw [h.total, ← hrest, take_append_of_le_length (hle.trans hlen)]
    exact hf

/-- **One turn of the loop**, where there is room: it ends the loop or keeps the invariant. -/
theorem step_spec (hs : s.remaining ≠ 0) (hrm : s.HasRoom) :
    step zstd level path data.length s = .ok none ∨
      ∃ s', step zstd level path data.length s = .ok (some s') ∧ Valid zstd level data s' := by
  obtain ⟨window, reader, hrest, hlen, hw, hstep⟩ := step_of_hasRoom h hrm
  rw [hstep]
  obtain ⟨result, hr⟩ := @exists_compressFitting zstd level window s.want hlen
  rw [hr]
  cases result with
  | none => exact .inl rfl
  | some fitting =>
    obtain ⟨hle, hp, hf⟩ := compressFitting_eq_some hr
    exact .inr ⟨_, rfl, h.next hs hrest hw hle hlen hp hf⟩

end

variable (zstd level) in
/-- A turn of the loop from one state to the next. -/
def Next (path : String) (expectedSize : ℕ) (s s' : State) : Prop :=
  s.remaining ≠ 0 ∧ step zstd level path expectedSize s = .ok (some s')

/-- **The loop ends well** exactly if there is room in every state it reaches; what remains then is
nothing. -/
theorem loop_spec (h : Valid zstd level data s) :
    ((∃ result, loop zstd level path data.length s = .ok result) ↔
      ∀ s', ReflTransGen (Next zstd level path data.length) s s' → s'.HasRoom) ∧
    ∀ s', loop zstd level path data.length s = .ok (some s') →
      Valid zstd level data s' ∧ s'.remaining = 0 := by
  induction hn : s.remaining using Nat.strong_induction_on generalizing s with
  | _ n ih =>
    rw [loop]
    by_cases hs : s.remaining = 0
    · rw [dif_pos hs]
      refine ⟨⟨fun _ s' hs' => ?_, fun _ => ⟨_, rfl⟩⟩, ?_⟩
      · -- nothing follows a state in which nothing remains
        obtain rfl | ⟨s₁, hnx, -⟩ := hs'.cases_head
        · exact fun hrm => by omega
        · exact absurd hs hnx.1
      · rintro s' ⟨⟩
        exact ⟨h, hs⟩
    · rw [dif_neg hs]
      by_cases hrm : s.HasRoom
      · obtain hstep | ⟨s₁, hstep, hv⟩ := @step_spec zstd level data s path h hs hrm
        · rw [hstep]
          refine ⟨⟨fun _ s' hs' => ?_, fun _ => ⟨_, rfl⟩⟩, by simp⟩
          obtain rfl | ⟨s₁, ⟨-, hnx⟩, -⟩ := hs'.cases_head
          · exact hrm
          · rw [hstep] at hnx
            simp at hnx
        · rw [hstep]
          obtain ⟨hi, hd⟩ := ih s₁.remaining (hn ▸ remaining_lt hs hstep) hv rfl
          refine ⟨hi.trans ⟨fun hr s' hs' => ?_, fun hr s' hs' => ?_⟩, hd⟩
          · obtain rfl | ⟨s₂, ⟨-, hnx⟩, hrest⟩ := hs'.cases_head
            · exact hrm
            · rw [hstep] at hnx
              obtain rfl := some.inj (ok.inj hnx)
              exact hr s' hrest
          · exact hr s' (.head ⟨hs, hstep⟩ hs')
      · rw [step_of_not_hasRoom h hrm]
        refine ⟨⟨fun ⟨_, hok⟩ => absurd hok (by simp), fun hr => ?_⟩, by simp⟩
        exact absurd (hr s .refl) hrm

/-! ## The second pass reproduces the first -/

/-- A cluster compresses again to its recorded length. -/
theorem recompressPcluster_spec (hl : zstd.Supports level) (hm : pcluster.inputLen ≤ chunkMax)
    {reader : Reader} (hlen : pcluster.inputLen ≤ reader.data.length)
    (hf : fits zstd level (reader.data.take pcluster.inputLen) = some pcluster.compressedLen) :
    ∃ written rest, recompressPcluster zstd level reader pcluster.inputLen chunkMax dstLen =
      .ok (written, rest) ∧ written.length = pcluster.compressedLen ∧
      rest.data = reader.data.drop pcluster.inputLen := by
  obtain ⟨hi, hrest⟩ := @Reader.fill_eq pcluster.inputLen [] reader (by simpa using hlen)
  obtain ⟨⟨input, rest⟩, hfl⟩ : ∃ filled, reader.fill pcluster.inputLen [] = filled := ⟨_, rfl⟩
  rw [hfl, nil_append, length_nil, Nat.zero_max] at hi hrest
  simp only at hi hrest
  have hfu : ¬input.length < pcluster.inputLen := by
    rw [hi, length_take]
    omega
  rw [← hi] at hf
  unfold fits at hf
  split at hf
  · next written hw =>
    split_ifs at hf
    refine ⟨written, rest, ?_, some.inj hf, hrest⟩
    rw [recompressPcluster, if_neg (by omega), hfl]
    simp [hfu, newCctx, if_pos hl, hw]
  · simp at hf

/-- **The second pass reproduces the recorded lengths.** -/
theorem recompressAll_spec (hl : zstd.Supports level)
    (hmx : ∀ p ∈ pclusters, p.inputLen ≤ chunkMax) {reader : Reader}
    (ht : (pclusters.map (·.inputLen)).sum ≤ reader.data.length)
    (hr : Recorded zstd level reader.data pclusters) :
    ∃ outs, recompressAll zstd level chunkMax reader (pclusters.map (·.inputLen)) = .ok outs ∧
      outs.map length = pclusters.map (·.compressedLen) ∧
      compressedBlocks zstd level chunkMax reader pclusters = .ok (outs.flatMap padded) := by
  induction pclusters generalizing reader with
  | nil => exact ⟨[], rfl, rfl, rfl⟩
  | cons pcluster pclusters ih =>
    obtain ⟨hmx, hm⟩ := forall_mem_cons.1 hmx
    obtain ⟨hf, hr⟩ := hr
    rw [map_cons, sum_cons] at ht
    obtain ⟨written, rest, hw, hlen, hrest⟩ := recompressPcluster_spec hl hmx (by omega) hf
    obtain ⟨outs, ho, hln, hb⟩ := @ih hm rest
      (by rw [hrest, length_drop]; omega) (by rw [hrest]; exact hr)
    refine ⟨written :: outs, ?_, ?_, ?_⟩
    · rw [map_cons, recompressAll, hw]
      simp [ho]
    · rw [map_cons, map_cons, hlen, hln]
    · rw [compressedBlocks, hw]
      simp [hlen, hb]

/-! ## The result -/

/-- When nothing remains the file is read to its end. -/
theorem Valid.conclude_eq (h : Valid zstd level data s) (hs : s.remaining = 0) :
    s.conclude path data.length = .ok none ∨
      s.conclude path data.length = .ok (some ⟨s.pclusters, data.length⟩) := by
  have hrest := h.rest
  rw [hs, Nat.sub_zero, drop_length, append_eq_nil_iff] at hrest
  have hr : (s.reader.read 1).1 = [] := (Reader.read_eq_nil_iff Nat.one_pos).2 hrest.2
  rw [State.conclude, if_neg (not_not_intro hr)]
  split_ifs
  · exact .inl rfl
  · exact .inr rfl

variable (zstd level) in
/-- **A layout of the data of a file**: clusters of at most `chunkMax` bytes that compress into one
block, whose lengths the second pass reproduces. -/
structure Covers (data : Bytes) (layout : CompressedLayout) : Prop where
  supports : zstd.Supports level
  originalSize : layout.originalSize = data.length
  sizes : ∀ p ∈ layout.pclusters, 1 ≤ p.inputLen ∧ p.inputLen ≤ chunkMax ∧
    p.compressedLen ≤ pclusterSize
  total : (layout.pclusters.map (·.inputLen)).sum = data.length
  again : ∀ reader, reader.data = data → ∃ outs,
    recompressAll zstd level chunkMax reader (layout.pclusters.map (·.inputLen)) = .ok outs ∧
      outs.map length = layout.pclusters.map (·.compressedLen) ∧
      compressedBlocks zstd level chunkMax reader layout.pclusters = .ok (outs.flatMap padded)

theorem compressFile_eq_some {reader : Reader} {layout : CompressedLayout}
    (h : compressFile zstd level reader reader.data.length path = .ok (some layout)) :
    Covers zstd level reader.data layout := by
  rcases eq_or_ne reader.data.length 0 with hz | hz
  · rw [compressFile, if_pos hz] at h
    cases ok.inj h
  rw [compressFile, if_neg hz] at h
  obtain ⟨_, hc, h⟩ := of_bind h
  have hl : zstd.Supports level := by
    unfold newCctx at hc
    split_ifs at hc with hl
    exact hl
  obtain ⟨result, hlp, h⟩ := of_bind h
  cases result with
  | none => cases h
  | some s =>
    obtain ⟨hv, hs⟩ := (@loop_spec zstd level reader.data _ path (valid_init reader)).2 s hlp
    obtain rfl : layout = ⟨s.pclusters, reader.data.length⟩ := by
      rcases @Valid.conclude_eq zstd level reader.data s path hv hs with hn | hsm
      · exact absurd (hn.symm.trans h) (by simp)
      · exact (some.inj (ok.inj (hsm.symm.trans h))).symm
    have ht := hv.total
    rw [hs, Nat.sub_zero] at ht
    refine ⟨hl, rfl, hv.sizes, ht, fun reader' hr' => ?_⟩
    exact recompressAll_spec hl (fun p hp => (hv.sizes p hp).2.1)
      (by rw [ht, hr']) (hr' ▸ hv.recorded)

/-- **The first pass.** It succeeds exactly if, whenever a cluster is to be taken, more than
`chunkMax` bytes never remain while the cluster is short of them by less than a block. The layout it
returns covers the file with clusters of at most `chunkMax` bytes that compress into one block, and
the second pass reproduces their lengths, whatever the pieces in which the data come. -/
theorem compress_file_iff (zstd : Zstd) (level : ℤ) (path : String) (reader : Reader)
    (hlevel : zstd.Supports level) (hdata : reader.data ≠ []) :
    ((∃ result, compressFile zstd level reader reader.data.length path = .ok result) ↔
      ∀ s, ReflTransGen (Next zstd level path reader.data.length)
        (.init reader reader.data.length) s → s.HasRoom) ∧
    ∀ layout, compressFile zstd level reader reader.data.length path = .ok (some layout) →
      (∀ p ∈ layout.pclusters, 1 ≤ p.inputLen ∧ p.inputLen ≤ chunkMax ∧
        p.compressedLen ≤ pclusterSize) ∧
      (layout.pclusters.map (·.inputLen)).sum = reader.data.length ∧
      ∀ reader', reader'.data = reader.data → ∃ outs,
        recompressAll zstd level chunkMax reader' (layout.pclusters.map (·.inputLen)) = .ok outs ∧
        outs.map length = layout.pclusters.map (·.compressedLen) ∧
        compressedBlocks zstd level chunkMax reader' layout.pclusters =
          .ok (outs.flatMap padded) := by
  refine ⟨?_, fun layout hok => ?_⟩
  · obtain ⟨hi, hd⟩ := @loop_spec zstd level reader.data _ path (valid_init reader)
    have hlen : reader.data.length ≠ 0 := mt length_eq_zero_iff.1 hdata
    rw [← hi, compressFile, if_neg hlen, newCctx, if_pos hlevel, ok_bind]
    constructor
    · rintro ⟨result, h⟩
      obtain ⟨result', hl, -⟩ := of_bind h
      exact ⟨result', hl⟩
    · rintro ⟨result, hl⟩
      rw [hl]
      cases result with
      | none => exact ⟨none, rfl⟩
      | some s =>
        obtain ⟨hv, hs⟩ := hd s hl
        have hcn := @Valid.conclude_eq zstd level reader.data s path hv hs
        exact hcn.elim (fun h => ⟨_, h⟩) fun h => ⟨_, h⟩
  · have hc := compressFile_eq_some hok
    exact ⟨hc.sizes, hc.total, hc.again⟩

theorem remaining_le_of_reaches {s' : State}
    (h : ReflTransGen (Next zstd level path expectedSize) s s') : s'.remaining ≤ s.remaining := by
  induction h with
  | refl => exact le_rfl
  | tail _ hn ih => exact (remaining_lt hn.1 hn.2).le.trans ih

end

/-! ## A file that is not accepted -/

/-- A compressor for data without content. -/
def tinyZstd : Zstd := ⟨-7, 22, fun _ _ _ => some [0]⟩

/-- A file of three bytes, read byte by byte. -/
theorem compress_file_iff_short :
    ∃ result, compressFile tinyZstd 3 ⟨[1, 2, 3], fun _ => 0⟩ 3 "short" = .ok result := by
  refine (compress_file_iff tinyZstd 3 "short" ⟨[1, 2, 3], fun _ => 0⟩ (by decide)
    (by simp)).1.2 fun s hs hr => ?_
  have hle : chunkMax < 3 := hr.1.trans_le (remaining_le_of_reaches hs)
  exact absurd hle (by decide)

/-- After a first cluster that compresses well, one byte more remains than the buffer holds. -/
theorem step_init {reader : Reader} (h : reader.data.length = chunkStart + chunkMax + 1)
    (path : String) : ∃ s, Valid tinyZstd 3 reader.data s ∧ ¬s.HasRoom ∧ s.remaining ≠ 0 ∧
      step tinyZstd 3 path reader.data.length (.init reader reader.data.length) = .ok (some s) := by
  have hm : chunkMax = 262144 := rfl
  have hs : chunkStart = 16384 := rfl
  have hsz : pclusterSize = 4096 := rfl
  have hv := @valid_init tinyZstd 3 reader
  have hr : (State.init reader reader.data.length).remaining = chunkStart + chunkMax + 1 := h
  have ht : (State.init reader reader.data.length).take = chunkStart := rfl
  have hwn : (State.init reader reader.data.length).want = chunkStart := by
    unfold State.want
    simp only
    split_ifs <;> omega
  have hrm : (State.init reader reader.data.length).HasRoom := hv.want_le_iff.1 (by omega)
  obtain ⟨window, rest, hrest, hlen, hw, hstep⟩ :=
    @step_of_hasRoom tinyZstd 3 reader.data _ path hv hrm
  have hft : fits tinyZstd 3 (window.take chunkStart) = some 1 := rfl
  have hf : compressFitting tinyZstd 3 window chunkStart = .ok (some (chunkStart, 1)) := by
    rw [compressFitting, if_neg (by omega), hft]
  have ha : adapt chunkStart 1 = chunkMax := rfl
  rw [hwn, hf] at hstep
  refine ⟨_, hv.next (by omega) hrest hw hwn.ge hlen ?_ hft, ?_, ?_, hstep⟩
  · exact (min_le_left _ _).trans hwn.le
  · refine not_not_intro ⟨?_, ?_⟩ <;> simp only [State.next] <;> omega
  · simp only [State.next]
    omega

/-- A file of zeros for which the first pass fails. -/
theorem zeros_rejected :
    compressFile tinyZstd 3 ⟨replicate (chunkStart + chunkMax + 1) 0, fun _ => 0⟩
      (chunkStart + chunkMax + 1) "zeros" =
        .error (.internal "chunk fill window out of bounds") := by
  generalize hr : (⟨replicate (chunkStart + chunkMax + 1) 0, fun _ => 0⟩ : Reader) = reader
  have hlen : reader.data.length = chunkStart + chunkMax + 1 := by
    rw [← hr, length_replicate]
  obtain ⟨s, hv, hrm, hs, hstep⟩ := step_init hlen "zeros"
  have hne : reader.data.length ≠ 0 := hlen.trans_ne (Nat.succ_ne_zero _)
  rw [← hlen, compressFile, if_neg hne, loop,
    dif_neg (show (State.init reader reader.data.length).remaining ≠ 0 from hne), hstep]
  simp only
  rw [loop, dif_neg hs, step_of_not_hasRoom hv hrm]
  rfl

end Muak.Erofs
