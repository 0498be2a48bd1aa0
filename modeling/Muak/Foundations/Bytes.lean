import Mathlib.Algebra.Group.Nat.Defs
import Mathlib.Data.List.Basic
import Mathlib.Data.Nat.Notation

/-!
# Byte buffers

Fixed-width numbers, and buffers that are read and written at ranges.

* `leBytes w n` and `ofLe` are the two directions of a little-endian field; `ofLe_leBytes` is their
  round trip. `beBytes` and `ofBe` are big-endian.
* `slice buf start len` reads a range, `put buf start data` overwrites one. A read of what was just
  put gives it back (`slice_put`), and puts elsewhere do not matter (`slice_put_of_disjoint`).
* `chunks n k buf` cuts a buffer into `k` pieces of `n` bytes; `chunks_flatten` undoes a
  concatenation.
* `fields widths buf` reads a record; `fields_flatten` undoes putting one together.
* `xorInto` is the exclusive or of two buffers, which undoes itself (`xorInto_xorInto`).
-/

/-- A buffer of bytes. -/
abbrev Muak.Bytes := List UInt8

namespace Muak.Bytes

open List Option Nat

/-! ## Numbers -/

/-- The `w` little-endian bytes of a number. -/
def leBytes : ℕ → ℕ → Bytes
  | 0, _ => []
  | w + 1, n => UInt8.ofNat n :: leBytes w (n / 256)

/-- The number with these little-endian bytes. -/
def ofLe : Bytes → ℕ
  | [] => 0
  | b :: bytes => b.toNat + 256 * ofLe bytes

@[simp] theorem length_leBytes (w n : ℕ) : (leBytes w n).length = w := by
  induction w generalizing n with
  | zero => rfl
  | succ w ih => simp [leBytes, ih]

theorem ofLe_leBytes {w n : ℕ} (h : n < 256 ^ w) : ofLe (leBytes w n) = n := by
  induction w generalizing n with
  | zero =>
    simp only [leBytes, ofLe]
    omega
  | succ w ih =>
    have hd : n / 256 < 256 ^ w := Nat.div_lt_of_lt_mul (by rwa [pow_succ, mul_comm] at h)
    simp only [leBytes, ofLe, ih hd, UInt8.toNat_ofNat']
    omega

theorem leBytes_ofLe (bytes : Bytes) : leBytes bytes.length (ofLe bytes) = bytes := by
  induction bytes with
  | nil => rfl
  | cons b bytes ih =>
    have hb := b.toNat_lt
    have hd : (b.toNat + 256 * ofLe bytes) / 256 = ofLe bytes := by omega
    have hm : (b.toNat + 256 * ofLe bytes) % 256 = b.toNat := by omega
    have hby : UInt8.ofNat (b.toNat + 256 * ofLe bytes) = b := by
      rw [← UInt8.toNat_inj, UInt8.toNat_ofNat', hm]
    simp [ofLe, leBytes, hd, ih]

theorem ofLe_lt (bytes : Bytes) : ofLe bytes < 256 ^ bytes.length := by
  induction bytes with
  | nil => exact Nat.one_pos
  | cons b bytes ih =>
    have hb := b.toNat_lt
    simp only [ofLe, length_cons]
    omega

/-- The `w` big-endian bytes of a number. -/
def beBytes (w n : ℕ) : Bytes := (leBytes w n).reverse

/-- The number with these big-endian bytes. -/
def ofBe (bytes : Bytes) : ℕ := ofLe bytes.reverse

/-- `u16::to_le_bytes`. -/
def le16 (x : UInt16) : Bytes := leBytes 2 x.toNat

/-- `u32::to_le_bytes`. -/
def le32 (x : UInt32) : Bytes := leBytes 4 x.toNat

/-- `u64::to_le_bytes`. -/
def le64 (x : UInt64) : Bytes := leBytes 8 x.toNat

@[simp] theorem length_le16 (x : UInt16) : (le16 x).length = 2 := length_leBytes _ _

@[simp] theorem length_le32 (x : UInt32) : (le32 x).length = 4 := length_leBytes _ _

@[simp] theorem length_le64 (x : UInt64) : (le64 x).length = 8 := length_leBytes _ _

@[simp] theorem ofNat_ofLe_le16 (x : UInt16) : UInt16.ofNat (ofLe (le16 x)) = x := by
  rw [le16, ofLe_leBytes x.toNat_lt, UInt16.ofNat_toNat]

@[simp] theorem ofNat_ofLe_le32 (x : UInt32) : UInt32.ofNat (ofLe (le32 x)) = x := by
  rw [le32, ofLe_leBytes x.toNat_lt, UInt32.ofNat_toNat]

@[simp] theorem ofNat_ofLe_le64 (x : UInt64) : UInt64.ofNat (ofLe (le64 x)) = x := by
  rw [le64, ofLe_leBytes x.toNat_lt, UInt64.ofNat_toNat]

/-! ## Ranges of a buffer -/

/-- A buffer of zeroes. -/
def zeros (n : ℕ) : Bytes := List.replicate n 0

@[simp] theorem length_zeros (n : ℕ) : (zeros n).length = n := length_replicate

theorem zeros_add (m n : ℕ) : zeros (m + n) = zeros m ++ zeros n := replicate_add ..

/-- The bytes of a range, when it is within the buffer. -/
def slice (buf : Bytes) (start len : ℕ) : Option Bytes :=
  if start + len ≤ buf.length then some ((buf.drop start).take len) else none

/-- Overwrite a range with the data, when it is within the buffer. -/
def put (buf : Bytes) (start : ℕ) (data : Bytes) : Bytes :=
  if start + data.length ≤ buf.length then
    buf.take start ++ data ++ buf.drop (start + data.length)
  else buf

variable {buf data before after : Bytes} {start len n : ℕ} (bytes other : Bytes)
  {piece old : Bytes}

@[simp] theorem length_put (buf : Bytes) (start : ℕ) (data : Bytes) :
    (put buf start data).length = buf.length := by
  unfold put
  split_ifs with h
  · simp only [length_append, length_take, length_drop]
    omega
  · rfl

@[simp] theorem put_nil (buf : Bytes) (start : ℕ) : put buf start [] = buf := by
  unfold put
  split_ifs
  · rw [append_nil, length_nil, add_zero, take_append_drop]
  · rfl

theorem slice_append (hs : before.length = start) (hlen : data.length = len) :
    slice (before ++ data ++ after) start len = some data := by
  subst hs hlen
  simp [slice]

theorem slice_append_left (hlen : data.length = len) : slice (data ++ after) 0 len = some data := by
  subst hlen
  simp [slice]

variable {i : ℕ}

theorem slice_append_right (hs : before.length = start) :
    slice (before ++ buf) (start + i) len = slice buf i len := by
  subst hs
  simp [slice, add_assoc]

theorem put_append (hs : before.length = start) (hlen : old.length = data.length) :
    put (before ++ old ++ after) start data = before ++ data ++ after := by
  subst hs
  simp [put, ← hlen]

theorem exists_append_of_le (h : start + len ≤ buf.length) :
    ∃ before middle after, buf = before ++ middle ++ after ∧ before.length = start ∧
      middle.length = len := by
  refine ⟨buf.take start, (buf.drop start).take len, (buf.drop start).drop len, ?_, ?_, ?_⟩
  · rw [append_assoc, take_append_drop, take_append_drop]
  · rw [length_take]
    omega
  · rw [length_take, length_drop]
    omega

variable {next : Bytes}

/-- Overwriting two ranges, the second right after the first. -/
theorem put_put_append (h : start + data.length + next.length ≤ buf.length) :
    put (put buf start data) (start + data.length) next = put buf start (data ++ next) := by
  obtain ⟨before, middle, after, rfl, rfl, hm⟩ := exists_append_of_le
    (show start + (data ++ next).length ≤ buf.length by rw [length_append]; omega)
  obtain ⟨old, oldNext, rfl, ho, hn⟩ : ∃ old oldNext, middle = old ++ oldNext ∧
      old.length = data.length ∧ oldNext.length = next.length := by
    rw [length_append] at hm
    exact ⟨middle.take data.length, middle.drop data.length, (take_append_drop _ _).symm,
      by rw [length_take]; omega, by rw [length_drop]; omega⟩
  rw [put_append rfl hm, ← append_assoc before old, append_assoc _ oldNext, put_append rfl ho,
    ← append_assoc, put_append (length_append ..) hn,
    ← append_assoc before]

theorem slice_put (h : start + data.length ≤ buf.length) (hlen : data.length = len) :
    slice (put buf start data) start len = some data := by
  obtain ⟨before, old, after, rfl, hb, ho⟩ := exists_append_of_le h
  rw [put_append hb ho, slice_append hb hlen]

theorem getElem?_put (h : start + data.length ≤ buf.length) (i : ℕ) : (put buf start data)[i]? =
      if start ≤ i ∧ i < start + data.length then data[i - start]? else buf[i]? := by
  obtain ⟨before, old, after, rfl, rfl, ho⟩ := exists_append_of_le h
  rw [put_append rfl ho]
  simp only [append_assoc, getElem?_append]
  split_ifs <;> first | rfl | omega | (congr 1; omega)

theorem slice_put_within (h : start + data.length ≤ buf.length) (hi : i + len ≤ data.length) :
    slice (put buf start data) (start + i) len = slice data i len := by
  obtain ⟨before, old, after, rfl, hb, ho⟩ := exists_append_of_le h
  obtain ⟨front, middle, back, rfl, hf, hm⟩ := exists_append_of_le hi
  have ha : before ++ (front ++ middle ++ back) ++ after =
      (before ++ front) ++ middle ++ (back ++ after) := by
    simp
  rw [put_append hb ho, slice_append hf hm, ha]
  exact slice_append (by rw [length_append, hb, hf]) hm

/-- A put does not change what is read elsewhere. -/
theorem slice_put_of_disjoint {other : ℕ} (h : other + data.length ≤ start ∨ start + len ≤ other) :
    slice (put buf other data) start len = slice buf start len := by
  by_cases hp : other + data.length ≤ buf.length
  · unfold slice
    rw [length_put]
    congr 2
    apply ext_getElem?
    intro i
    simp only [getElem?_take, getElem?_drop, getElem?_put hp]
    split_ifs with hi hr
    · omega
    · rfl
    · rfl
  · rw [put, if_neg hp]

/-- Putting back what was there undoes a put. -/
theorem put_put_of_slice (ho : slice buf start old.length = some old)
    (hlen : data.length = old.length) : put (put buf start data) start old = buf := by
  have hle : start + old.length ≤ buf.length := by
    by_contra hlt
    simp [slice, hlt] at ho
  obtain ⟨before, middle, after, rfl, hb, hm⟩ := exists_append_of_le hle
  rw [slice_append hb hm, some.injEq] at ho
  subst ho
  rw [put_append hb hlen.symm, put_append hb hlen]

theorem put_comm {other : ℕ} (h : start + data.length ≤ other) :
    put (put buf start data) other next = put (put buf other next) start data := by
  by_cases hn : other + next.length ≤ buf.length
  · have hd : start + data.length ≤ buf.length := by omega
    apply ext_getElem?
    intro i
    rw [getElem?_put (by rwa [length_put]), getElem?_put hd, getElem?_put (by rwa [length_put]),
      getElem?_put hn]
    split_ifs <;> first | rfl | omega
  · rw [put, length_put, if_neg hn, put.eq_def buf other, if_neg hn]

theorem slice_eq_some_iff : slice buf start len = some data ↔
    start + len ≤ buf.length ∧ data.length = len ∧ ∀ i < len, buf[start + i]? = data[i]? := by
  unfold slice
  split_ifs with h
  · simp only [some.injEq, h, true_and]
    constructor
    · rintro rfl
      refine ⟨by rw [length_take, length_drop]; omega, fun i hi => ?_⟩
      rw [getElem?_take, if_pos hi, getElem?_drop]
    · rintro ⟨hlen, hd⟩
      apply ext_getElem?
      intro i
      rw [getElem?_take, getElem?_drop]
      split_ifs with hi
      · exact hd i hi
      · rw [getElem?_eq_none (by omega)]
  · simp [h]

theorem slice_of_slice (h : slice buf start len = some data)
    (hpie : slice data i n = some piece) : slice buf (start + i) n = some piece := by
  obtain ⟨hle, hlen, hd⟩ := slice_eq_some_iff.1 h
  obtain ⟨hpi, hpc, hp⟩ := slice_eq_some_iff.1 hpie
  refine slice_eq_some_iff.2 ⟨by omega, hpc, fun j hj => ?_⟩
  rw [← hp j hj, ← hd (i + j) (by omega), add_assoc]

theorem slice_of_isPrefix (hb : before <+: buf) (h : slice before start len = some data) :
    slice buf start len = some data := by
  obtain ⟨rest, rfl⟩ := hb
  obtain ⟨hle, hlen, hd⟩ := slice_eq_some_iff.1 h
  refine slice_eq_some_iff.2 ⟨by rw [length_append]; omega, hlen, fun i hi => ?_⟩
  rw [← hd i hi, getElem?_append_left (by omega)]

theorem isPrefix_of_slice (h : slice buf 0 len = some data) : data <+: buf := by
  unfold slice at h
  split_ifs at h
  exact ⟨buf.drop len, by rw [← some.inj h, drop_zero, take_append_drop]⟩

theorem slice_take (h : slice buf start len = some data) (hn : start + len ≤ n) :
    slice (buf.take n) start len = some data := by
  obtain ⟨hle, hlen, hd⟩ := slice_eq_some_iff.1 h
  refine slice_eq_some_iff.2 ⟨by rw [length_take]; omega, hlen, fun i hi => ?_⟩
  rw [← hd i hi, getElem?_take_of_lt (by omega)]

/-- A put behind the beginning of a buffer makes the beginning longer. -/
theorem append_isPrefix_put (hb : before <+: buf) (hs : before.length = start)
    (h : start + data.length ≤ buf.length) : before ++ data <+: put buf start data := by
  subst hs
  obtain ⟨rest, rfl⟩ := hb
  rw [put, if_pos h, take_left]
  exact prefix_append _ _

/-- A range that is read in two parts. -/
theorem slice_add_eq_some {m : ℕ} (h : slice buf start (m + n) = some data) :
    ∃ first second, slice buf start m = some first ∧ slice buf (start + m) n = some second ∧
      first ++ second = data := by
  unfold slice at h
  split_ifs at h with hle
  refine ⟨(buf.drop start).take m, (buf.drop (start + m)).take n, if_pos (by omega),
    if_pos (by omega), ?_⟩
  rw [← some.inj h, take_add, drop_drop]

/-- Two ranges that meet are one. -/
theorem slice_add {m : ℕ} (hd : slice buf start m = some data)
    (hn : slice buf (start + m) n = some next) :
    slice buf start (m + n) = some (data ++ next) := by
  unfold slice at hd hn ⊢
  split_ifs at hd hn
  rw [if_pos (by omega), take_add, drop_drop, some.inj hd, some.inj hn]

theorem slice_zeros (h : start + len ≤ n) : slice (zeros n) start len = some (zeros len) := by
  rw [slice, length_zeros, if_pos h, zeros, drop_replicate, take_replicate,
    show min len (n - start) = len by omega, zeros]

/-! ## Chunks -/

/-- The first `k` pieces of `n` bytes. -/
def chunks (n : ℕ) : ℕ → Bytes → List Bytes
  | 0, _ => []
  | k + 1, buf => buf.take n :: chunks n k (buf.drop n)

variable {pieces : List Bytes}

/-- Cutting a concatenation of pieces gives the pieces back. -/
theorem chunks_flatten (h : ∀ p ∈ pieces, p.length = n) (after : Bytes) :
    chunks n pieces.length (pieces.flatten ++ after) = pieces := by
  induction pieces with
  | nil => rfl
  | cons p pieces ih =>
    obtain ⟨rfl, hp⟩ := forall_mem_cons.1 h
    simp [chunks, ih hp]

theorem chunks_append {n k l : ℕ} (h : buf.length = k * n) (after : Bytes) :
    chunks n (k + l) (buf ++ after) = chunks n k buf ++ chunks n l after := by
  induction k generalizing buf with
  | zero =>
    rw [Nat.zero_mul, length_eq_zero_iff] at h
    rw [h, Nat.zero_add]
    rfl
  | succ k ih =>
    rw [succ_mul] at h
    rw [succ_add, chunks, chunks, take_append_of_le_length (by omega),
      drop_append_of_le_length (by omega), ih (by rw [length_drop]; omega),
      cons_append]

theorem length_chunks (n k : ℕ) (buf : Bytes) : (chunks n k buf).length = k := by
  induction k generalizing buf with
  | zero => rfl
  | succ k ih => simp [chunks, ih]

theorem length_of_mem_chunks {n k : ℕ} (h : k * n ≤ buf.length) (hp : piece ∈ chunks n k buf) :
    piece.length = n := by
  induction k generalizing buf with
  | zero => exact absurd hp not_mem_nil
  | succ k ih =>
    rw [succ_mul] at h
    rcases mem_cons.1 hp with rfl | hp
    · rw [length_take]
      omega
    · refine ih ?_ hp
      rw [length_drop]
      omega

theorem flatten_chunks_append {n k : ℕ} (buf : Bytes) :
    (chunks n k buf).flatten ++ buf.drop (k * n) = buf := by
  induction k generalizing buf with
  | zero => simp [chunks]
  | succ k ih =>
    have h := ih (buf.drop n)
    rw [drop_drop, add_comm, ← succ_mul] at h
    rw [chunks, flatten_cons, append_assoc, h, take_append_drop]

theorem length_flatten_of_length (h : ∀ p ∈ pieces, p.length = n) :
    pieces.flatten.length = pieces.length * n := by
  induction pieces with
  | nil => simp
  | cons p pieces ih =>
    obtain ⟨hp, hpc⟩ := forall_mem_cons.1 h
    rw [flatten_cons, length_append, hp, ih hpc, length_cons, succ_mul, add_comm]

theorem slice_flatten_of_length (h : ∀ p ∈ pieces, p.length = n) (hpi : pieces[i]? = some piece)
    (after : Bytes) : slice (pieces.flatten ++ after) (i * n) n = some piece := by
  induction pieces generalizing i with
  | nil => cases hpi
  | cons p pieces ih =>
    obtain ⟨hp, hpc⟩ := forall_mem_cons.1 h
    rw [flatten_cons, append_assoc]
    cases i with
    | zero =>
      cases hpi
      rw [Nat.zero_mul]
      exact slice_append_left hp
    | succ i =>
      rw [succ_mul, add_comm, slice_append_right hp]
      exact ih hpc hpi

/-! ## Records -/

/-- A buffer that is cut into fields of the given widths. -/
def fields : List ℕ → Bytes → List Bytes
  | [], _ => []
  | w :: widths, buf => buf.take w :: fields widths (buf.drop w)

/-- The fields of a record are those it was put together from. -/
theorem fields_flatten {widths : List ℕ} (h : pieces.map List.length = widths) (after : Bytes) :
    fields widths (pieces.flatten ++ after) = pieces := by
  subst h
  induction pieces with
  | nil => rfl
  | cons p pieces ih => simp [fields, ih]

/-! ## Exclusive or -/

/-- Exclusive or of the bytes with those of another buffer, as far as that one goes. -/
def xorInto : Bytes → Bytes → Bytes
  | b :: bytes, c :: other => (b ^^^ c) :: xorInto bytes other
  | bytes, _ => bytes

@[simp] theorem length_xorInto : (xorInto bytes other).length = bytes.length := by
  induction bytes generalizing other with
  | nil => rfl
  | cons b bytes ih =>
    cases other with
    | nil => rfl
    | cons c other => simp [xorInto, ih]

@[simp] theorem xorInto_xorInto : xorInto (xorInto bytes other) other = bytes := by
  induction bytes generalizing other with
  | nil => rfl
  | cons b bytes ih =>
    cases other with
    | nil => rfl
    | cons c other => rw [xorInto, xorInto, ih, UInt8.xor_assoc, UInt8.xor_self, UInt8.xor_zero]

theorem xorInto_comm {bytes other : Bytes} (h : bytes.length = other.length) :
    xorInto bytes other = xorInto other bytes := by
  induction bytes generalizing other with
  | nil =>
    obtain rfl := length_eq_zero_iff.1 h.symm
    rfl
  | cons b bytes ih =>
    cases other with
    | nil => simp at h
    | cons c other =>
      rw [xorInto, xorInto, ih (succ.inj h), UInt8.xor_comm]

end Muak.Bytes
