import Muak.Foundations.Bytes

/-!
# Byte streams that come in pieces

A reader delivers its data in pieces of its own choosing: a read into a buffer yields at least one
byte while there are any, but not necessarily as many as would fit.

* `fill want window` reads until there are `want` bytes or no more data.
* `fill_eq`: what is read does not depend on the pieces.
* `readExact`, `copy` and `drain` read a number of bytes, at most a number of bytes, and all, and
  neither depends on the pieces.
-/

namespace Muak

open List

/-- The data still to come; the read with number `k` from now delivers at most `pieces k + 1`
bytes. -/
structure Reader where
  data : Bytes
  pieces : ℕ → ℕ

namespace Reader

variable (r : Reader) {room : ℕ}

/-- The bytes of a read into a buffer of `room` bytes, and the reader after it. -/
def read (room : ℕ) : Bytes × Reader :=
  let len := min room (r.pieces 0 + 1)
  (r.data.take len, ⟨r.data.drop len, fun k => r.pieces (k + 1)⟩)

theorem read_append (room : ℕ) : (r.read room).1 ++ (r.read room).2.data = r.data :=
  take_append_drop _ _

theorem length_read_le (room : ℕ) : (r.read room).1.length ≤ room := by
  simp only [read, length_take]
  omega

theorem read_eq_nil_iff {r : Reader} (hr : 0 < room) : (r.read room).1 = [] ↔ r.data = [] := by
  rw [read, take_eq_nil_iff]
  refine or_iff_right ?_
  omega

/-- Read until the window has `want` bytes, or there are no more. -/
def fill (want : ℕ) (window : Bytes) (r : Reader) : Bytes × Reader :=
  if window.length < want then
    if (r.read (want - window.length)).1 = [] then (window, (r.read (want - window.length)).2)
    else fill want (window ++ (r.read (want - window.length)).1) (r.read (want - window.length)).2
  else (window, r)
termination_by want - window.length
decreasing_by
  rename_i hread
  have := length_pos_iff.2 hread
  rw [length_append]
  omega

/-- **Pieces do not matter**: the window is filled from the data. -/
theorem fill_eq {want : ℕ} {window : Bytes} {r : Reader}
    (h : want ≤ window.length + r.data.length) :
    (r.fill want window).1 = (window ++ r.data).take (max window.length want) ∧
      (r.fill want window).2.data = (window ++ r.data).drop (max window.length want) := by
  induction window, r using fill.induct want with
  | case1 window r hlt hr =>
    rw [read_eq_nil_iff (by omega)] at hr
    rw [hr, length_nil] at h
    omega
  | case2 window r hlt hr ih =>
    have happend := r.read_append (want - window.length)
    have hle := r.length_read_le (want - window.length)
    have hlen := congrArg length happend
    rw [length_append] at hlen
    rw [fill, if_pos hlt, if_neg hr]
    have hf := ih (by rw [length_append]; omega)
    rw [append_assoc, happend, length_append] at hf
    rwa [show max (window.length + (r.read (want - window.length)).1.length) want =
      max window.length want by omega] at hf
  | case3 window r hge =>
    rw [fill, if_neg hge, show max window.length want = window.length by omega]
    exact ⟨take_left.symm, drop_left.symm⟩

/-- Nothing is lost between the window and the rest. -/
theorem fill_append (want : ℕ) (window : Bytes) (r : Reader) :
    (r.fill want window).1 ++ (r.fill want window).2.data = window ++ r.data := by
  induction window, r using fill.induct want with
  | case1 window r hlt hr =>
    have happend := r.read_append (want - window.length)
    rw [hr] at happend
    rw [fill, if_pos hlt, if_pos hr]
    exact congrArg _ happend
  | case2 window r hlt hr ih =>
    rw [fill, if_pos hlt, if_neg hr, ih, append_assoc, read_append]
  | case3 window r hge => rw [fill, if_neg hge]

theorem length_fill_le (want : ℕ) (window : Bytes) (r : Reader) :
    (r.fill want window).1.length ≤ max window.length want := by
  induction window, r using fill.induct want with
  | case1 window r hlt hr =>
    rw [fill, if_pos hlt, if_pos hr]
    exact Nat.le_max_left _ _
  | case2 window r hlt hr ih =>
    have hle := r.length_read_le (want - window.length)
    rw [fill, if_pos hlt, if_neg hr]
    rw [length_append] at ih
    omega
  | case3 window r hge =>
    rw [fill, if_neg hge]
    exact Nat.le_max_left _ _

/-- Exactly `n` bytes, and the reader after them. -/
def readExact (n : ℕ) : Option (Bytes × Reader) :=
  if (r.fill n []).1.length < n then none else some (r.fill n [])

theorem readExact_eq_some {r rest : Reader} {n : ℕ} {bytes : Bytes}
    (h : r.readExact n = some (bytes, rest)) : bytes.length = n ∧ bytes ++ rest.data = r.data := by
  unfold readExact at h
  split_ifs at h with hlt
  have hf := Option.some.inj h
  have hle := length_fill_le n [] r
  have happend := fill_append n [] r
  rw [hf] at hlt hle happend
  exact ⟨Nat.le_antisymm hle (Nat.le_of_not_lt hlt), happend⟩

/-- Copy at most `limit` bytes through a buffer of `room` bytes. -/
def copy (room limit : ℕ) (r : Reader) : Bytes × Reader :=
  if 0 < limit then
    if (r.read (min limit room)).1 = [] then ([], (r.read (min limit room)).2)
    else
      let rest := copy room (limit - (r.read (min limit room)).1.length) (r.read (min limit room)).2
      ((r.read (min limit room)).1 ++ rest.1, rest.2)
  else ([], r)
termination_by limit
decreasing_by
  rename_i hread
  have := length_pos_iff.2 hread
  omega

theorem copy_eq (hrm : 0 < room) (limit : ℕ) (r : Reader) :
    (r.copy room limit).1 = r.data.take limit ∧ (r.copy room limit).2.data = r.data.drop limit := by
  induction limit, r using copy.induct room with
  | case1 limit r hl hr =>
    rw [copy, if_pos hl, if_pos hr]
    have happend := r.read_append (min limit room)
    rw [read_eq_nil_iff (by omega)] at hr
    rw [hr, take_nil, drop_nil]
    rw [hr] at happend
    exact ⟨rfl, (append_eq_nil_iff.1 happend).2⟩
  | case2 limit r hl hr ih =>
    obtain ⟨ht, hd⟩ := ih
    have happend := r.read_append (min limit room)
    have hle := r.length_read_le (min limit room)
    rw [copy, if_pos hl, if_neg hr]
    generalize r.read (min limit room) = piece at ht hd happend hle
    dsimp only
    have hl : piece.1.length ≤ limit := Nat.le_trans hle (Nat.min_le_left _ _)
    rw [ht, hd, ← happend, take_append, drop_append, take_of_length_le hl, drop_of_length_le hl]
    exact ⟨rfl, rfl⟩
  | case3 limit r hl =>
    obtain rfl : limit = 0 := by omega
    rw [copy]
    exact ⟨rfl, rfl⟩

/-- Copy through a buffer of `room` bytes, which has to be positive, to the end of the data. -/
def drain (room : ℕ) (r : Reader) : Bytes :=
  if (r.read room).1 = [] then [] else (r.read room).1 ++ drain room (r.read room).2
termination_by r.data.length
decreasing_by
  rename_i hread
  have hpos := length_pos_iff.2 hread
  have happend := congrArg length (r.read_append room)
  rw [length_append] at happend
  omega

theorem drain_eq (hrm : 0 < room) (r : Reader) : r.drain room = r.data := by
  induction r using drain.induct room with
  | case1 r hr =>
    rw [drain, if_pos hr, (read_eq_nil_iff hrm).1 hr]
  | case2 r hr ih =>
    rw [drain, if_neg hr, ih, read_append]

end Reader

end Muak
