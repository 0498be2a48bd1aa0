import Mathlib.Logic.Function.Basic
import Muak.Foundations.Bytes

/-!
# Files and their names

A file system with open files: a name leads to a file, and a file that was opened stays the same
file when its name is removed or given to another one. A file has at most one name.

* `Files.openFile`: the file at a name, which is created if there is none.
* `Files.write`: the content of an open file is replaced.
* `Files.unlink`, `Files.rename`: changing names; a rename replaces what was at the new name.
-/

namespace Muak

open Function

/-- Files are numbered; those from `next` on do not exist. -/
structure Files (P : Type) where
  names : P → Option ℕ
  content : ℕ → Bytes
  next : ℕ
  names_lt : ∀ p i, names p = some i → i < next
  names_inj : ∀ p q i, names p = some i → names q = some i → p = q
  content_nil : ∀ i, next ≤ i → content i = []

namespace Files

variable {P : Type} (files : Files P) {names : P → Option ℕ} {file : Option ℕ}

/-- No files at all. -/
def empty : Files P where
  names _ := none
  content _ := []
  next := 0
  names_lt := nofun
  names_inj := nofun
  content_nil _ _ := rfl

/-- What is read from the file at a name. -/
def read (p : P) : Option Bytes := (files.names p).map files.content

/-- The content of a file is replaced. -/
def write (i : ℕ) (data : Bytes) : Files P where
  names := files.names
  content := if i < files.next then update files.content i data else files.content
  next := files.next
  names_lt := files.names_lt
  names_inj := files.names_inj
  content_nil j hj := by
    split_ifs with hi
    · rw [update_of_ne (by omega), files.content_nil j hj]
    · exact files.content_nil j hj

variable [DecidableEq P]

theorem update_inj {p : P} (hi : ∀ q r i, names q = some i → names r = some i → q = r)
    (hf : ∀ i q, file = some i → names q = some i → q = p) :
    ∀ q r i, update names p file q = some i → update names p file r = some i → q = r := by
  intro q r i hq hr
  by_cases hqp : q = p
  · by_cases hrp : r = p
    · rw [hqp, hrp]
    · rw [hqp, update_self] at hq
      rw [update_of_ne hrp] at hr
      exact absurd (hf i r hq hr) hrp
  · rw [update_of_ne hqp] at hq
    by_cases hrp : r = p
    · rw [hrp, update_self] at hr
      exact absurd (hf i q hr hq) hqp
    · rw [update_of_ne hrp] at hr
      exact hi q r i hq hr

theorem update_lt {p : P} {next : ℕ} (hlt : ∀ q i, names q = some i → i < next)
    (hf : ∀ i, file = some i → i < next) : ∀ q i, update names p file q = some i → i < next := by
  intro q i hq
  by_cases hqp : q = p
  · rw [hqp, update_self] at hq
    exact hf i hq
  · rw [update_of_ne hqp] at hq
    exact hlt q i hq

/-- A name is removed. -/
def unlink (p : P) : Files P where
  names := update files.names p none
  content := files.content
  next := files.next
  names_lt := update_lt files.names_lt nofun
  names_inj := update_inj files.names_inj nofun
  content_nil := files.content_nil

/-- The file at a name, which is created if there is none. -/
def openFile (p : P) : Files P × ℕ :=
  match files.names p with
  | some i => (files, i)
  | none => ({
      names := update files.names p (some files.next)
      content := files.content
      next := files.next + 1
      names_lt := update_lt (fun q i hq => Nat.lt_succ_of_lt (files.names_lt q i hq))
        (fun _ hi => Option.some.inj hi ▸ Nat.lt_succ_self _)
      names_inj := update_inj files.names_inj fun i q hi hq =>
        absurd (files.names_lt q i hq) (Option.some.inj hi ▸ Nat.lt_irrefl _)
      content_nil := fun i hi => files.content_nil i (Nat.le_of_succ_le hi) }, files.next)

/-- The file at `p` is at `q` then; there has to be one. -/
def rename (p q : P) : Option (Files P) :=
  match h : files.names p with
  | none => none
  | some i => some {
      names := update (update files.names p none) q (some i)
      content := files.content
      next := files.next
      names_lt := update_lt (update_lt files.names_lt nofun)
        (fun j hj => Option.some.inj hj ▸ files.names_lt p i h)
      names_inj := update_inj (update_inj files.names_inj nofun) (by
        intro j r hj hr
        cases hj
        by_cases hrp : r = p
        · rw [hrp, update_self] at hr
          cases hr
        · rw [update_of_ne hrp] at hr
          exact absurd (files.names_inj r p i hr h) hrp)
      content_nil := files.content_nil }

/-! ## Reading -/

section

variable {files : Files P} {p q : P} {i : ℕ} {data : Bytes}

omit [DecidableEq P] in
theorem content_write_of_ne {j : ℕ} (h : j ≠ i) :
    (files.write i data).content j = files.content j := by
  rw [write]
  dsimp only
  split_ifs
  · exact update_of_ne h _ _
  · rfl

omit [DecidableEq P] in
theorem content_write (h : files.names p = some i) : (files.write i data).content i = data := by
  rw [write]
  dsimp only
  rw [if_pos (files.names_lt p i h), update_self]

theorem content_openFile : (files.openFile p).1.content = files.content := by
  unfold openFile
  split <;> rfl

theorem names_openFile_of_ne (h : q ≠ p) : (files.openFile p).1.names q = files.names q := by
  unfold openFile
  split
  · rfl
  · exact update_of_ne h _ _

theorem names_openFile : (files.openFile p).1.names p = some (files.openFile p).2 := by
  unfold openFile
  split
  · assumption
  · exact update_self ..

/-- A file that is created is empty. -/
theorem content_openFile_of_names (h : files.names p = none) :
    files.content (files.openFile p).2 = [] := by
  unfold openFile
  split
  · rename_i i hi
    cases h.symm.trans hi
  · exact files.content_nil _ (Nat.le_refl _)

/-- A rename moves the file at a name. -/
theorem exists_rename (h : files.names p = some i) : ∃ result, files.rename p q = some result ∧
    result.content = files.content ∧
      result.names = update (update files.names p none) q (some i) := by
  unfold rename
  split
  · rename_i hp
    cases h.symm.trans hp
  · rename_i j hp
    cases h.symm.trans hp
    exact ⟨_, rfl, rfl, rfl⟩

end

end Files

end Muak
