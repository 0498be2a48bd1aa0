import Muak.Foundations.Dict
import Muak.Foundations.Run
import Mathlib.Data.List.Induction
import Mathlib.Data.List.Infix
import Mathlib.Data.List.Perm.Basic
import Mathlib.Data.String.Basic

/-!
# The journal and the status of updates

`services/provisiond/src/journal.rs` keeps a directory for each change of the configuration, named
after the time and the update; `update::status` of `update/mod.rs` looks for the directory of an
update and reports what it finds there.

* `faithful_iff`: the status is the rollback, in whatever order the directories are listed, exactly
  if all directories whose name ends like that of the update record this rollback.
* `recorded_get?`: what the journal holds after a history of changes.
* `status_faithful_iff`: which histories that means.
* `rollback_hidden`: an update and its rollback one second later.
-/

namespace Muak.Provisiond

open List Dict

/-! ## Entries -/

/-- The kind of operation that produced an entry. -/
inductive ChangeKind
  | install
  | update
  | rollback
  | prepareFailed
  deriving DecidableEq

/-- An entry of the journal. -/
structure Entry where
  timestamp : ℕ
  updateId : String
  author : String
  kind : ChangeKind
  failedVersion : Option String
  reason : Option String
  deriving DecidableEq

namespace Entry

def new (updateId author : String) (kind : ChangeKind) : Entry :=
  ⟨0, updateId, author, kind, none, none⟩

def failed (entry : Entry) (failedVersion reason : String) : Entry :=
  { entry with failedVersion := some failedVersion, reason := some reason }

end Entry

/-- The files in the directory of an entry; an `entry.toml` that cannot be parsed counts as
missing. -/
structure Record where
  entry : Option Entry
  config : Option String
  deriving DecidableEq

/-- The directories, by name. -/
abbrev Journal := Dict String Record

/-- The name of a directory: the time with leading zeros, and the update. -/
def stem (timestamp : ℕ) (updateId : String) : String :=
  String.ofList ((Nat.toDigits 10 timestamp).leftpad 20 '0') ++ "-" ++ updateId

def maxEntries : ℕ := 1000

namespace Journal

variable (journal : Journal)

/-- Remove the oldest directories, as many as are too many. -/
def prune : Journal :=
  let dirs := journal.keys
  if dirs.length ≤ maxEntries then journal
  else ((dirs.mergeSort (· ≤ ·)).take (dirs.length - maxEntries)).foldl erase journal

/-- Write an entry at the time `now`. -/
def append (entry : Entry) (config : String) (now : ℕ) : Journal :=
  prune (journal.insert (stem now entry.updateId)
    ⟨some { entry with timestamp := now }, some config⟩)

/-- The directory belongs to the update, as far as its name tells. -/
def named (updateId dir : String) : Bool := ("-" ++ updateId).toList.isSuffixOf dir.toList

/-- The first directory of the update, in the order they are listed. -/
def findEntryDir (enumeration : List String) (updateId : String) : Option String :=
  enumeration.find? (named updateId)

def readEntry (dir : String) : Option Entry :=
  (journal.get? dir).bind Record.entry

def find (enumeration : List String) (updateId : String) : Option Entry :=
  (findEntryDir enumeration updateId).bind journal.readEntry

end Journal

/-! ## The status -/

/-- The status of an update. -/
inductive UpdateStatus
  | unknown
  | pending
  | committed
  | rolledBack (reason : String)
  deriving DecidableEq

def contains (text part : String) : Bool := decide (part.toList <:+: text.toList)

/-- The status of an update, from the journal and the command line. -/
def resolveStatus (updateId : String) (entry : Option Entry) (pending : Bool) (cmdline : String) :
    UpdateStatus :=
  let running : UpdateStatus :=
    if pending then .pending
    else if contains cmdline ("muak.update_id=" ++ updateId) then .committed
    else .unknown
  match entry with
  | some entry =>
    if entry.kind = .rollback then .rolledBack (entry.reason.getD "Unknown error") else running
  | none => running

/-- The status, with the directories listed in some order. -/
def status (journal : Journal) (enumeration : List String) (updateId : String) (pending : Bool)
    (cmdline : String) : UpdateStatus :=
  resolveStatus updateId (journal.find enumeration updateId) pending cmdline

theorem resolveStatus_eq_rolledBack_iff {updateId cmdline reason : String} {entry : Option Entry}
    {pending : Bool} : resolveStatus updateId entry pending cmdline = .rolledBack reason ↔
      ∃ e, entry = some e ∧ e.kind = .rollback ∧ e.reason.getD "Unknown error" = reason := by
  unfold resolveStatus
  cases entry with
  | none =>
    split_ifs <;> simp
  | some e =>
    by_cases hk : e.kind = .rollback
    · simp [hk]
    · dsimp only
      split_ifs <;> simp [hk]

namespace Journal

variable {journal : Journal} {updateId reason : String}

/-- The status is the rollback with this reason, in whatever order the directories are listed. -/
def Faithful (journal : Journal) (updateId reason : String) : Prop :=
  ∀ enumeration : List String, enumeration.Perm journal.keys → ∀ pending cmdline,
    status journal enumeration updateId pending cmdline = .rolledBack reason

/-- The directory records a rollback with this reason. -/
def RollbackAt (journal : Journal) (reason dir : String) : Prop :=
  ∃ entry, journal.readEntry dir = some entry ∧ entry.kind = .rollback ∧
    entry.reason.getD "Unknown error" = reason

theorem status_eq_of_find {enumeration : List String} {dir : String} {pending : Bool}
    {cmdline : String} (h : findEntryDir enumeration updateId = some dir) :
    status journal enumeration updateId pending cmdline = .rolledBack reason ↔
      journal.RollbackAt reason dir := by
  rw [status, resolveStatus_eq_rolledBack_iff, find, h]
  rfl

/-- **When the status is faithful**: when there are directories with the name of the update, and all
of them record the rollback. -/
theorem faithful_iff : journal.Faithful updateId reason ↔
    (∃ dir ∈ journal.keys, named updateId dir = true) ∧
    ∀ dir ∈ journal.keys, named updateId dir = true → journal.RollbackAt reason dir := by
  constructor
  · intro h
    refine ⟨?_, fun dir hd hn => ?_⟩
    · obtain ⟨entry, he, -⟩ :=
        resolveStatus_eq_rolledBack_iff.1 (h journal.keys (List.Perm.refl _) false "")
      obtain ⟨dir, hd, -⟩ := Option.bind_eq_some_iff.1 he
      exact ⟨dir, mem_of_find?_eq_some hd, find?_some hd⟩
    · -- list this directory first
      have hp : (dir :: journal.keys.erase dir).Perm journal.keys := (perm_cons_erase hd).symm
      have hf : findEntryDir (dir :: journal.keys.erase dir) updateId = some dir := by
        simp [findEntryDir, hn]
      exact (status_eq_of_find hf).1 (h _ hp false "")
  · rintro ⟨⟨dir, hd, hn⟩, ha⟩ enumeration hp pending cmdline
    cases hf : findEntryDir enumeration updateId with
    | none =>
      have hnn := find?_eq_none.1 hf dir (hp.mem_iff.2 hd)
      exact absurd hn hnn
    | some found =>
      have hm : found ∈ journal.keys := hp.mem_iff.1 (mem_of_find?_eq_some hf)
      exact (status_eq_of_find hf).2 (ha found hm (find?_some hf))

/-! ## Histories -/

theorem prune_of_le (h : journal.keys.length ≤ maxEntries) : journal.prune = journal := by
  exact if_pos h

end Journal

/-- A change that is recorded at the time `now`. -/
structure Change where
  entry : Entry
  config : String
  now : ℕ

namespace Change

/-- The directory of the change. -/
def dir (change : Change) : String := stem change.now change.entry.updateId

def record (change : Change) : Record :=
  ⟨some { change.entry with timestamp := change.now }, some change.config⟩

/-- The change is a rollback with this reason. -/
def IsRollback (change : Change) (reason : String) : Prop :=
  change.entry.kind = .rollback ∧ change.entry.reason.getD "Unknown error" = reason

end Change

variable (history : List Change)

/-- The journal after a history of changes. -/
def recorded : Journal :=
  runFrom (fun journal change => journal.append change.entry change.config change.now)
    empty history

/-- The last change of the history that was recorded in the directory. -/
def lastAt (dir : String) : Option Change :=
  (history.filter (·.dir = dir)).getLast?

theorem lastAt_concat (change : Change) (dir : String) : lastAt (history ++ [change]) dir =
      if dir = change.dir then some change else lastAt history dir := by
  unfold lastAt
  by_cases h : dir = change.dir
  · simp [h]
  · simp [h, Ne.symm h]

/-- As long as nothing is pruned, each directory holds the last change recorded in it. -/
theorem recorded_get? {history : List Change} (h : history.length ≤ maxEntries) :
    (recorded history).keys.length ≤ history.length ∧
    ∀ dir, (recorded history).get? dir = (lastAt history dir).map Change.record := by
  induction history using reverseRecOn with
  | nil => exact ⟨Nat.le_refl 0, fun _ => rfl⟩
  | append_singleton history change ih =>
    rw [length_append, length_singleton] at h
    obtain ⟨hlen, hget⟩ := ih (by omega)
    have hi := length_keys_insert_le (recorded history) change.dir change.record
    have hr : recorded (history ++ [change]) =
        (recorded history).insert change.dir change.record := by
      unfold recorded
      rw [runFrom_append]
      exact Journal.prune_of_le (hi.trans (by omega))
    rw [hr]
    refine ⟨by rw [length_append, length_singleton]; omega, fun dir => ?_⟩
    rw [get?_insert, lastAt_concat, hget]
    split_ifs <;> rfl

theorem lastAt_isSome {history : List Change} {dir : String} :
    (∃ last, lastAt history dir = some last) ↔ ∃ change ∈ history, change.dir = dir := by
  unfold lastAt
  rw [← Option.isSome_iff_exists]
  simp

/-- All directories with the name of the update were last written by its rollback. -/
def OnlyRollbacks (updateId reason : String) : Prop :=
  (∃ change ∈ history, Journal.named updateId change.dir = true) ∧
  ∀ change ∈ history, Journal.named updateId change.dir = true →
    ∃ last, lastAt history change.dir = some last ∧ last.IsRollback reason

theorem mem_keys_recorded {history : List Change} (h : history.length ≤ maxEntries)
    {dir : String} : dir ∈ (recorded history).keys ↔ ∃ change ∈ history, change.dir = dir := by
  rw [mem_keys_iff, ← lastAt_isSome]
  simp only [(recorded_get? h).2 dir, Option.map_eq_some_iff]
  constructor
  · rintro ⟨_, last, hl, -⟩
    exact ⟨last, hl⟩
  · rintro ⟨last, hl⟩
    exact ⟨_, last, hl, rfl⟩

theorem rollbackAt_recorded {history : List Change} (h : history.length ≤ maxEntries)
    {reason dir : String} : (recorded history).RollbackAt reason dir ↔
      ∃ last, lastAt history dir = some last ∧ last.IsRollback reason := by
  unfold Journal.RollbackAt Journal.readEntry
  rw [(recorded_get? h).2 dir]
  cases lastAt history dir with
  | none => simp
  | some last => simp [Change.record, Change.IsRollback]

/-- **The status of an update after a history of changes** is its rollback, in whatever order the
directories are listed, exactly if all directories whose name ends like that of the update record
this rollback. Until there are too many changes that is so exactly if all of them were last written
by the rollback: the update itself, and changes of other updates with such a name, only at the same
time before it. -/
theorem status_faithful_iff (updateId reason : String) :
    ((recorded history).Faithful updateId reason ↔
      (∃ dir ∈ (recorded history).keys, Journal.named updateId dir = true) ∧
      ∀ dir ∈ (recorded history).keys, Journal.named updateId dir = true →
        (recorded history).RollbackAt reason dir) ∧
    (history.length ≤ maxEntries →
      ((recorded history).Faithful updateId reason ↔ OnlyRollbacks history updateId reason)) := by
  refine ⟨Journal.faithful_iff, fun h => ?_⟩
  rw [Journal.faithful_iff]
  simp only [mem_keys_recorded h, rollbackAt_recorded h]
  constructor
  · rintro ⟨⟨_, ⟨change, hc, rfl⟩, hn⟩, ha⟩
    exact ⟨⟨change, hc, hn⟩, fun change hc => ha _ ⟨change, hc, rfl⟩⟩
  · rintro ⟨⟨change, hc, hn⟩, ha⟩
    refine ⟨⟨_, ⟨change, hc, rfl⟩, hn⟩, ?_⟩
    rintro _ ⟨change, hc, rfl⟩
    exact ha change hc

/-- An update, and its rollback at the given time. -/
def revertedAt (now : ℕ) : List Change :=
  [⟨Entry.new "update-5" "a" .update, "new", 5⟩,
    ⟨(Entry.new "update-5" "system" .rollback).failed "2" "Uncommitted update reverted", "old",
      now⟩]

/-- A rollback within the second of the update takes its place. -/
theorem status_faithful_iff_same_second :
    (recorded (revertedAt 5)).Faithful "update-5" "Uncommitted update reverted" := by
  refine ((status_faithful_iff (revertedAt 5) _ _).2 (by decide)).2 ⟨?_, ?_⟩
  · exact ⟨_, mem_cons_self, by decide⟩
  · intro change hc _
    refine ⟨⟨(Entry.new "update-5" "system" .rollback).failed "2" "Uncommitted update reverted",
      "old", 5⟩, ?_, rfl, rfl⟩
    have hd : change.dir = stem 5 "update-5" := by
      rcases mem_pair.1 hc with rfl | rfl <;> rfl
    rw [hd]
    rfl

/-- **A rollback is not reported**: one second after the update, the directory of the update may be
listed first, and then the status of the update is unknown. -/
theorem rollback_hidden :
    (recorded (revertedAt 6)).find [stem 6 "update-5"] "update-5" = some ⟨6, "update-5", "system",
      .rollback, some "2", some "Uncommitted update reverted"⟩ ∧
    [stem 5 "update-5", stem 6 "update-5"].Perm (recorded (revertedAt 6)).keys ∧
    status (recorded (revertedAt 6)) [stem 5 "update-5", stem 6 "update-5"] "update-5" false "" =
      .unknown := by
  refine ⟨by decide +kernel, ?_, by decide +kernel⟩
  have hk : (recorded (revertedAt 6)).keys = [stem 5 "update-5", stem 6 "update-5"] := by
    decide +kernel
  rw [hk]

end Muak.Provisiond
