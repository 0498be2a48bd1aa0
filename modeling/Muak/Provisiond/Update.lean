import Muak.Foundations.Result
import Muak.Provisiond.Journal

/-!
# Preparing and reverting updates

`services/provisiond/src/update`: a preparation saves the configuration as a snapshot and replaces
it; the first boot that does not carry the mark of an update restores the snapshot it finds and
removes the staging directory.

* `restores_iff`: a boot restores the committed configuration, whatever file is listed first,
  exactly if all snapshots hold it.
* `keeps_iff`: a preparation keeps this exactly if it leaves a complete snapshot of the committed
  configuration, or none at all.
* `rollback_restores_iff`: so in a run of preparations a boot would restore the committed
  configuration at any time exactly if all of them do that.
* `uncommitted_restored`: after two preparations the configuration of the first may be restored.

A preparation may stop at any point, as the system crashes or a step fails. The boot is one whose
own steps do not fail.
-/

namespace Muak.Provisiond

open List Dict

/-! ## Preparations -/

/-- The configurations and their text form. -/
structure Toml (γ : Type) where
  parseFromStr : String → Except String γ
  serialize : γ → Except String String
  /-- The configuration with another `host.version`. -/
  withVersion : γ → String → γ
  /-- The first configuration with the disks of the second. -/
  withDisksOf : γ → γ → γ

/-- The files that updates touch: the configuration, the staging directory and the journal. -/
structure Disk where
  config : String
  updateDir : Dict String String
  journal : Journal

/-- What a preparation installs: another version, or another configuration. -/
inductive Target (γ : Type)
  | version (version : String)
  | config (config : γ)

/-- Where a preparation stops. -/
inductive Stop
  /-- before the file of the snapshot is created -/
  | reading
  /-- while the snapshot is written, with this many characters in the file -/
  | writing (written : ℕ)
  /-- before the journal is written -/
  | created
  /-- before the configuration is replaced, with the journal as it is then -/
  | journaling (journal : Journal)
  | done

/-- One preparation of an update. -/
structure Preparation (γ : Type) where
  target : Target γ
  author : String
  /-- the second at which the identifier is generated -/
  now : ℕ
  /-- the second at which the journal is written -/
  journaled : ℕ
  stop : Stop

def generateId (now : ℕ) : String := "update-" ++ toString now

/-- The file of a snapshot. -/
def snapshotFile (updateId : String) : String := updateId ++ ".toml"

section

variable {γ : Type} (toml : Toml γ)

/-- The text that `update_config` and `update_config_version` make of the configuration. -/
def updatedConfig (target : Target γ) (contents : String) : Except String String := do
  let config ← toml.parseFromStr contents
  match target with
  | .version version => toml.serialize (toml.withVersion config version)
  | .config new => toml.serialize (toml.withDisksOf new config)

namespace Disk

variable (disk : Disk)

/-- Write a file of the staging directory. -/
def stage (file contents : String) : Disk :=
  { disk with updateDir := disk.updateDir.insert file contents }

/-- `snapshot::create`. -/
def create (updateId : String) : Disk :=
  disk.stage (snapshotFile updateId) disk.config

/-- Record and install a configuration. -/
def install (updateId : String) (p : Preparation γ) : Disk :=
  match updatedConfig toml p.target disk.config with
  | .error _ => disk
  | .ok updated =>
    { disk with
      journal := disk.journal.append (.new updateId p.author .update) updated p.journaled
      config := updated }

/-- A preparation, up to the point where it stops. -/
def prepare (p : Preparation γ) : Disk :=
  let updateId := generateId p.now
  match p.stop with
  | .reading => disk
  | .writing written =>
    disk.stage (snapshotFile updateId) (String.ofList (disk.config.toList.take written))
  | .created => disk.create updateId
  | .journaling journal => { disk.create updateId with journal }
  | .done => (disk.create updateId).install toml updateId p

end Disk

end

/-! ## The boot -/

/-- A file that counts as a snapshot. -/
def isSnapshot (file : String) : Bool :=
  "update-".toList.isPrefixOf file.toList && ".toml".toList.isSuffixOf file.toList

/-- The first snapshot, in the order the files are listed, with its update. -/
def findPending (enumeration : List String) : Option (String × String) :=
  (enumeration.find? isSnapshot).map fun file =>
    (String.ofList (file.toList.take (file.toList.length - 5)), file)

/-- The boot with the version of the running system, at the time `now`. -/
structure Boot where
  enumeration : List String
  failedVersion : String
  now : ℕ

namespace Disk

/-- `check_and_handle_pending_validation` without the mark of an update: `snapshot::restore`, and
the staging directory is removed. -/
def revert (disk : Disk) (boot : Boot) : Disk :=
  match findPending boot.enumeration with
  | none => disk
  | some (updateId, file) =>
    match disk.updateDir.get? file with
    | none => disk
    | some contents =>
      let entry := (Entry.new updateId "system" .rollback).failed boot.failedVersion
        "Uncommitted update reverted"
      { config := contents
        journal := disk.journal.append entry contents boot.now
        updateDir := empty }

/-- A boot restores the configuration and leaves no snapshot, in whatever order the files of the
staging directory are listed. -/
def Restores (disk : Disk) (committed : String) : Prop :=
  ∀ boot : Boot, boot.enumeration.Perm disk.updateDir.keys → (disk.revert boot).config = committed ∧
    ∀ file ∈ (disk.revert boot).updateDir.keys, isSnapshot file = false

/-- All snapshots hold the configuration; without a snapshot it is the current one. -/
def Safe (disk : Disk) (committed : String) : Prop :=
  (∀ file contents, isSnapshot file = true → disk.updateDir.get? file = some contents →
    contents = committed) ∧
  ((∀ file ∈ disk.updateDir.keys, isSnapshot file = false) → disk.config = committed)

variable {disk : Disk} {committed : String}

/-- A boot that lists a snapshot first restores it. -/
theorem revert_of_find {boot : Boot} {file contents : String}
    (hf : boot.enumeration.find? isSnapshot = some file)
    (hget : disk.updateDir.get? file = some contents) :
    (disk.revert boot).config = contents ∧ (disk.revert boot).updateDir = empty := by
  unfold revert findPending
  rw [hf]
  simp [hget]

theorem revert_of_none {boot : Boot} (hf : boot.enumeration.find? isSnapshot = none) :
    disk.revert boot = disk := by
  unfold revert findPending
  rw [hf]
  rfl

/-- **When a boot restores the configuration**: when all snapshots hold it. -/
theorem restores_iff : disk.Restores committed ↔ disk.Safe committed := by
  constructor
  · intro h
    constructor
    · intro file contents hsn hget
      -- list this snapshot first
      have hm : file ∈ disk.updateDir.keys := mem_keys_iff.2 ⟨contents, hget⟩
      have hb := h ⟨file :: disk.updateDir.keys.erase file, "", 0⟩ (perm_cons_erase hm).symm
      rw [(revert_of_find (by simp [hsn]) hget).1] at hb
      exact hb.1
    · intro hn
      have hb := h ⟨disk.updateDir.keys, "", 0⟩ (List.Perm.refl _)
      rw [revert_of_none (find?_eq_none.2 fun file hfl => by simp [hn file hfl])]
        at hb
      exact hb.1
  · rintro ⟨hs, hc⟩ boot hp
    cases hf : boot.enumeration.find? isSnapshot with
    | none =>
      have hn : ∀ file ∈ disk.updateDir.keys, isSnapshot file = false := by
        intro file hfl
        simpa using find?_eq_none.1 hf file (hp.mem_iff.2 hfl)
      rw [revert_of_none hf]
      exact ⟨hc hn, hn⟩
    | some file =>
      obtain ⟨contents, hget⟩ := mem_keys_iff.1 (hp.mem_iff.1 (mem_of_find?_eq_some hf))
      obtain ⟨hr, he⟩ := revert_of_find hf hget
      rw [hr, he]
      exact ⟨hs file contents (find?_some hf) hget, fun _ hm =>
        absurd hm not_mem_nil⟩

end Disk

/-! ## Runs of preparations -/

section

variable {γ : Type} {toml : Toml γ} {disk : Disk} {committed : String} {p : Preparation γ}

/-- The text that a preparation leaves as its snapshot, if it gets as far as creating the file. -/
def Preparation.snapshot (p : Preparation γ) (disk : Disk) : Option String :=
  match p.stop with
  | .reading => none
  | .writing written => some (String.ofList (disk.config.toList.take written))
  | _ => some disk.config

/-- A preparation leaves no snapshot, or a complete one of the committed configuration. -/
def Preparation.Keeps (committed : String) (disk : Disk) (p : Preparation γ) : Prop :=
  ∀ contents, p.snapshot disk = some contents → contents = committed

theorem isSnapshot_snapshotFile (now : ℕ) : isSnapshot (snapshotFile (generateId now)) = true := by
  simp only [isSnapshot, snapshotFile, generateId, Bool.and_eq_true, isPrefixOf_iff_prefix,
    isSuffixOf_iff_suffix, String.toList_append]
  exact ⟨⟨(toString now).toList ++ ".toml".toList, by simp⟩, _, rfl⟩

namespace Disk

@[simp] theorem install_updateDir (disk : Disk) (updateId : String) (p : Preparation γ) :
    (disk.install toml updateId p).updateDir = disk.updateDir := by
  unfold install
  split <;> rfl

/-- **What a preparation does to the staging directory**: it leaves its snapshot there. -/
theorem prepare_cases (toml : Toml γ) (disk : Disk) (p : Preparation γ) :
    (p.snapshot disk = none ∧ disk.prepare toml p = disk) ∨
    ∃ contents, p.snapshot disk = some contents ∧ (disk.prepare toml p).updateDir =
      disk.updateDir.insert (snapshotFile (generateId p.now)) contents := by
  unfold prepare Preparation.snapshot
  cases p.stop with
  | reading => exact .inl ⟨rfl, rfl⟩
  | writing written => exact .inr ⟨_, rfl, rfl⟩
  | created => exact .inr ⟨_, rfl, rfl⟩
  | journaling journal => exact .inr ⟨_, rfl, rfl⟩
  | done => exact .inr ⟨_, rfl, install_updateDir _ _ _⟩

/-- **When a preparation keeps the snapshots safe.** -/
theorem keeps_iff (h : disk.Safe committed) :
    (disk.prepare toml p).Safe committed ↔ p.Keeps committed disk := by
  obtain ⟨hn, hsm⟩ | ⟨contents, hc, hd⟩ := prepare_cases toml disk p
  · rw [hsm]
    refine ⟨fun _ text ht => ?_, fun _ => h⟩
    rw [hn] at ht
    simp at ht
  · have hf := isSnapshot_snapshotFile p.now
    constructor
    · intro hsf text ht
      obtain rfl := Option.some.inj (hc.symm.trans ht)
      exact hsf.1 _ _ hf (by rw [hd, get?_insert_self])
    · intro hk
      constructor
      · intro file text hs hget
        rw [hd, get?_insert] at hget
        split_ifs at hget with heq
        · rw [← Option.some.inj hget]
          exact hk contents hc
        · exact h.1 file text hs hget
      · intro ha
        -- there is a snapshot now
        have hm : snapshotFile (generateId p.now) ∈ (disk.prepare toml p).updateDir.keys := by
          rw [mem_keys_iff, hd]
          exact ⟨contents, get?_insert_self _ _ _⟩
        rw [ha _ hm] at hf
        simp at hf

end Disk

open Disk

/-- **Reverting uncommitted updates.** In a run of preparations from a committed configuration, a
boot would restore that configuration in every state reached, whatever the order in which the
staging directory is listed, exactly if each preparation that creates the file of its snapshot finds
the committed configuration in place and writes all of it. -/
theorem rollback_restores_iff (toml : Toml γ) (start : Disk)
    (hstart : ∀ file ∈ start.updateDir.keys, isSnapshot file = false)
    (preparations : List (Preparation γ)) :
    (∀ done, done <+: preparations → (runFrom (prepare toml) start done).Restores start.config) ↔
    Along (prepare toml) (Preparation.Keeps start.config) start preparations := by
  have hsf : start.Safe start.config := by
    refine ⟨fun file contents hs hget => ?_, fun _ => rfl⟩
    rw [hstart file (mem_keys_iff.2 ⟨contents, hget⟩)] at hs
    simp at hs
  simp only [restores_iff]
  exact forall_runFrom_iff_along (Disk.Safe · start.config) (fun _ _ => keeps_iff) hsf

end

/-- Configurations that consist of their version. -/
def versions : Toml String where
  parseFromStr := .ok
  serialize := .ok
  withVersion _ version := version
  withDisksOf new _ := new

/-- A committed configuration, and nothing staged. -/
def committedDisk : Disk := ⟨"1", empty, empty⟩

/-- The complete preparation of a version. -/
def preparation (version : String) (now : ℕ) : Preparation String :=
  ⟨.version version, "a", now, now, .done⟩

/-- One preparation is reverted. -/
theorem rollback_restores_iff_once :
    (runFrom (Disk.prepare versions) committedDisk [preparation "2" 5]).Restores "1" := by
  refine (rollback_restores_iff versions committedDisk ?_ [preparation "2" 5]).2 ?_ _
    (prefix_refl _)
  · exact fun _ hm => absurd hm not_mem_nil
  · exact ⟨fun _ hc => (Option.some.inj hc).symm, trivial⟩

/-- **An uncommitted configuration is restored**: the second preparation saves what the first one
installed, and the boot finds that snapshot first. -/
theorem uncommitted_restored :
    let disk := runFrom (Disk.prepare versions) committedDisk
      [preparation "2" 5, preparation "3" 6]
    ["update-6.toml", "update-5.toml"].Perm disk.updateDir.keys ∧
    (disk.revert ⟨["update-6.toml", "update-5.toml"], "3", 7⟩).config = "2" := by
  refine ⟨?_, by decide +kernel⟩
  exact List.Perm.swap _ _ _

end Muak.Provisiond
