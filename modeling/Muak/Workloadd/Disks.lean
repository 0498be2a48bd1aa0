import Mathlib.Data.Countable.Basic
import Mathlib.Logic.Equiv.List
import Muak.Foundations.Run
import Muak.Workloadd.Actor

/-!
# No disk is lost

Which steps of the service can delete the disk of a machine that was created.

* `Kept`: each machine that was created, and for which there was no delete command, has its disk.
* `Loads`: a start of the service finds the state file of a machine.
* `disks_kept_iff`: the disks are kept exactly if each start of the service loads every machine
  whose disk it could delete.
* `disk_lost`: a write of a state file that a crash interrupts makes the next start delete the disk.
-/

namespace Muak.Workloadd

open List Dict

variable {format : StateFormat} {tapDevice : String → TapDevice} {w : World} {o : BootOutcome}

/-- Each machine that was created has its disk, as long as nobody asked for its deletion. -/
def Kept (w : World) : Prop := ∀ vmId ∈ w.created, vmId ∉ w.deleteCommands → vmId ∈ w.disks

/-! ## Commands -/

/-- The disks and what has to be kept of them stay as they are. -/
structure SameDisks (w w' : World) : Prop where
  disks : w'.disks = w.disks
  created : w'.created = w.created
  deleteCommands : w'.deleteCommands = w.deleteCommands

namespace SameDisks

variable {w w' next : World} (actor : VmActor) (vms : Dict String VmEntry)

theorem rfl : SameDisks w w := ⟨.refl _, .refl _, .refl _⟩

theorem kept (h : SameDisks w w') : Kept w' ↔ Kept w := by
  rw [Kept, Kept, h.disks, h.created, h.deleteCommands]

theorem after (h : SameDisks w w') (hn : SameDisks w next) (outcome : Outcome) :
    SameDisks w (w'.after outcome next) := by
  cases outcome with
  | done => exact hn
  | failed => exact h
  | crashed => exact ⟨h.disks, h.created, h.deleteCommands⟩

theorem setVms : SameDisks w (w.setVms actor vms) :=
  ⟨.refl _, .refl _, .refl _⟩

theorem save {vmId : String} {vm : VmPersisted} {o : WriteOutcome} :
    SameDisks w ((w.setVms actor vms).save format vmId vm o id) := by
  have hs : SameDisks w { w.setVms actor vms with files := (saveVm format w.files vmId vm o).1 } :=
    ⟨.refl _, .refl _, .refl _⟩
  exact hs.after hs (saveVm format w.files vmId vm o).2

end SameDisks

theorem sameDisks_handleStart (w : World) (actor : VmActor) (vmId : String) (o : StartOutcome) :
    SameDisks w (handleStart format tapDevice w actor vmId o) := by
  unfold handleStart
  by_cases hk : ¬actor.kvmAvailable
  · rw [if_pos hk]
    exact .rfl
  rw [if_neg hk]
  cases actor.vms.get? vmId with
  | none => exact .rfl
  | some entry =>
    dsimp only
    split_ifs
    · exact .rfl
    refine .after (.setVms ..) (.after (.setVms ..) ?_ _) _
    cases o.hypervisor with
    | crashed => exact ⟨.refl _, .refl _, .refl _⟩
    | started pid => exact .save ..
    | failed => exact .save ..

theorem sameDisks_handleStop (w : World) (actor : VmActor) (vmId : String) (o : StopOutcome) :
    SameDisks w (handleStop format w actor vmId o) := by
  unfold handleStop
  cases actor.vms.get? vmId with
  | none => exact .rfl
  | some entry =>
    dsimp only
    by_cases hs : entry.state ≠ .running
    · rw [if_pos hs]
      exact .rfl
    · rw [if_neg hs]
      exact .after (.setVms ..) (.save ..) _

/-- What an event other than a start of the service does. -/
theorem step_cases {event : Event} (he : ∀ o, event ≠ .boot o) :
    SameDisks w (step format tapDevice w event) ∨
    (∃ actor vmId config o, step format tapDevice w event =
      handleCreate format w actor vmId config o) ∨
    ∃ actor vmId o, step format tapDevice w event = handleDelete w actor vmId o := by
  have hs (hstep : step format tapDevice w event = w) :
      SameDisks w (step format tapDevice w event) := hstep.symm ▸ .rfl
  cases ha : w.actor with
  | none =>
    cases event with
    | boot o => exact absurd rfl (he o)
    | crash => exact .inl ⟨rfl, rfl, rfl⟩
    | _ => exact .inl (hs (by simp [step, ha]))
  | some actor =>
    cases event with
    | boot o => exact absurd rfl (he o)
    | crash => exact .inl ⟨rfl, rfl, rfl⟩
    | autoRestart o =>
      cases hp : actor.pendingRestarts with
      | nil => exact .inl (hs (by simp [step, ha, hp]))
      | cons vmId rest =>
        simp only [step, ha, hp]
        have h := @sameDisks_handleStart format tapDevice
          { w with actor := some { actor with pendingRestarts := rest } }
          { actor with pendingRestarts := rest } vmId o
        exact .inl ⟨h.disks, h.created, h.deleteCommands⟩
    | create vmId config o =>
      by_cases hp : actor.pendingRestarts = []
      · exact .inr (.inl ⟨actor, vmId, config, o, by simp [step, ha, if_pos hp]⟩)
      · exact .inl (hs (by simp [step, ha, if_neg hp]))
    | start vmId o =>
      by_cases hp : actor.pendingRestarts = []
      · simp only [step, ha, if_pos hp]
        exact .inl (sameDisks_handleStart ..)
      · exact .inl (hs (by simp [step, ha, if_neg hp]))
    | stop vmId o =>
      by_cases hp : actor.pendingRestarts = []
      · simp only [step, ha, if_pos hp]
        exact .inl (sameDisks_handleStop ..)
      · exact .inl (hs (by simp [step, ha, if_neg hp]))
    | delete vmId o =>
      by_cases hp : actor.pendingRestarts = []
      · exact .inr (.inr ⟨actor, vmId, o, by simp [step, ha, if_pos hp]⟩)
      · exact .inl (hs (by simp [step, ha, if_neg hp]))

theorem Kept.after {w next : World} (hw : Kept w) (hn : Kept next) (outcome : Outcome) :
    Kept (w.after outcome next) := by
  cases outcome with
  | done => exact hn
  | failed => exact hw
  | crashed => exact hw

theorem Kept.handleCreate {w : World} (h : Kept w) (actor : VmActor) (vmId : String)
    (config : VmConfig) (o : CreateOutcome) : Kept (handleCreate format w actor vmId config o) := by
  unfold Workloadd.handleCreate
  by_cases hds : vmId ∈ w.disks
  · rw [if_pos hds]
    exact h.after h _
  rw [if_neg hds]
  -- the machine is reported only after its disk was created
  have hw (files : Dict String Bytes) : Kept { w with disks := vmId :: w.disks, files := files } :=
    fun id hid hd => mem_cons_of_mem _ (h id hid hd)
  refine h.after ((hw w.files).after ((hw w.files).after ((hw _).after ?_ _) _) _) _
  intro id hid hd
  rcases mem_cons.1 hid with rfl | hid
  · exact mem_cons_self
  · exact mem_cons_of_mem _ (h id hid hd)

theorem Kept.handleDelete {w : World} (h : Kept w) (actor : VmActor) (vmId : String)
    (o : DeleteOutcome) : Kept (handleDelete w actor vmId o) := by
  have hc : Kept { w with deleteCommands := vmId :: w.deleteCommands } := by
    intro id hid hd
    exact h id hid fun hm => hd (mem_cons_of_mem _ hm)
  have hdl (files : Dict String Bytes) : Kept { w with
      deleteCommands := vmId :: w.deleteCommands
      disks := w.disks.filter (· ≠ vmId)
      files := files } := by
    intro id hid hd
    have hne : id ≠ vmId := fun heq => hd (heq ▸ mem_cons_self)
    exact mem_filter.2 ⟨hc id hid hd, by simpa using hne⟩
  unfold Workloadd.handleDelete
  split
  · exact hc
  split_ifs
  all_goals first
    | exact hc
    | exact hdl w.files

/-! ## The start of the service -/

/-- The machine is among those that a start of the service loads. -/
structure Loads (format : StateFormat) (w : World) (o : BootOutcome) (vmId : String) : Prop where
  dirExists : o.dirExists
  readDir : o.readDir
  readable : o.readable vmId
  file : ∃ content vm, w.files.get? vmId = some content ∧ format.fromStr content = some vm

/-- A start of the service looks at the subvolume, and is able to delete it. -/
structure Reaches (o : BootOutcome) (vmId : String) : Prop where
  readDataDir : o.readDataDir
  isDir : o.isDir vmId
  visible : vmId.toList.head? ≠ some '.'
  deletes : o.deletes vmId

theorem mem_keys_loadPersistedState {vmId : String} :
    vmId ∈ (loadPersistedState format w.files o).1.keys ↔ Loads format w o vmId := by
  have hp : vmId ∈ (loadPersistedState format w.files o).1.keys ↔
      ∃ vm, (vmId, vm) ∈ (loadVms format w.files o).getD [] := by
    rw [loadPersistedState, mem_keys_ofList, map_map, mem_map]
    simp only [mem_mergeSort]
    constructor
    · rintro ⟨⟨id, vm⟩, hm, rfl⟩
      exact ⟨vm, hm⟩
    · rintro ⟨vm, hm⟩
      exact ⟨(vmId, vm), hm, rfl⟩
  rw [hp, loadVms]
  by_cases hd : o.dirExists
  swap
  · rw [if_pos hd]
    exact ⟨fun ⟨_, h⟩ => absurd h not_mem_nil, fun h => absurd h.dirExists hd⟩
  rw [if_neg (not_not.2 hd)]
  by_cases hrd : o.readDir
  swap
  · rw [if_pos hrd]
    exact ⟨fun ⟨_, h⟩ => absurd h not_mem_nil, fun h => absurd h.readDir hrd⟩
  rw [if_neg (not_not.2 hrd), Option.getD_some]
  simp only [mem_filterMap]
  constructor
  · rintro ⟨vm, ⟨id, content⟩, hf, hl⟩
    split_ifs at hl with hr
    obtain ⟨vm', hvm, heq⟩ := Option.map_eq_some_iff.1 hl
    cases heq
    exact ⟨hd, hrd, hr, content, vm, get?_eq_some_iff.2 hf, hvm⟩
  · rintro ⟨-, -, hr, content, vm, hf, hvm⟩
    refine ⟨vm, (vmId, content), get?_eq_some_iff.1 hf, ?_⟩
    rw [if_pos hr, hvm, Option.map_some]

theorem mem_disks_boot {vmId : String} : vmId ∈ (boot format w o).disks ↔
      vmId ∈ w.disks ∧ (Reaches o vmId → Loads format w o vmId) := by
  have hls : vmId ∈ listDisks w.disks o ↔
      vmId ∈ w.disks ∧ o.readDataDir ∧ o.isDir vmId ∧ vmId.toList.head? ≠ some '.' := by
    unfold listDisks
    split_ifs with h
    · simp [h]
    · simp [h]
  simp only [boot, cleanupOrphanedDisks, mem_filter, decide_eq_true_eq, hls,
    mem_keys_loadPersistedState]
  refine and_congr_right fun hds => ⟨fun h hr => ?_, fun h ho => ?_⟩
  · by_contra hl
    exact h ⟨⟨⟨hds, hr.readDataDir, hr.isDir, hr.visible⟩, hl⟩, hr.deletes⟩
  · obtain ⟨⟨⟨-, hrd, hdr, hv⟩, hl⟩, hd⟩ := ho
    exact hl (h ⟨hrd, hdr, hv, hd⟩)

/-! ## Histories -/

/-- A start of the service loads all machines whose disks it could delete, as far as they have to be
kept. -/
def LoadsAll (format : StateFormat) (w : World) (event : Event) : Prop :=
  match event with
  | .boot o => ∀ vmId ∈ w.created, vmId ∉ w.deleteCommands → Reaches o vmId → Loads format w o vmId
  | _ => True

/-- No command deletes the disk of another machine. -/
theorem Kept.step {w : World} (h : Kept w) {event : Event} (he : ∀ o, event ≠ .boot o) :
    Kept (step format tapDevice w event) := by
  rcases @step_cases format tapDevice w event he with
    hs | ⟨actor, vmId, config, o, hstep⟩ | ⟨actor, vmId, o, hstep⟩
  · exact hs.kept.2 h
  · rw [hstep]
    exact h.handleCreate actor vmId config o
  · rw [hstep]
    exact h.handleDelete actor vmId o

/-- A step keeps the disks exactly if it is not such a start. -/
theorem kept_step_iff (h : Kept w) (event : Event) :
    Kept (step format tapDevice w event) ↔ LoadsAll format w event := by
  cases event with
  | boot o =>
    change (∀ vmId ∈ w.created, vmId ∉ w.deleteCommands → vmId ∈ (boot format w o).disks) ↔ _
    simp only [mem_disks_boot]
    exact forall₃_congr fun vmId hc hd => and_iff_right (h vmId hc hd)
  | _ => exact iff_of_true (h.step nofun) trivial

/-- Before the first machine is created. -/
def World.initial (files : Dict String Bytes) (disks : List String) : World where
  files
  disks
  actor := none
  created := []
  deleteCommands := []

/-- **Disks are kept** in all states of a history exactly if each start of the service loads every
machine whose disk it could delete: all other steps keep them. -/
theorem disks_kept_iff (format : StateFormat) (tapDevice : String → TapDevice)
    (files : Dict String Bytes) (disks : List String) (history : List Event) :
    (∀ done, done <+: history →
      Kept (runFrom (step format tapDevice) (.initial files disks) done)) ↔
      Along (step format tapDevice) (LoadsAll format) (.initial files disks) history :=
  forall_runFrom_iff_along Kept (fun _ event h => kept_step_iff h event)
    fun _ h => absurd h not_mem_nil

/-! ## An interrupted write -/

theorem countable_string : Countable String := by
  have hc : Countable Char := Function.Injective.countable fun _ _ h =>
    Char.toNat_inj.1 h
  exact Function.Injective.countable fun _ _ h => String.toList_inj.1 h

/-- There are formats: there are no more machines than numbers. -/
theorem nonempty_stateFormat : Nonempty StateFormat := by
  have := countable_string
  have hd : Countable DiskConfig :=
    Function.Injective.countable (f := fun disk : DiskConfig => (disk.path, disk.readonly))
      fun ⟨_, _⟩ ⟨_, _⟩ h => by cases h; rfl
  have hvm : Countable VmPersisted :=
    Function.Injective.countable (f := fun vm : VmPersisted => (vm.name, vm.cpus, vm.memoryMb,
      vm.kernel, vm.initrd, vm.cmdline, vm.disks, vm.hypervisor, vm.rootDiskSizeMb, vm.state,
      vm.createdAt, vm.startedAt, vm.tapDevice, vm.macAddress))
      fun ⟨_, _, _, _, _, _, _, _, _, _, _, _, _, _⟩ ⟨_, _, _, _, _, _, _, _, _, _, _, _, _, _⟩ h =>
        by cases h; rfl
  obtain ⟨code, hc⟩ := hvm.exists_injective_nat
  classical
  refine ⟨{
    toStringPretty := fun vm => replicate (code vm + 1) 0
    fromStr := fun bytes =>
      if h : ∃ vm, bytes = replicate (code vm + 1) 0 then some h.choose else none
    fromStr_toStringPretty := fun vm => ?_
    fromStr_nil := dif_neg (by rintro ⟨vm, h⟩; cases h) }⟩
  have hex : ∃ other, replicate (code vm + 1) (0 : UInt8) =
      replicate (code other + 1) 0 := ⟨vm, rfl⟩
  have hlen := congrArg length hex.choose_spec
  rw [length_replicate, length_replicate] at hlen
  rw [dif_pos hex, hc (Nat.succ.inj hlen).symm]

/-- A start of the service at which nothing fails. -/
def BootOutcome.ok : BootOutcome where
  kvmAvailable := true
  autoRestart := false
  dirExists := true
  readDir := true
  readable _ := true
  readDataDir := true
  isDir _ := true
  deletes _ := true

/-- A machine is created and started; when its state file has just been emptied the service crashes,
and then it is started again. -/
def interruptedHistory : List Event :=
  [.boot .ok, .create "vm" ⟨"", 1, 512, "", "", "", [], 0, 1024⟩ ⟨.done, .done, .done, 0, .done⟩,
   .start "vm" ⟨.done, .done, .started 1, 0, .crashed (some 0)⟩,
   .boot .ok]

/-- The disk of that machine is deleted, although nobody asked for it. -/
theorem disk_lost : Nonempty StateFormat ∧
    ∀ (format : StateFormat) (tapDevice : String → TapDevice),
      let w := runFrom (step format tapDevice) (.initial .empty []) interruptedHistory
      "vm" ∈ w.created ∧ "vm" ∉ w.deleteCommands ∧ "vm" ∉ w.disks := by
  refine ⟨nonempty_stateFormat, fun format tapDevice => ?_⟩
  have hb : step format tapDevice (.initial .empty []) (.boot .ok) =
      { World.initial .empty [] with actor := some ⟨.empty, [], true⟩ } := by
    simp [step, boot, loadPersistedState, loadVms, World.initial, BootOutcome.ok, empty,
      ofList, cleanupOrphanedDisks]
  -- the state before the last event
  obtain ⟨w, hw⟩ : ∃ w, w = runFrom (step format tapDevice) (.initial .empty [])
    (interruptedHistory.take 3) := ⟨_, rfl⟩
  have hw' : w = runFrom (step format tapDevice)
      { World.initial .empty [] with actor := some ⟨.empty, [], true⟩ }
      ((interruptedHistory.take 3).drop 1) := by
    rw [hw, ← hb]
    rfl
  obtain ⟨hcr, hd, hf⟩ : w.created = ["vm"] ∧ w.deleteCommands = [] ∧
      w.files.get? "vm" = some [] := by
    rw [hw']
    exact ⟨rfl, rfl, rfl⟩
  have hl : runFrom (step format tapDevice) (.initial .empty []) interruptedHistory =
      boot format w .ok := by
    rw [hw]
    rfl
  rw [hl]
  refine ⟨?_, ?_, fun hds => ?_⟩
  · change "vm" ∈ w.created
    simp [hcr]
  · change "vm" ∉ w.deleteCommands
    simp [hd]
  · obtain ⟨content, vm, hc, hvm⟩ := ((mem_disks_boot.1 hds).2 ⟨rfl, rfl, by decide, rfl⟩).file
    cases hf.symm.trans hc
    cases format.fromStr_nil.symm.trans hvm

end Muak.Workloadd
