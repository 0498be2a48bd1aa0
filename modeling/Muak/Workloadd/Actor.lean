import Mathlib.Data.Int.Notation
import Muak.Foundations.Bytes
import Muak.Foundations.Dict

/-!
# Virtual machines and their state files

`services/workloadd/src/actor/state.rs` and `persistence/state.rs`: an actor that creates, starts,
stops and deletes virtual machines. Each machine has a disk, which is a subvolume, and a state file;
a new actor reads the files, and deletes the disks that belong to none of them.

* `World`: the state files, the subvolumes and the actor, if it runs. What was promised to the
  callers is recorded in `created` and `deleteCommands`.
* `Event`, `step`: the commands and the start of the service, with the outcomes of all operations on
  files. A crash may come between any two of them, and in the middle of a write.
-/

namespace Muak.Workloadd

/-! ## Machines -/

inductive VmState
  | unspecified | created | starting | running | stopping | stopped | failed
  deriving DecidableEq

def VmState.toI32 : VmState → ℤ
  | .unspecified => 0
  | .created => 1
  | .starting => 2
  | .running => 3
  | .stopping => 4
  | .stopped => 5
  | .failed => 6

def VmState.tryFrom : ℤ → Option VmState
  | 0 => some .unspecified
  | 1 => some .created
  | 2 => some .starting
  | 3 => some .running
  | 4 => some .stopping
  | 5 => some .stopped
  | 6 => some .failed
  | _ => none

structure DiskConfig where
  path : String
  readonly : Bool

structure VmConfig where
  name : String
  cpus : ℕ
  memoryMb : ℕ
  kernel : String
  initrd : String
  cmdline : String
  disks : List DiskConfig
  hypervisor : ℤ
  rootDiskSizeMb : ℕ

structure TapDevice where
  name : String
  macAddress : String

/-- A machine that the service knows. -/
structure VmEntry where
  config : VmConfig
  state : VmState
  pid : Option ℕ
  tapDevice : Option TapDevice
  createdAt : ℤ
  startedAt : Option ℤ

/-- What is in a state file. -/
structure VmPersisted where
  name : String
  cpus : ℕ
  memoryMb : ℕ
  kernel : String
  initrd : String
  cmdline : String
  disks : List DiskConfig
  hypervisor : ℤ
  rootDiskSizeMb : ℕ
  state : ℤ
  createdAt : ℤ
  startedAt : Option ℤ
  tapDevice : Option String
  macAddress : Option String

/-- What is saved of a machine. -/
def VmEntry.toPersisted (entry : VmEntry) : VmPersisted where
  name := entry.config.name
  cpus := entry.config.cpus
  memoryMb := entry.config.memoryMb
  kernel := entry.config.kernel
  initrd := entry.config.initrd
  cmdline := entry.config.cmdline
  disks := entry.config.disks
  hypervisor := entry.config.hypervisor
  rootDiskSizeMb := entry.config.rootDiskSizeMb
  state := entry.state.toI32
  createdAt := entry.createdAt
  startedAt := entry.startedAt
  tapDevice := entry.tapDevice.map TapDevice.name
  macAddress := entry.tapDevice.map TapDevice.macAddress

/-- A machine from what was saved. -/
def VmEntry.fromPersisted (persisted : VmPersisted) : VmEntry where
  config := {
    name := persisted.name
    cpus := persisted.cpus
    memoryMb := persisted.memoryMb
    kernel := persisted.kernel
    initrd := persisted.initrd
    cmdline := persisted.cmdline
    disks := persisted.disks
    hypervisor := persisted.hypervisor
    rootDiskSizeMb := persisted.rootDiskSizeMb }
  state := (VmState.tryFrom persisted.state).getD .stopped
  pid := none
  tapDevice :=
    match persisted.tapDevice, persisted.macAddress with
    | some name, some macAddress => some ⟨name, macAddress⟩
    | _, _ => none
  createdAt := persisted.createdAt
  startedAt := persisted.startedAt

/-- How state files are written and read. An empty file is not one of them. -/
structure StateFormat where
  toStringPretty : VmPersisted → Bytes
  fromStr : Bytes → Option VmPersisted
  fromStr_toStringPretty : ∀ vm, fromStr (toStringPretty vm) = some vm
  fromStr_nil : fromStr [] = none

/-! ## Outcomes of operations -/

/-- How an operation ends. A crash comes before it has done anything. -/
inductive Outcome
  | done | failed | crashed
  deriving DecidableEq

/-- How `fs::write` ends. If it opened the file then it has emptied it, and has written some bytes
at the beginning. -/
inductive WriteOutcome
  | done
  | failed (written : Option ℕ)
  | crashed (written : Option ℕ)

/-- What becomes of the calls of a creation. -/
structure CreateOutcome where
  subvolume : Outcome
  quota : Outcome
  raw : Outcome
  now : ℤ
  save : WriteOutcome

/-- What becomes of the start of a process. -/
inductive HypervisorOutcome
  | started (pid : ℕ) | failed | crashed

/-- What becomes of the calls of a start. -/
structure StartOutcome where
  tap : Outcome
  assets : Outcome
  hypervisor : HypervisorOutcome
  now : ℤ
  save : WriteOutcome

/-- What becomes of the calls of a stop. -/
structure StopOutcome where
  hypervisor : Outcome
  save : WriteOutcome

/-- What becomes of the calls of a deletion. -/
structure DeleteOutcome where
  disk : Outcome
  file : Outcome

/-- The outcomes of a start of the service. -/
structure BootOutcome where
  kvmAvailable : Bool
  autoRestart : Bool
  /-- The directory of the state files is there, and is read with all its entries. -/
  dirExists : Bool
  readDir : Bool
  /-- Reading a state file succeeds. -/
  readable : String → Bool
  /-- The directory of the subvolumes is read, and an entry is found to be a directory. -/
  readDataDir : Bool
  isDir : String → Bool
  /-- Deleting a subvolume succeeds. -/
  deletes : String → Bool

/-! ## The actor -/

/-- The state of the service. -/
structure VmActor where
  vms : Dict String VmEntry
  pendingRestarts : List String
  kvmAvailable : Bool

/-- The service and what is on the disk. -/
structure World where
  /-- The state files, by the identifiers in their names. -/
  files : Dict String Bytes
  /-- The subvolumes. -/
  disks : List String
  actor : Option VmActor
  /-- The machines whose creation was reported, and those for which a delete command was given. -/
  created : List String
  deleteCommands : List String

def World.crash (w : World) : World := { w with actor := none }

def World.setVms (w : World) (actor : VmActor) (vms : Dict String VmEntry) : World :=
  { w with actor := some { actor with vms } }

section

variable (format : StateFormat) (tapDevice : String → TapDevice) (w : World)
  (files : Dict String Bytes) (actor : VmActor) (o : BootOutcome)

/-- The state files after a write, and how it ended. -/
def saveVm (vmId : String) (vm : VmPersisted) : WriteOutcome → Dict String Bytes × Outcome
  | .done => (files.insert vmId (format.toStringPretty vm), .done)
  | .failed none => (files, .failed)
  | .failed (some n) => (files.insert vmId ((format.toStringPretty vm).take n), .failed)
  | .crashed none => (files, .crashed)
  | .crashed (some n) => (files.insert vmId ((format.toStringPretty vm).take n), .crashed)

/-- What follows a step that may fail or crash; a failure leaves the service running. -/
def World.after (outcome : Outcome) (next : World) : World :=
  match outcome with
  | .done => next
  | .failed => w
  | .crashed => w.crash

/-- What follows a write of a state file. -/
def World.save (vmId : String) (vm : VmPersisted) (o : WriteOutcome) (next : World → World) :
    World :=
  let saved := saveVm format w.files vmId vm o
  let w := { w with files := saved.1 }
  w.after saved.2 (next w)

def defaultDiskSizeMb : ℕ := 1024

/-- `handle_create`, for the new identifier. A subvolume that is there already is not created. -/
def handleCreate (vmId : String) (config : VmConfig) (o : CreateOutcome) : World :=
  if vmId ∈ w.disks then w.after (if o.subvolume = .done then .failed else o.subvolume) w
  else
    let withDisk := { w with disks := vmId :: w.disks }
    let entry : VmEntry := {
      config := { config with
        rootDiskSizeMb :=
          if config.rootDiskSizeMb = 0 then defaultDiskSizeMb else config.rootDiskSizeMb }
      state := .created
      pid := none
      tapDevice := none
      createdAt := o.now
      startedAt := none }
    w.after o.subvolume <| withDisk.after o.quota <| withDisk.after o.raw <|
      withDisk.save format vmId entry.toPersisted o.save fun w =>
        { w.setVms actor (actor.vms.insert vmId entry) with created := vmId :: w.created }

/-- `handle_start`, with the changes of the entry that remain when it fails. -/
def handleStart (vmId : String) (o : StartOutcome) : World :=
  if ¬actor.kvmAvailable then w
  else
    match actor.vms.get? vmId with
    | none => w
    | some entry =>
      if entry.state = .running then w
      else
        let set (entry : VmEntry) := w.setVms actor (actor.vms.insert vmId entry)
        let starting := { entry with state := .starting }
        let tapped := { starting with tapDevice := some (tapDevice vmId) }
        let running (pid : ℕ) : VmEntry := { tapped with
          pid := some pid
          state := .running
          startedAt := some o.now }
        let restored := { tapped with
          tapDevice := none
          state := .created }
        (set starting).after o.tap <| (set tapped).after o.assets <|
          match o.hypervisor with
          | .crashed => w.crash
          | .started pid =>
            (set (running pid)).save format vmId (running pid).toPersisted o.save id
          | .failed => (set restored).save format vmId restored.toPersisted o.save id

/-- Stop a machine that runs. -/
def handleStop (vmId : String) (o : StopOutcome) : World :=
  match actor.vms.get? vmId with
  | none => w
  | some entry =>
    if entry.state ≠ .running then w
    else
      let set (entry : VmEntry) := w.setVms actor (actor.vms.insert vmId entry)
      let stopped := { entry with
        tapDevice := none
        state := .stopped
        pid := none }
      -- only a machine with a process is stopped by its hypervisor
      (set { entry with state := .stopping }).after
        (if entry.pid.isSome then o.hypervisor else .done)
        ((set stopped).save format vmId stopped.toPersisted o.save id)

/-- `handle_delete`: the failures of the two deletions are only reported. -/
def handleDelete (vmId : String) (o : DeleteOutcome) : World :=
  let w := { w with deleteCommands := vmId :: w.deleteCommands }
  match actor.vms.get? vmId with
  | none => w
  | some entry =>
    if entry.state = .running then w
    else
      let withoutDisk :=
        if o.disk = .done then { w with disks := w.disks.filter (· ≠ vmId) } else w
      let withoutFile :=
        if o.file = .done then { withoutDisk with files := w.files.erase vmId } else withoutDisk
      if o.disk = .crashed then w.crash
      else if o.file = .crashed then withoutDisk.crash
      else withoutFile.setVms actor (actor.vms.erase vmId)

/-! ## The start of the service -/

/-- `load_vms`: a file that cannot be read is left out, and a directory that cannot be read is an
error. -/
def loadVms : Option (List (String × VmPersisted)) :=
  if ¬o.dirExists then some []
  else if ¬o.readDir then none
  else some (files.entries.filterMap fun file =>
    if o.readable file.1 then (format.fromStr file.2).map fun vm => (file.1, vm) else none)

/-- The entry of a loaded machine; one that was running is stopped. -/
def loadedEntry (vm : VmPersisted) : VmEntry :=
  let entry := VmEntry.fromPersisted vm
  if VmState.tryFrom vm.state = some .running then
    { entry with
      state := .stopped
      tapDevice := none }
  else entry

/-- The machines that were saved, and those to be started again. -/
def loadPersistedState : Dict String VmEntry × List String :=
  let persisted := ((loadVms format files o).getD []).mergeSort fun left right => left.1 ≤ right.1
  let pending := persisted.filter fun vm =>
    VmState.tryFrom vm.2.state = some .running && o.autoRestart
  (.ofList (persisted.map fun vm => (vm.1, loadedEntry vm.2)), pending.map Prod.fst)

/-- `list`: the directories whose names do not begin with a dot. -/
def listDisks (disks : List String) (o : BootOutcome) : List String :=
  if o.readDataDir then disks.filter fun name => o.isDir name && name.toList.head? ≠ some '.'
  else []

/-- `cleanup_orphaned_disks`: what is left of the subvolumes. -/
def cleanupOrphanedDisks (vms : Dict String VmEntry) (disks : List String) (o : BootOutcome) :
    List String :=
  let orphaned := (listDisks disks o).filter fun vmId => vmId ∉ vms.keys
  disks.filter fun vmId => ¬(vmId ∈ orphaned ∧ o.deletes vmId)

/-- `VmActor::new`. -/
def boot : World :=
  let (vms, pendingRestarts) := loadPersistedState format w.files o
  { w with
    disks := cleanupOrphanedDisks vms w.disks o
    actor := some { vms, pendingRestarts, kvmAvailable := o.kvmAvailable } }

/-! ## Steps -/

/-- What the service is asked for, and what happens to it. -/
inductive Event
  | boot (o : BootOutcome)
  | autoRestart (o : StartOutcome)
  | create (vmId : String) (config : VmConfig) (o : CreateOutcome)
  | start (vmId : String) (o : StartOutcome)
  | stop (vmId : String) (o : StopOutcome)
  | delete (vmId : String) (o : DeleteOutcome)
  | crash

/-- `run`: the pending restarts come before the commands. An event that cannot happen changes
nothing. -/
def step (event : Event) : World :=
  match event, w.actor with
  | .boot o, _ => boot format w o
  | .crash, _ => w.crash
  | _, none => w
  | .autoRestart o, some actor =>
    match actor.pendingRestarts with
    | [] => w
    | vmId :: rest =>
      let actor := { actor with pendingRestarts := rest }
      handleStart format tapDevice { w with actor := some actor } actor vmId o
  | .create vmId config o, some actor =>
    if actor.pendingRestarts = [] then handleCreate format w actor vmId config o else w
  | .start vmId o, some actor =>
    if actor.pendingRestarts = [] then handleStart format tapDevice w actor vmId o else w
  | .stop vmId o, some actor =>
    if actor.pendingRestarts = [] then handleStop format w actor vmId o else w
  | .delete vmId o, some actor =>
    if actor.pendingRestarts = [] then handleDelete w actor vmId o else w

end

end Muak.Workloadd
