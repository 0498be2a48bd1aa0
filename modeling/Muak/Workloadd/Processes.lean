import Muak.Foundations.Run
import Muak.Workloadd.Actor

/-!
# Hypervisor processes

`handle_create`, `handle_start`, `handle_stop` and `handle_delete` of
`services/workloadd/src/actor/state.rs` with what they do on the host: a start sets up a network
device and spawns a hypervisor process on the disk of the machine, a stop sends a signal to it.

* `Host`: the actor, the live hypervisor processes and the network devices.
* `handleStart_actor`, `handleStop_actor`, `handleDelete_actor`: the machines of the actor change as
  they do in `Workloadd.step`.
* `Host.Sound`: one process for each machine, which can be stopped, and states that tell whether
  there is one.
* `hypervisors_sound`: every run is sound in which the steps of a start before the hypervisor
  succeed, a stop is carried through and ends the process, and processes do not end otherwise.
* `two_hypervisors`: with a process that takes its time to end, a stop and a start make two of them.
-/

namespace Muak.Workloadd

open List Dict

/-! ## The host -/

/-- The actor on its host. -/
structure Host where
  actor : VmActor
  /-- The live hypervisor processes, each with the machine whose disk it uses. -/
  live : List (ℕ × String)
  /-- The network devices of machines. -/
  taps : List String

/-- The processes on the disk of a machine. -/
def processesOf (live : List (ℕ × String)) (vmId : String) : List ℕ :=
  (live.filter (·.2 = vmId)).map Prod.fst

variable {live : List (ℕ × String)} (tapDevice : String → TapDevice)

theorem mem_processesOf {vmId : String} {pid : ℕ} :
    pid ∈ processesOf live vmId ↔ (pid, vmId) ∈ live := by
  simp [processesOf]

theorem processesOf_cons_of_ne {vmId other : String} (pid : ℕ) (hne : other ≠ vmId) :
    processesOf ((pid, vmId) :: live) other = processesOf live other := by
  simp [processesOf, hne.symm]

variable (live)

theorem processesOf_cons_self (vmId : String) (pid : ℕ) :
    processesOf ((pid, vmId) :: live) vmId = pid :: processesOf live vmId := by
  simp [processesOf]

theorem processesOf_filter (vmId : String) (pid : ℕ) :
    processesOf (live.filter (·.1 ≠ pid)) vmId = (processesOf live vmId).filter (· ≠ pid) := by
  simp [processesOf, filter_map, Bool.and_comm]

namespace Host

variable (h : Host)

def processes (vmId : String) : List ℕ := processesOf h.live vmId

def setVm (vmId : String) (entry : VmEntry) : Host :=
  { h with actor := { h.actor with vms := h.actor.vms.insert vmId entry } }

def addTap (name : String) : Host := { h with taps := name :: h.taps }

/-- `remove_tap`: a failure is only reported. -/
def removeTap (name : String) (removed : Bool) : Host :=
  if removed then { h with taps := h.taps.filter (· ≠ name) } else h

def spawn (pid : ℕ) (vmId : String) : Host := { h with live := (pid, vmId) :: h.live }

/-- A process ends. -/
def exit (pid : ℕ) : Host := { h with live := h.live.filter (·.1 ≠ pid) }

end Host

/-! ## The handlers -/

/-- The outcomes of a creation; errors are given by their texts. -/
structure Creating where
  subvolume : Option String
  quota : Option String
  raw : Option String
  now : ℤ
  save : Option String

/-- The outcomes of a start. -/
structure Starting where
  tap : Option String
  /-- The device is left behind by a setup that fails. -/
  leavesTap : Bool
  assets : Option String
  hypervisor : Except String ℕ
  now : ℤ
  save : Option String
  removesTap : Bool

/-- How a process is stopped. -/
inductive Signal
  | kill | term
  deriving DecidableEq

/-- The signal that a hypervisor is stopped with. -/
def stopSignal (force : Bool) : Signal := if force then .kill else .term

/-- The outcomes of a stop. -/
structure Stopping where
  signal : Option String
  /-- After the signal, the process is gone when the command ends. -/
  exits : Signal → Bool
  save : Option String
  removesTap : Bool

/-- The result after an operation. -/
def resultOf : Option String → Except String Unit
  | none => .ok ()
  | some e => .error e

namespace Host

section
variable (tapDevice : String → TapDevice) (h : Host)

/-- The entry of a new machine. -/
def newEntry (config : VmConfig) (now : ℤ) : VmEntry where
  config := { config with
    rootDiskSizeMb :=
      if config.rootDiskSizeMb = 0 then defaultDiskSizeMb else config.rootDiskSizeMb }
  state := .created
  pid := none
  tapDevice := none
  createdAt := now
  startedAt := none

/-- A machine is known once all was created. -/
def handleCreate (vmId : String) (config : VmConfig) (o : Creating) : Host × Except String Unit :=
  match o.subvolume <|> o.quota <|> o.raw <|> o.save with
  | some e => (h, .error e)
  | none => (h.setVm vmId (newEntry config o.now), .ok ())

def handleStart (vmId : String) (o : Starting) : Host × Except String Unit :=
  if ¬h.actor.kvmAvailable then
    (h, .error "KVM is not available: /dev/kvm is missing or inaccessible, cannot start VMs")
  else
    match h.actor.vms.get? vmId with
    | none => (h, .error ("VM not found: " ++ vmId))
    | some entry =>
      if entry.state = .running then (h, .error "VM is already running")
      else
        let tap := tapDevice vmId
        let starting := { entry with state := .starting }
        match o.tap with
        | some e =>
          let h := h.setVm vmId starting
          (if o.leavesTap then h.addTap tap.name else h, .error e)
        | none =>
          let tapped := { starting with tapDevice := some tap }
          match o.assets with
          | some e => ((h.addTap tap.name).setVm vmId tapped, .error e)
          | none =>
            match o.hypervisor with
            | .ok pid =>
              let running : VmEntry := { tapped with
                pid := some pid
                state := .running
                startedAt := some o.now }
              (((h.addTap tap.name).spawn pid vmId).setVm vmId running, resultOf o.save)
            | .error e =>
              let restored := { tapped with
                tapDevice := none
                state := .created }
              let h := (h.addTap tap.name).setVm vmId restored
              match o.save with
              | some e => (h, .error e)
              | none => (h.removeTap tap.name o.removesTap, .error e)

def handleStop (vmId : String) (force : Bool) (o : Stopping) : Host × Except String Unit :=
  match h.actor.vms.get? vmId with
  | none => (h, .error ("VM not found: " ++ vmId))
  | some entry =>
    if entry.state ≠ .running then (h, .error "VM is not running")
    else
      let stopped := { entry with
        tapDevice := none
        state := .stopped
        pid := none }
      let finish (h : Host) : Host × Except String Unit :=
        let h := h.setVm vmId stopped
        match entry.tapDevice, o.save with
        | some tap, none => (h.removeTap tap.name o.removesTap, .ok ())
        | _, save => (h, resultOf save)
      match entry.pid with
      | none => finish h
      | some pid =>
        match o.signal with
        | some e => (h.setVm vmId { entry with state := .stopping }, .error e)
        | none => finish (if o.exits (stopSignal force) then h.exit pid else h)

/-- The failures of the deletions of the disk and of the state file are only reported. -/
def handleDelete (vmId : String) : Host × Except String Unit :=
  match h.actor.vms.get? vmId with
  | none => (h, .error ("VM not found: " ++ vmId))
  | some entry =>
    if entry.state = .running then (h, .error "Cannot delete running VM")
    else ({ h with actor := { h.actor with vms := h.actor.vms.erase vmId } }, .ok ())

end

end Host

/-! ## Steps -/

/-- The commands and the ends of processes. -/
inductive Command
  | create (vmId : String) (config : VmConfig) (o : Creating)
  | start (vmId : String) (o : Starting)
  | stop (vmId : String) (force : Bool) (o : Stopping)
  | delete (vmId : String)
  | upload
  /-- A process ends, on its own or some time after a signal. -/
  | exit (pid : ℕ)

/-- The host after a command, and its result. -/
def Host.run (h : Host) : Command → Host × Except String Unit
  | .create vmId config o => h.handleCreate vmId config o
  | .start vmId o => h.handleStart tapDevice vmId o
  | .stop vmId force o => h.handleStop vmId force o
  | .delete vmId => h.handleDelete vmId
  | .upload => (h, .ok ())
  | .exit pid => (h.exit pid, .ok ())

def Host.step (h : Host) (c : Command) : Host :=
  (h.run tapDevice c).1

/-! ## The machines of the actor -/

/-- The outcome of an operation, without a crash. -/
def outcomeOf : Option String → Outcome
  | none => .done
  | some _ => .failed

/-- The outcome of a write; one that fails has not opened the file. -/
def writeOutcomeOf : Option String → WriteOutcome
  | none => .done
  | some _ => .failed none

/-- The outcome of the calls, without their errors. -/
def Starting.outcome (o : Starting) : StartOutcome where
  tap := outcomeOf o.tap
  assets := outcomeOf o.assets
  hypervisor := match o.hypervisor with
    | .ok pid => .started pid
    | .error _ => .failed
  now := o.now
  save := writeOutcomeOf o.save

/-- The outcome of the calls, without their errors. -/
def Stopping.outcome (o : Stopping) : StopOutcome where
  hypervisor := outcomeOf o.signal
  save := writeOutcomeOf o.save

section
variable {format : StateFormat} {tapDevice : String → TapDevice} {h : Host} {w : World}

/-- Saving a machine that does not crash keeps the actor. -/
theorem actor_save (w : World) (vmId : String) (vm : VmPersisted) (save : Option String) :
    (w.save format vmId vm (writeOutcomeOf save) id).actor = w.actor := by
  cases save <;> rfl

/-- A start changes the machines as `Workloadd.handleStart` says. -/
theorem handleStart_actor (hw : w.actor = some h.actor) (vmId : String) (o : Starting) :
    (handleStart format tapDevice w h.actor vmId o.outcome).actor =
      some (h.handleStart tapDevice vmId o).1.actor := by
  unfold handleStart Host.handleStart
  by_cases hk : h.actor.kvmAvailable
  · simp only [hk, not_true_eq_false, if_false]
    cases h.actor.vms.get? vmId with
    | none => exact hw
    | some entry =>
      by_cases hr : entry.state = .running
      · simp only [if_pos hr]
        exact hw
      · simp only [if_neg hr]
        cases ht : o.tap with
        | some e =>
          simp only [Starting.outcome, ht]
          cases o.leavesTap <;> rfl
        | none =>
          cases ha : o.assets with
          | some e =>
            simp only [Starting.outcome, ht, ha]
            rfl
          | none =>
            cases hh : o.hypervisor with
            | ok pid =>
              simp only [Starting.outcome, outcomeOf, ht, ha, hh, World.after, actor_save]
              rfl
            | error e =>
              simp only [Starting.outcome, ht, ha, hh]
              cases o.save with
              | some e => rfl
              | none => cases o.removesTap <;> rfl
  · simp only [hk]
    exact hw

theorem handleStop_actor (hw : w.actor = some h.actor) (vmId : String) (force : Bool)
    (o : Stopping) :
    (handleStop format w h.actor vmId o.outcome).actor =
      some (h.handleStop vmId force o).1.actor := by
  unfold handleStop Host.handleStop
  cases h.actor.vms.get? vmId with
  | none => exact hw
  | some entry =>
    by_cases hr : entry.state = .running
    · simp only [hr, Stopping.outcome]
      cases entry.pid with
      | none =>
        cases entry.tapDevice <;> cases o.save <;> cases o.removesTap <;> rfl
      | some pid =>
        cases o.signal with
        | some e => rfl
        | none =>
          cases entry.tapDevice <;> cases o.save <;> cases o.removesTap <;>
            cases o.exits (stopSignal force) <;> rfl
    · simp only [ne_eq, hr]
      exact hw

theorem handleDelete_actor (hw : w.actor = some h.actor) (vmId : String)
    (disk file : Option String) :
    (handleDelete w h.actor vmId ⟨outcomeOf disk, outcomeOf file⟩).actor =
      some (h.handleDelete vmId).1.actor := by
  unfold handleDelete Host.handleDelete
  cases h.actor.vms.get? vmId with
  | none => exact hw
  | some entry =>
    by_cases hr : entry.state = .running
    · simp only [if_pos hr]
      exact hw
    · simp only [if_neg hr]
      cases disk <;> cases file <;> rfl

end

/-! ## Soundness -/

/-- One process at most uses the disk of a machine, and only of a machine that is known; the machine
of a process can be stopped; and the state of a machine says whether there are a process and a
device for it. -/
structure Host.Sound (tapDevice : String → TapDevice) (h : Host) : Prop where
  one : ∀ vmId, (h.processes vmId).length ≤ 1
  known : ∀ vmId, h.processes vmId ≠ [] → vmId ∈ h.actor.vms.keys
  stoppable : ∀ vmId, ∀ pid ∈ h.processes vmId,
    ∃ entry, h.actor.vms.get? vmId = some entry ∧ entry.state = .running ∧ entry.pid = some pid
  states : ∀ vmId entry, h.actor.vms.get? vmId = some entry →
    (entry.state = .created ∨ entry.state = .stopped ∨ entry.state = .running) ∧
      (entry.state = .running ↔ h.processes vmId ≠ []) ∧
      (entry.state = .running ↔ (tapDevice vmId).name ∈ h.taps)

/-- A machine is running with its process and its device, or it is at rest without them. -/
inductive Settled (tapDevice : String → TapDevice) (h : Host) (vmId : String) (entry : VmEntry) :
    Prop
  | running (pid : ℕ) (hstate : entry.state = .running) (hpid : entry.pid = some pid)
      (hdevice : entry.tapDevice = some (tapDevice vmId)) (hprocess : h.processes vmId = [pid])
      (htap : (tapDevice vmId).name ∈ h.taps)
  | resting (hstate : entry.state = .created ∨ entry.state = .stopped)
      (hprocess : h.processes vmId = []) (htap : (tapDevice vmId).name ∉ h.taps)

/-- The invariant of orderly runs. -/
structure Consistent (tapDevice : String → TapDevice) (h : Host) : Prop where
  settled : ∀ vmId entry, h.actor.vms.get? vmId = some entry → Settled tapDevice h vmId entry
  known : ∀ vmId, vmId ∉ h.actor.vms.keys → h.processes vmId = []
  taps : ∀ name ∈ h.taps, ∃ vmId ∈ h.actor.vms.keys, (tapDevice vmId).name = name
  names : ∀ vmId ∈ h.actor.vms.keys, ∀ other ∈ h.actor.vms.keys,
    (tapDevice vmId).name = (tapDevice other).name → vmId = other
  pids : (h.live.map Prod.fst).Nodup

section
variable {tapDevice : String → TapDevice} {h h' : Host} {vmId : String} {entry : VmEntry}

theorem Consistent.sound (hc : Consistent tapDevice h) : h.Sound tapDevice := by
  have hcs : ∀ vmId, h.processes vmId = [] ∨ ∃ entry pid, h.actor.vms.get? vmId = some entry ∧
      entry.state = .running ∧ entry.pid = some pid ∧ h.processes vmId = [pid] := by
    intro vmId
    by_cases hk : vmId ∈ h.actor.vms.keys
    · obtain ⟨entry, he⟩ := mem_keys_iff.1 hk
      cases hc.settled vmId entry he with
      | running pid hs hpd hd hp ht =>
        exact .inr ⟨entry, pid, he, hs, hpd, hp⟩
      | resting hs hp ht => exact .inl hp
    · exact .inl (hc.known vmId hk)
  refine ⟨fun vmId => ?_, fun vmId hne => ?_, fun vmId pid hpd => ?_, fun vmId entry he => ?_⟩
  · rcases hcs vmId with hn | ⟨entry, pid, -, -, -, hp⟩
    · simp [hn]
    · simp [hp]
  · by_contra hu
    exact hne (hc.known vmId hu)
  · rcases hcs vmId with hn | ⟨entry, pid', he, hs, hpd', hp⟩
    · simp [hn] at hpd
    · rw [hp, mem_singleton] at hpd
      exact ⟨entry, he, hs, hpd ▸ hpd'⟩
  · cases hc.settled vmId entry he with
    | running pid hs hpd hd hp ht => simp [hs, hp, ht]
    | resting hs hp ht =>
      rcases hs with hs | hs <;> simp [hs, hp, ht]

/-- A machine that is not touched stays settled. -/
theorem Settled.congr (hs : Settled tapDevice h vmId entry)
    (hpr : h'.processes vmId = h.processes vmId)
    (ht : (tapDevice vmId).name ∈ h'.taps ↔ (tapDevice vmId).name ∈ h.taps) :
    Settled tapDevice h' vmId entry := by
  cases hs with
  | running pid hst hpd hd hp htp =>
    exact .running pid hst hpd hd (hpr.trans hp) (ht.2 htp)
  | resting hst hp htp =>
    exact .resting hst (hpr.trans hp) fun hm => htp (ht.1 hm)

/-- **One machine changes**: the other ones keep their processes and devices. -/
theorem Consistent.update (hc : Consistent tapDevice h)
    (hv : h'.actor.vms = h.actor.vms.insert vmId entry)
    (hn : ∀ other ∈ h.actor.vms.keys, (tapDevice other).name = (tapDevice vmId).name → other = vmId)
    (hp : ∀ other, other ≠ vmId → h'.processes other = h.processes other)
    (ht : ∀ name, name ≠ (tapDevice vmId).name → (name ∈ h'.taps ↔ name ∈ h.taps))
    (hpd : (h'.live.map Prod.fst).Nodup) (hs : Settled tapDevice h' vmId entry) :
    Consistent tapDevice h' := by
  have hky : ∀ {other}, other ∈ h'.actor.vms.keys ↔ other = vmId ∨ other ∈ h.actor.vms.keys := by
    intro other
    rw [hv, mem_keys_insert]
  refine ⟨fun other otherEntry ho => ?_, fun other ho => ?_, fun name hnm => ?_,
    fun a ha b hb hab => ?_, hpd⟩
  · rw [hv, get?_insert] at ho
    split_ifs at ho with heq
    · cases ho
      exact heq ▸ hs
    · refine (hc.settled other otherEntry ho).congr (hp other heq) (ht _ ?_)
      exact fun hnm => heq (hn other (mem_keys_iff.2 ⟨_, ho⟩) hnm)
  · rw [hky, not_or] at ho
    exact (hp other ho.1).trans (hc.known other ho.2)
  · by_cases heq : name = (tapDevice vmId).name
    · exact ⟨vmId, hky.2 (.inl rfl), heq.symm⟩
    · obtain ⟨other, hk, ho⟩ := hc.taps name ((ht name heq).1 hnm)
      exact ⟨other, hky.2 (.inr hk), ho⟩
  · rcases hky.1 ha with rfl | ha <;> rcases hky.1 hb with rfl | hb
    · rfl
    · exact (hn b hb hab.symm).symm
    · exact hn a ha hab
    · exact hc.names a ha b hb hab

end

/-! ## Runs -/

section
variable {tapDevice : String → TapDevice} {h : Host}

/-- What an orderly run asks of a command: a new machine has an identifier and a device name of its
own; a start that is not refused finds its device and its files, and where the hypervisor fails, the
state is saved and the device removed; a stop that is not refused delivers its signal, the process
is gone when it ends, the state is saved and the device removed; no other process ends. -/
def Host.Orderly (tapDevice : String → TapDevice) (h : Host) : Command → Prop
  | .create vmId _ _ =>
    vmId ∉ h.actor.vms.keys ∧
      ∀ other ∈ h.actor.vms.keys, (tapDevice other).name ≠ (tapDevice vmId).name
  | .start vmId o =>
    (∃ entry, h.actor.vms.get? vmId = some entry ∧ entry.state ≠ .running) →
      o.tap = none ∧ o.assets = none ∧
        match o.hypervisor with
        | .ok pid => pid ∉ h.live.map Prod.fst
        | .error _ => o.save = none ∧ o.removesTap = true
  | .stop vmId force o =>
    (∃ entry, h.actor.vms.get? vmId = some entry ∧ entry.state = .running) →
      o.signal = none ∧ o.exits (stopSignal force) = true ∧ o.save = none ∧ o.removesTap = true
  | .delete _ => True
  | .upload => True
  | .exit pid => pid ∉ h.live.map Prod.fst

section

variable (hc : Consistent tapDevice h) (vmId : String)

include hc

/-- Processes have one machine each. -/
theorem Consistent.eq_of_mem_processes {pid : ℕ} {vmId other : String}
    (hvm : pid ∈ h.processes vmId) (ho : pid ∈ h.processes other) : vmId = other :=
  congrArg Prod.snd (inj_on_of_nodup_map hc.pids (mem_processesOf.1 hvm) (mem_processesOf.1 ho) rfl)

theorem Consistent.handleCreate (config : VmConfig) (o : Creating)
    (ho : h.Orderly tapDevice (.create vmId config o)) :
    Consistent tapDevice (h.handleCreate vmId config o).1 := by
  obtain ⟨hf, hn⟩ := ho
  unfold Host.handleCreate
  split
  · exact hc
  · refine hc.update rfl (fun other hot hnm => absurd hnm (hn other hot))
      (fun _ _ => rfl) (fun _ _ => Iff.rfl) hc.pids
      (.resting (.inl rfl) (hc.known vmId hf) fun hm => ?_)
    obtain ⟨other, hot, hnm⟩ := hc.taps _ hm
    exact hn other hot hnm

theorem Consistent.handleStart (o : Starting) (hord : h.Orderly tapDevice (.start vmId o)) :
    Consistent tapDevice (h.handleStart tapDevice vmId o).1 := by
  unfold Host.handleStart
  by_cases hkv : h.actor.kvmAvailable
  · simp only [hkv]
    cases he : h.actor.vms.get? vmId with
    | none => exact hc
    | some entry =>
      by_cases hr : entry.state = .running
      · simp only [if_pos hr]
        exact hc
      · have hk : vmId ∈ h.actor.vms.keys := mem_keys_iff.2 ⟨entry, he⟩
        have hn := fun other hot => hc.names other hot vmId hk
        obtain ⟨ht, ha, hh⟩ := hord ⟨entry, he, hr⟩
        have hnn : h.processes vmId = [] := by
          cases hc.settled vmId entry he with
          | running pid hs hpd hd hp ht => exact absurd hs hr
          | resting hs hp ht => exact hp
        simp only [if_neg hr, ht, ha]
        cases ho : o.hypervisor with
        | ok pid =>
          rw [ho] at hh
          refine hc.update rfl hn (fun other hne => processesOf_cons_of_ne pid hne) ?_
            (nodup_cons.2 ⟨hh, hc.pids⟩) (.running pid rfl rfl rfl ?_ ?_)
          · intro name hne
            simp [Host.setVm, Host.spawn, Host.addTap, hne]
          · change processesOf ((pid, vmId) :: h.live) vmId = [pid]
            rw [processesOf_cons_self]
            exact congrArg (pid :: ·) hnn
          · simp [Host.setVm, Host.spawn, Host.addTap]
        | error e =>
          rw [ho] at hh
          simp only [hh.1, hh.2, Host.removeTap]
          refine hc.update rfl hn (fun other hne => rfl) ?_ hc.pids
            (.resting (.inl rfl) hnn ?_)
          · intro name hne
            simp [Host.setVm, Host.addTap, hne]
          · simp
  · simp only [hkv]
    exact hc

theorem Consistent.handleStop (force : Bool) (o : Stopping)
    (ho : h.Orderly tapDevice (.stop vmId force o)) :
    Consistent tapDevice (h.handleStop vmId force o).1 := by
  unfold Host.handleStop
  cases he : h.actor.vms.get? vmId with
  | none => exact hc
  | some entry =>
    by_cases hr : entry.state = .running
    · have hk : vmId ∈ h.actor.vms.keys := mem_keys_iff.2 ⟨entry, he⟩
      obtain ⟨hs, hex, hsv, hrm⟩ := ho ⟨entry, he, hr⟩
      cases hc.settled vmId entry he with
      | resting hst hp ht =>
        rcases hst with hst | hst <;> simp [hst] at hr
      | running pid hst hpd hd hp ht =>
        simp only [hr, hpd, hs, hex, hd, hsv, Host.removeTap, hrm]
        refine hc.update rfl (fun other hot => hc.names other hot vmId hk) ?_ ?_
          (List.Nodup.sublist (filter_sublist.map _) hc.pids)
          (.resting (.inr rfl) ?_ ?_)
        · intro other hne
          change processesOf (h.live.filter (·.1 ≠ pid)) other = processesOf h.live other
          rw [processesOf_filter, filter_eq_self]
          intro pid' hpd'
          refine decide_eq_true fun heq => hne ?_
          exact hc.eq_of_mem_processes (heq ▸ hpd') (by simp [hp])
        · intro name hne
          simp [Host.setVm, Host.exit, hne]
        · change processesOf (h.live.filter (·.1 ≠ pid)) vmId = []
          rw [processesOf_filter, show processesOf h.live vmId = [pid] from hp]
          simp
        · simp
    · simp only [ne_eq, hr]
      exact hc

theorem Consistent.handleDelete : Consistent tapDevice (h.handleDelete vmId).1 := by
  unfold Host.handleDelete
  cases he : h.actor.vms.get? vmId with
  | none => exact hc
  | some entry =>
    by_cases hr : entry.state = .running
    · simp only [if_pos hr]
      exact hc
    · simp only [if_neg hr]
      have hm : ∀ {other}, other ∈ (h.actor.vms.erase vmId).keys ↔
          other ≠ vmId ∧ other ∈ h.actor.vms.keys := by
        intro other
        rw [mem_keys_iff, mem_keys_iff, get?_erase]
        split_ifs with heq <;> simp [heq]
      -- a machine that is not running has neither a process nor a device
      obtain ⟨hnn, hn⟩ : h.processes vmId = [] ∧ (tapDevice vmId).name ∉ h.taps := by
        cases hc.settled vmId entry he with
        | running pid hs hpd hd hp ht => exact absurd hs hr
        | resting hs hp ht => exact ⟨hp, ht⟩
      refine ⟨fun other otherEntry ho => ?_, fun other ho => ?_, fun name hnm => ?_,
        fun a ha b hb => hc.names a (hm.1 ha).2 b (hm.1 hb).2, hc.pids⟩
      · rw [get?_erase] at ho
        split_ifs at ho
        exact (hc.settled other otherEntry ho).congr rfl Iff.rfl
      · by_cases heq : other = vmId
        · exact heq ▸ hnn
        · exact hc.known other fun hk => ho (hm.2 ⟨heq, hk⟩)
      · obtain ⟨other, hk, rfl⟩ := hc.taps name hnm
        exact ⟨other, hm.2 ⟨fun heq => hn (heq ▸ hnm), hk⟩, rfl⟩

/-- **Every orderly command keeps the host consistent.** -/
theorem Consistent.step (c : Command) (ho : h.Orderly tapDevice c) :
    Consistent tapDevice (h.step tapDevice c) := by
  cases c with
  | create vmId config o => exact hc.handleCreate vmId config o ho
  | start vmId o => exact hc.handleStart vmId o ho
  | stop vmId force o => exact hc.handleStop vmId force o ho
  | delete vmId => exact hc.handleDelete vmId
  | upload => exact hc
  | exit pid =>
    -- no live process ends
    have hl : h.live.filter (·.1 ≠ pid) = h.live := by
      refine filter_eq_self.2 fun process hp => decide_eq_true fun heq => ?_
      exact ho (mem_map.2 ⟨process, hp, heq⟩)
    change Consistent tapDevice { h with live := h.live.filter (·.1 ≠ pid) }
    rwa [hl]

end

/-- The host when the service starts: no processes and no devices, and the machines are at rest and
have device names of their own. -/
structure Host.Fresh (tapDevice : String → TapDevice) (h : Host) : Prop where
  live : h.live = []
  taps : h.taps = []
  states : ∀ vmId entry, h.actor.vms.get? vmId = some entry →
    entry.state = .created ∨ entry.state = .stopped
  names : ∀ vmId ∈ h.actor.vms.keys, ∀ other ∈ h.actor.vms.keys,
    (tapDevice vmId).name = (tapDevice other).name → vmId = other

theorem Host.Fresh.consistent (hf : h.Fresh tapDevice) : Consistent tapDevice h := by
  have hp : ∀ vmId, h.processes vmId = [] := by
    intro vmId
    rw [Host.processes, hf.live]
    rfl
  refine ⟨fun vmId entry he => ?_, fun vmId _ => hp vmId, ?_, hf.names, ?_⟩
  · exact .resting (hf.states vmId entry he) (hp vmId) (by simp [hf.taps])
  · simp [hf.taps]
  · simp [hf.live]

/-- **One hypervisor for each machine**: in every orderly run from the start of the service, every
state reached is sound. -/
theorem hypervisors_sound (tapDevice : String → TapDevice) (h : Host) (hfresh : h.Fresh tapDevice)
    (commands : List Command)
    (horderly : Along (Host.step tapDevice) (Host.Orderly tapDevice) h commands) :
    ∀ done, done <+: commands → (runFrom (Host.step tapDevice) h done).Sound tapDevice := by
  rintro done ⟨rest, rfl⟩
  refine (runFrom_invariant (Consistent tapDevice) (fun h c hc horderly => hc.step c horderly)
    hfresh.consistent ?_).sound
  exact horderly.of_append

end

/-! ## A stop and a start -/

/-- A machine with nothing special. -/
def plainConfig : VmConfig where
  name := "vm"
  cpus := 1
  memoryMb := 128
  kernel := ""
  initrd := ""
  cmdline := ""
  disks := []
  hypervisor := 0
  rootDiskSizeMb := 0

/-- The host of a service that has no machines yet. -/
def emptyHost : Host where
  actor := { vms := empty, pendingRestarts := [], kvmAvailable := true }
  live := []
  taps := []

/-- A start in which everything succeeds. -/
def startedAs (pid : ℕ) : Command :=
  .start "a" {
    tap := none
    leavesTap := false
    assets := none
    hypervisor := .ok pid
    now := 0
    save := none
    removesTap := true }

/-- A stop in which everything succeeds; the process may take its time to end. -/
def stoppedVm (exits : Signal → Bool) : Command :=
  .stop "a" false {
    signal := none
    exits
    save := none
    removesTap := true }

def createdVm : Command :=
  .create "a" plainConfig ⟨none, none, none, 0, none⟩

def plainTap (vmId : String) : TapDevice := ⟨"tap-" ++ vmId, "02:00:00:00:00:01"⟩

/-- Where the process ends with the stop, the machine can be started again. -/
theorem hypervisors_sound_restarted :
    let commands := [createdVm, startedAs 1, stoppedVm fun _ => true, startedAs 2]
    Along (Host.step plainTap) (Host.Orderly plainTap) emptyHost commands ∧
      (runFrom (Host.step plainTap) emptyHost commands).live = [(2, "a")] ∧
      (runFrom (Host.step plainTap) emptyHost commands).Sound plainTap := by
  intro commands
  have hf : emptyHost.Fresh plainTap :=
    ⟨rfl, rfl, fun _ _ h => by simp [emptyHost] at h, fun _ h => absurd h not_mem_nil⟩
  have ho : Along (Host.step plainTap) (Host.Orderly plainTap) emptyHost commands := by
    refine ⟨⟨not_mem_nil, fun _ h => absurd h not_mem_nil⟩, fun _ => ⟨rfl, rfl, ?_⟩,
      fun _ => ⟨rfl, rfl, rfl, rfl⟩, fun _ => ⟨rfl, rfl, ?_⟩, trivial⟩
    · decide
    · decide
  exact ⟨ho, by decide, hypervisors_sound plainTap emptyHost hf commands ho _ (prefix_refl _)⟩

/-- **Two hypervisors on one disk**: a machine is created, started, stopped and started again, every
operation succeeds, and the first process does not end at once. And deleted in place of the second
start, the machine is gone while its process lives. -/
theorem two_hypervisors :
    let slow := stoppedVm fun _ => false
    let once := [createdVm, startedAs 1, slow]
    let restarted := runFrom (Host.step plainTap) emptyHost (once ++ [startedAs 2])
    let deleted := runFrom (Host.step plainTap) emptyHost (once ++ [.delete "a"])
    (restarted.processes "a" = [2, 1] ∧ ¬ restarted.Sound plainTap) ∧
      deleted.processes "a" = [1] ∧ deleted.actor.vms.keys = [] ∧ ¬ deleted.Sound plainTap := by
  intro slow once restarted deleted
  have hp : restarted.processes "a" = [2, 1] := by decide
  have hd : deleted.processes "a" = [1] := by decide
  have hky : deleted.actor.vms.keys = [] := by decide
  refine ⟨⟨hp, fun hs => ?_⟩, hd, hky, fun hs => ?_⟩
  · have ho := hs.one "a"
    exact absurd ho (by decide)
  · have hk := hs.known "a" (by simp [hd])
    exact absurd hk not_mem_nil

end Muak.Workloadd
