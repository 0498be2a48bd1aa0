import Mathlib.Data.List.Sort
import Muak.Foundations.Dict
import Muak.Foundations.Run
import Muak.Granola.Notify
import Muak.Granola.Restart

/-!
# The supervisor

The event loop of `init/granola/src/supervisor/mod.rs` with the reaper (`reaper.rs`), the spawner
(`spawner.rs`), the dependency check (`dependency.rs`) and the status channel (`status.rs`),
together with the part of the system it runs in.

* `Supervisor` holds the supervisor's own data. `World` adds the kernel's table of child
  processes, the datagrams waiting in the notification socket, and two things that no code reads
  but statements do: the datagrams sent so far, and a record of every call of `spawn`.
* What the environment decides is an oracle: `clock k` is the `k`-th reading of the clock and
  `answers k` the outcome of the `k`-th call of `spawn`. Both are arbitrary; only a process id
  that is still taken is never handed out, which the kernel guarantees (`spawn`).
* `Event` lists what can happen: the branches of the event loop, and processes ending, being
  adopted and sending datagrams in between. A run is any list of events.

Log output is not modelled.
-/

namespace Muak.Granola

/-! ## The system -/

/-- How a child changed state, as `waitpid` reports it. -/
inductive WaitStatus
  | exited (code : ℤ)
  | signaled (signal : ℤ)
  | stopped (signal : ℤ)
  deriving DecidableEq

/-- Exit information of a reaped child. -/
structure ChildExit where
  pid : Pid
  exitCode : Option ℤ
  signal : Option ℤ
  deriving DecidableEq

/-- The exit that a status reports. -/
def decodeWaitStatus (pid : Pid) : WaitStatus → Option ChildExit
  | .exited code => some { pid, exitCode := some code, signal := none }
  | .signaled signal => some { pid, exitCode := none, signal := some signal }
  | .stopped _ => none

/-- A child process of the supervisor that has not been reaped. -/
structure Child where
  /-- The service it was spawned for; none for an orphan the supervisor adopted as process 1. -/
  service : Option String
  /-- The call of `spawn` that started it. Process ids are reused, these numbers are not. -/
  birth : Option ℕ
  /-- The pending state change, once there is one. -/
  ended : Option WaitStatus
  deriving DecidableEq

/-- The outcome of starting a program. -/
inductive SpawnAnswer
  /-- The program file does not exist. -/
  | missing
  /-- `fork` or `exec` failed. -/
  | failed
  /-- The child runs under this process id. -/
  | forked (pid : Pid)
  deriving DecidableEq

/-- What a call of `spawn` found: the service, the process id recorded for it, the process ids
tracked for it, its child processes, and its dependencies without a child process. -/
structure SpawnCall where
  name : String
  pid : Option Pid
  tracked : List Pid
  processes : List Pid
  idleDeps : List String
  deriving DecidableEq

/-- Live report of one service. -/
structure View where
  name : String
  status : ServiceStatus
  restarts : ℕ
  deriving DecidableEq

/-- Ordered report of every service. -/
abbrev Snapshot := List View

/-- The supervisor's data. The reaper contributes the tracked process ids, the status channel its
current value. -/
structure Supervisor where
  services : Dict String ServiceState
  knownPids : Dict Pid String
  restartQueue : RestartQueue
  status : Snapshot

/-- The supervisor and its environment. -/
structure World extends Supervisor where
  children : Dict Pid Child
  inbox : List Datagram
  sent : List Datagram
  calls : List SpawnCall
  clock : ℕ → Instant
  reads : ℕ
  answers : ℕ → SpawnAnswer

namespace World

variable (w : World) (services : Dict String ServiceState)

/-- The `i`-th of the next readings of the clock. -/
def time (i : ℕ) : Instant := w.clock (w.reads + i)

/-- The process ids of the children of a service. -/
def processes (name : String) : List Pid :=
  (w.children.entries.filter (·.2.service = some name)).map Prod.fst

/-- The process ids the reaper tracks for a service. -/
def tracked (name : String) : List Pid :=
  (w.knownPids.entries.filter (·.2 = name)).map Prod.fst

/-- What `spawn` finds when it is called for a service. -/
def spawnCall (state : ServiceState) : SpawnCall where
  name := state.service.name
  pid := state.pid
  tracked := w.tracked state.service.name
  processes := w.processes state.service.name
  idleDeps := state.service.dependsOn.filter fun dep => w.processes dep = []

/-! ## The status channel -/

/-- The reports of the services, in iteration order. -/
def views : List View :=
  services.entries.map fun e => { name := e.1, status := e.2.status, restarts := e.2.restartCount }

/-- The name-sorted snapshot of the services. The order of strings is the lexicographic one of their
code points, which for UTF-8 is the order of the bytes that the code compares. -/
def snapshotOf : Snapshot :=
  (views services).insertionSort fun left right => left.name ≤ right.name

/-- Publish the snapshot, but only when it differs from the stored one. -/
def publish : World :=
  let snapshot := snapshotOf w.services
  if w.status = snapshot then w else { w with status := snapshot }

/-! ## Spawning -/

/-- Start the program of a service: the state and process id on success. -/
def spawn (w : World) (state : ServiceState) : World × Except String (ServiceState × Pid) :=
  let answer := w.answers w.calls.length
  let birth := w.calls.length
  let w := { w with calls := w.calls ++ [w.spawnCall state] }
  match state.service.argv with
  | [] => (w, .error "command must not be empty")
  | program :: _ =>
    match answer with
    | .missing => (w, .error ("Binary not found: " ++ program))
    | .failed => (w, .error "Failed to spawn service")
    | .forked pid =>
      -- the kernel never hands out the process id of a child that has not been reaped
      if pid ∈ w.children.keys then (w, .error "Failed to spawn service")
      else
        ({ w with children := w.children.insert pid ⟨some state.service.name, some birth, none⟩ },
          .ok ({ state with pid := some pid, status := .starting }, pid))

/-- Spawn a service and track its process. -/
def spawnService (name : String) : World × Except String Unit :=
  match w.services.get? name with
  | none => (w, .error ("Service not found: " ++ name))
  | some state =>
    match w.spawn state with
    | (w, .error e) => (w, .error e)
    | (w, .ok (state, pid)) =>
      (publish { w with
        services := w.services.insert name state
        knownPids := w.knownPids.insert pid name }, .ok ())

/-- Spawn a service, scheduling a delayed retry when that fails. -/
def spawnOrLog (name : String) : World :=
  match w.spawnService name with
  | (w, .ok _) => w
  | (w, .error _) =>
    match w.services.get? name with
    | none => publish w
    | some state =>
      let (queue, state) :=
        RestartQueue.recordSpawnFailure (w.time 0) (w.time 1) w.restartQueue state
      publish { w with
        services := w.services.insert name state
        restartQueue := queue
        reads := w.reads + 2 }

/-- Whether all dependencies of a service are ready. -/
def areSatisfied (service : Service) (services : Dict String ServiceState) : Bool :=
  service.dependsOn.all fun dep =>
    match services.get? dep with
    | some state => state.status = .ready
    | none => false

/-- The pending services whose dependencies are satisfied. -/
def collectStartable : List String :=
  (services.entries.filter fun e =>
    e.2.status = .pending && areSatisfied e.2.service services).map Prod.fst

/-- Start the startable services that have no restart scheduled. -/
def startReadyServices : World :=
  ((collectStartable w.services).filter fun name =>
    !RestartQueue.isQueued w.restartQueue name).foldl spawnOrLog w

/-! ## Exits -/

/-- Record a service exit and schedule a restart or failure as needed. -/
def handleServiceExit (exit : String × ChildExit) : World :=
  match w.services.get? exit.1 with
  | none => w
  | some state =>
    let state := { state with pid := none }
    if RestartQueue.shouldRestart (w.time 0) state exit.2.exitCode then
      let (queue, state) := RestartQueue.schedule (w.time 1) (w.time 2) w.restartQueue state
      { w with
        services := w.services.insert exit.1 state
        restartQueue := queue
        reads := w.reads + 3 }
    else if exit.2.exitCode = some 0 then
      { w with services := w.services.insert exit.1 { state with status := .stopping } }
    else
      { w with services := w.services.insert exit.1 (RestartQueue.markFailed state) }

def processExits (exits : List (String × ChildExit)) : World :=
  publish (exits.foldl handleServiceExit w)

/-- One result of `waitpid`: a child that ended leaves the kernel's table, and its exit is
forwarded when its process id is tracked. -/
def reapChild (acc : World × List (String × ChildExit)) (pid : Pid) :
    World × List (String × ChildExit) :=
  match acc.1.children.get? pid with
  | none => acc
  | some child =>
    match child.ended.bind (decodeWaitStatus pid) with
    | none => acc
    | some exit =>
      let w := { acc.1 with children := acc.1.children.erase pid }
      match w.knownPids.get? pid with
      | some name => ({ w with knownPids := w.knownPids.erase pid }, acc.2 ++ [(name, exit)])
      | none => (w, acc.2)

/-- Reap children: `pids` are the successive answers of `waitpid`. -/
def reapAll (pids : List Pid) : World × List (String × ChildExit) :=
  pids.foldl reapChild (w, [])

/-! ## Notifications and restarts -/

/-- Mark a service as ready, resetting its restart counter. -/
def applyReady (serviceName : String) : World :=
  match w.services.get? serviceName with
  | none => w
  | some state =>
    { w with
      services := w.services.insert serviceName { state with status := .ready, restartCount := 0 } }

/-- Record a status update of a service. -/
def applyStatusUpdate (serviceName statusText : String) (health : Health) : World :=
  match w.services.get? serviceName with
  | none => w
  | some state =>
    if state.lastStatus = some (statusText, health) then w
    else
      let state := { state with lastStatus := some (statusText, health) }
      let state :=
        if health = .healthy then
          if state.status = .degraded then { state with status := .ready } else state
        else { state with status := .degraded }
      { w with services := w.services.insert serviceName state }

/-- Mark a service as stopping. -/
def applyStopping (serviceName : String) : World :=
  match w.services.get? serviceName with
  | none => w
  | some state =>
    { w with services := w.services.insert serviceName { state with status := .stopping } }

/-- Apply a notification to the state of the service it names. -/
def apply : ServiceNotification → World
  | .ready serviceName => w.applyReady serviceName
  | .statusUpdate serviceName statusText health => w.applyStatusUpdate serviceName statusText health
  | .stopping serviceName => w.applyStopping serviceName

/-- Apply what was received and start what is ready. -/
def processNotifications : World :=
  let (notifications, inbox) := poll w.inbox
  let w := { w with inbox }
  let w := notifications.foldl apply w
  let w := startReadyServices w
  if notifications = [] then w else publish w

/-- Whether the dependencies of the named service are ready. -/
def depsReady (name : String) : Bool :=
  match services.get? name with
  | some state => areSatisfied state.service services
  | none => false

/-- Spawn the services whose restart is due. -/
def processPendingRestarts : World :=
  let (queue, due) := RestartQueue.takeDue (w.time 0) (depsReady w.services) w.restartQueue
  due.foldl spawnOrLog { w with restartQueue := queue, reads := w.reads + 1 }

/-! ## The event loop -/

/-- The supervisor before its event loop starts. -/
def withBackends (serviceDefs : List Service) (clock : ℕ → Instant) (answers : ℕ → SpawnAnswer) :
    World where
  services := Dict.ofList (serviceDefs.map fun s => (s.name, ServiceState.new s))
  knownPids := Dict.empty
  restartQueue := []
  status := []
  children := Dict.empty
  inbox := []
  sent := []
  calls := []
  clock := clock
  reads := 0
  answers := answers

/-- What can happen next. -/
inductive Event
  /-- `SIGCHLD` arrived: the exits that `waitpid` reports are handled. -/
  | exits (pids : List Pid)
  /-- The periodic sweep for exits. -/
  | sweep (pids : List Pid)
  /-- The periodic tick. -/
  | tick
  /-- `SIGTERM` or `SIGINT`. -/
  | signal
  /-- A child changes state; the supervisor does not see it yet. -/
  | terminate (pid : Pid) (status : WaitStatus)
  /-- An orphan becomes a child of the supervisor, which is process 1. -/
  | adopt (pid : Pid)
  /-- A process sends a datagram to the notification socket. -/
  | send (datagram : Datagram)

/-- Whether the process that a call of `spawn` started is running, and so can send. Nothing is
known about other processes. -/
def canSend : Option ℕ → Bool
  | none => true
  | some birth => w.children.entries.any fun e => e.2.birth = some birth && e.2.ended = none

/-- One step: an iteration of the event loop, or something happening outside of it. -/
def step : Event → World
  | .exits pids => processExits (reapAll w pids).1 (reapAll w pids).2
  | .sweep pids =>
    if (reapAll w pids).2 = [] then (reapAll w pids).1
    else processExits (reapAll w pids).1 (reapAll w pids).2
  | .tick => processPendingRestarts (processNotifications w)
  | .signal => w
  | .terminate pid status =>
    match w.children.get? pid with
    | none => w
    | some child =>
      { w with children := w.children.insert pid { child with ended := some status } }
  | .adopt pid =>
    if pid ∈ w.children.keys then w
    else { w with children := w.children.insert pid ⟨none, none, none⟩ }
  | .send datagram =>
    if w.canSend datagram.sender then
      { w with inbox := w.inbox ++ [datagram], sent := w.sent ++ [datagram] }
    else w

/-- The start of `run`, before the first iteration. -/
def start : World := publish (startReadyServices w)

/-- The state after the event loop started and the events happened. -/
def run (events : List Event) : World := runFrom step (start w) events

end World

end Muak.Granola
