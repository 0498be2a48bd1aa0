import Mathlib.Data.List.Sort
import Muak.Foundations.BinarySearch
import Muak.Foundations.Dict
import Muak.Foundations.Watch
import Muak.Networkd.Actor
import Muak.Networkd.Slaac

/-!
# The network supervisor

`services/networkd/src/supervisor`: a loop takes one event at a time, a command, a netlink event, a
change of the primary interface or the reconcile tick, in this order of preference. The changes are
those of a watch channel of the interface's actor, of which every turn of the loop has a new
receiver.

A handler runs without interruption; what netlink and the actors answer while it runs is part of the
event. The actors' own publications come between the turns, at any time and with any snapshot.
-/

namespace Muak.Networkd.Supervisor

open Slaac (Ipv6Addr Mac)
open Dhcp (Ipv4Addr)

/-! ## Interfaces -/

/-- A valid name of an interface. -/
structure Name where
  val : String
  valid : val ≠ "" ∧ val.utf8ByteSize ≤ 15 ∧ '\x00' ∉ val.toList
  deriving DecidableEq

def Name.new (name : String) : Option Name :=
  if h : name ≠ "" ∧ name.utf8ByteSize ≤ 15 ∧ '\x00' ∉ name.toList then some ⟨name, h⟩ else none

/-- The address of version 6 of an interface. -/
structure Ipv6Config where
  address : Ipv6Addr
  prefixLen : ℕ
  gateway : Option Ipv6Addr
  dns : List Ipv6Addr

/-- The whole snapshot of an interface. -/
structure InterfaceSnapshot extends Snapshot where
  name : Name
  index : ℕ
  mac : Mac
  ipv6 : Option Ipv6Config
  l3Owner : Name

/-- An interface that was found. -/
structure Ethernet where
  name : Name
  index : ℕ
  macAddress : Mac
  linkState : LinkState

/-! ## Selection -/

/-- Names that are stable are better. -/
def scoreNaming (name : Name) : ℕ :=
  if name.val.startsWith "eno" then 500
  else if name.val.startsWith "ens" then 400
  else if name.val.startsWith "enp" then 300
  else if name.val.startsWith "end" then 200
  else if name.val.startsWith "eth" then 100
  else 50

/-- The score of an interface: its link first, then its name. -/
def scoreInterface (interface : Ethernet) : ℕ :=
  (if interface.linkState = .up then 2000 else 0) +
    (if interface.linkState ≠ .down then 1000 else 0) + scoreNaming interface.name

/-- `compare_interfaces`: the better score, then the smaller index, is greater. -/
def compareInterfaces (left right : Ethernet) : Ordering :=
  (compare (scoreInterface left) (scoreInterface right)).then (compare right.index left.index)

/-- The last of the greatest interfaces. -/
def selectPrimary : List Ethernet → Option Ethernet
  | [] => none
  | first :: rest =>
    some (rest.foldl (fun best interface =>
      if compareInterfaces best interface = .gt then best else interface) first)

/-- The other interfaces, best first. -/
def selectBackups (interfaces : List Ethernet) (primary : Name) : List Ethernet :=
  (interfaces.filter (·.name ≠ primary)).insertionSort fun left right =>
    compareInterfaces left right ≠ .lt

/-! ## Configuration -/

/-- An address of either version. -/
inductive IpAddr
  | v4 (address : Ipv4Addr)
  | v6 (address : Ipv6Addr)

/-- An address and the length of its prefix. -/
structure Cidr (α : Type) where
  address : α
  bits : ℕ

/-- The configuration of an interface for version 4. -/
structure Ipv4InterfaceConfig where
  dhcp : Bool
  addresses : List (Cidr Ipv4Addr)
  gateway : Option Ipv4Addr

/-- The configuration of an interface for version 6. -/
structure Ipv6InterfaceConfig where
  autoconf : Bool
  addresses : List (Cidr Ipv6Addr)
  gateway : Option Ipv6Addr

structure BridgeConfig where
  port : List String
  stp : Bool

inductive InterfaceKind
  | bridge
  | ethernet

structure InterfaceConfig where
  name : String
  kind : InterfaceKind
  ipv4 : Option Ipv4InterfaceConfig
  ipv6 : Option Ipv6InterfaceConfig
  bridge : Option BridgeConfig

structure Config where
  ipv6 : Bool
  dns : List IpAddr
  interfaces : List InterfaceConfig

def Config.ipv4Dns (config : Config) : List Ipv4Addr :=
  config.dns.filterMap fun
    | .v4 address => some address
    | .v6 _ => none

def Config.ipv6Dns (config : Config) : List Ipv6Addr :=
  config.dns.filterMap fun
    | .v4 _ => none
    | .v6 address => some address

/-! ## The supervisor -/

inductive NetworkState
  | uninitialized
  | initializing
  | operational
  | ready
  | degraded
  deriving DecidableEq

instance stateMachineNetworkState : StateMachine NetworkState where
  validNextStates
    | .uninitialized => [.initializing]
    | .initializing => [.operational, .degraded]
    | .operational => [.ready, .degraded]
    | .ready => [.degraded]
    | .degraded => [.initializing, .operational]

/-- What is published of the network. -/
structure NetworkSnapshot where
  state : NetworkState
  primary : Option Name
  backups : List Name
  interfaces : List InterfaceSnapshot

def NetworkSnapshot.empty : NetworkSnapshot := ⟨.uninitialized, none, [], []⟩

/-- A handle of an actor: its channel and the receiver that came with it. The actors are numbered in
the order in which they were spawned. -/
structure ActorHandle where
  actor : ℕ
  shared : Watch.Shared InterfaceSnapshot
  stateRx : Watch.Receiver

/-- The number of snapshots that the actor has published since it was spawned. -/
def ActorHandle.published (handle : ActorHandle) : ℕ := handle.shared.version

/-- `state_rx.borrow()`. -/
def ActorHandle.borrow (handle : ActorHandle) : InterfaceSnapshot := handle.shared.value

/-- For the first time or again. -/
inductive ApplyMode
  | provision
  | reconcile

/-- What the supervisor asks of an actor. -/
inductive Command
  | configureDhcp (mode : ApplyMode)
  | configureStaticIpv4 (mode : ApplyMode) (index : ℕ) (addresses : List (Cidr Ipv4Addr))
      (gateway : Option Ipv4Addr)
  | configureStaticIpv6 (mode : ApplyMode) (index : ℕ) (addresses : List (Cidr Ipv6Addr))
      (gateway : Option Ipv6Addr)
  | configureBridge (bridgeName : String) (stp : Bool)
  | configureSlaac (mode : ApplyMode)
  | linkUp
  | linkDown
  | shutdown

/-- The servers written last. -/
structure Resolver where
  v4 : List Ipv4Addr
  v6 : List Ipv6Addr

/-- The supervisor. What it publishes itself and the commands that it sends to actors are its
outputs. -/
structure NetworkSupervisor where
  config : Config
  state : NetworkSnapshot
  interfaces : Dict Name ActorHandle
  dns : Resolver
  /-- The number of actors that were spawned. -/
  spawned : ℕ
  /-- The snapshots that were published, the last one first. -/
  published : List NetworkSnapshot
  /-- The commands that were sent, the last one first. -/
  sent : List (Name × Command)

/-- What netlink and the actors answer while a handler runs. -/
structure Answers where
  discoverEthernet : Option (List Ethernet)
  /-- `probe_carriers`, by index. -/
  probeCarriers : List (ℕ × Bool)
  /-- The index, if the interface could be set up. -/
  ensureUp : Name → Option ℕ
  /-- The bridge was ensured to have the port, and this is its index. -/
  ensureBridge : Name → Name → Option ℕ
  /-- The port has become `Configured`. -/
  waitForConfigured : Name → Bool
  /-- The reply of a port to `ConfigureBridge`. -/
  bridgeReply : Name → String → Option InterfaceSnapshot

/-- Every request fails. -/
def Answers.nothing : Answers :=
  ⟨none, [], fun _ => none, fun _ _ => none, fun _ => false, fun _ _ => none⟩

/-- What the supervisor is asked for. -/
inductive SupervisorCommand
  | initializeNetwork
  | reconcile

/-- Why the network is not initialized. -/
inductive InitializeError
  | transition (error : InvalidTransition NetworkState)
  | discovery
  | noInterfaces
  | noCarrier
  | emptySelection

/-- `netlib::monitor::Event`. -/
inductive NetlinkEvent
  | up (name : Name)
  | down (name : Name)
  | added (name : Name) (index : ℕ) (mac : Mac)
  | deleted (name : Name)

/-- What the supervisor waits for. -/
inductive SupervisorEvent
  | command (cmd : SupervisorCommand)
  | netlink (event : NetlinkEvent)
  | primaryChanged
  | reconcileTick

namespace NetworkSupervisor

def new (config : Config) : NetworkSupervisor :=
  ⟨config, .empty, .empty, ⟨[], []⟩, 0, [], []⟩

variable (s : NetworkSupervisor) (answers : Answers) (name : Name) (mode : ApplyMode)
  (found : List Ethernet) (cfg : BridgeConfig)

/-! ### State and DNS -/

/-- A step of the state of the network. -/
def transition (target : NetworkState) :
    Except (InvalidTransition NetworkState) NetworkSupervisor :=
  (Networkd.transition s.state.state target).map fun state =>
    { s with state := { s.state with state } }

def publishState : NetworkSupervisor := { s with published := s.state :: s.published }

/-- A transition that is published, or logged when it is not valid. -/
def transitionAndPublish (target : NetworkState) : NetworkSupervisor :=
  match s.transition target with
  | .ok s => s.publishState
  | .error _ => s

/-- The handle of the primary interface. -/
def primaryHandle : Option ActorHandle := s.state.primary.bind s.interfaces.get?

/-- The servers of an interface, or the configured ones. -/
def collectDns (handle : ActorHandle) : List Ipv4Addr × List Ipv6Addr :=
  let snap := handle.borrow
  (match snap.ip.filter (·.dns ≠ []) with
    | some ip => ip.dns
    | none => s.config.ipv4Dns,
   match snap.ipv6.filter (·.dns ≠ []) with
    | some ip => ip.dns
    | none => s.config.ipv6Dns)

/-- The servers of the primary interface, if they changed. -/
def flushDns : NetworkSupervisor :=
  match s.primaryHandle with
  | none => s
  | some handle =>
    let (v4, v6) := s.collectDns handle
    if s.dns.v4 = v4 ∧ s.dns.v6 = v6 then s else { s with dns := ⟨v4, v6⟩ }

/-- Take over what the actors published, and publish it. -/
def syncAndPublish : NetworkSupervisor :=
  ({ s with state.interfaces := s.interfaces.entries.map fun entry => entry.2.borrow } :
    NetworkSupervisor).flushDns.publishState

/-! ### Actors -/

def spawnInterfaceActor (snapshot : InterfaceSnapshot) : NetworkSupervisor :=
  let (shared, stateRx) := Watch.channel snapshot
  { s with
    interfaces := s.interfaces.insert snapshot.name ⟨s.spawned, shared, stateRx⟩
    spawned := s.spawned + 1 }

def sendToInterface (cmd : Command) : NetworkSupervisor :=
  if name ∈ s.interfaces.keys then { s with sent := (name, cmd) :: s.sent } else s

/-- An interface is forgotten, and its actor shut down. -/
def removeActor : NetworkSupervisor :=
  let s := s.sendToInterface name .shutdown
  { s with interfaces := s.interfaces.erase name }

/-! ### Failover -/

def isInterfaceConfigured : Bool :=
  (s.interfaces.get? name).any fun handle => handle.borrow.state = .configured

def isPrimaryFailed : Bool := s.primaryHandle.any fun handle => handle.borrow.state = .failed

/-- `try_failover_to_backup`: the first backup that is configured, or else the first, takes over. -/
def tryFailoverToBackup (failed : Name) : NetworkSupervisor :=
  match (s.state.backups.find? s.isInterfaceConfigured).or s.state.backups.head? with
  | none => s
  | some newPrimary =>
    let s := { s with
      state.backups := s.state.backups.filter (· ≠ newPrimary) ++ [failed]
      state.primary := some newPrimary }
    let s :=
      if s.isInterfaceConfigured newPrimary then s
      else s.sendToInterface newPrimary (.configureDhcp .provision)
    s.transitionAndPublish .operational

def handlePrimaryFailure : NetworkSupervisor :=
  (s.transitionAndPublish .degraded).tryFailoverToBackup name

/-- A backup that is up takes over from a primary that is not configured. -/
def handleBackupRecovery (recovered : Name) : NetworkSupervisor :=
  match s.state.primary with
  | none => s
  | some currentPrimary =>
    if s.isInterfaceConfigured currentPrimary then s
    else
      ({ s with
        state.backups := s.state.backups.filter (· ≠ recovered) ++ [currentPrimary]
        state.primary := some recovered } : NetworkSupervisor).transitionAndPublish .operational

/-- The first backup becomes the primary interface. -/
def handlePrimaryRemoved : NetworkSupervisor :=
  match s.state.backups with
  | newPrimary :: _ =>
    { s with
      state.primary := some newPrimary
      state.backups := s.state.backups.filter (· ≠ newPrimary) }
  | [] =>
    let s := { s with state.primary := none }
    match s.transition .degraded with
    | .ok s => s
    | .error _ => s

/-- Give up a primary interface that failed. -/
def maybeFailoverPrimary : NetworkSupervisor :=
  if s.isPrimaryFailed then
    match s.state.primary with
    | none => s
    | some primary => s.handlePrimaryFailure primary
  else s

/-! ### Netlink events -/

def onLinkUp : NetworkSupervisor :=
  let s := s.sendToInterface name .linkUp
  if s.state.primary = some name then s.transitionAndPublish .operational
  else if name ∈ s.state.backups then s.handleBackupRecovery name
  else s

def onLinkDown : NetworkSupervisor :=
  let s := s.sendToInterface name .linkDown
  if s.state.primary = some name then s.handlePrimaryFailure name else s

/-- The snapshot of an interface that was just found. -/
def discovered (name : Name) (index : ℕ) (mac : Mac) (link : LinkState) : InterfaceSnapshot where
  state := .discovered
  link := link
  ip := none
  lease := none
  dhcpState := none
  name := name
  index := index
  mac := mac
  ipv6 := none
  l3Owner := name

/-- The place of a name in the list is searched as if the list was sorted by names. -/
def onLinkAdded (index : ℕ) (mac : Mac) : NetworkSupervisor :=
  if name ∈ s.interfaces.keys then s
  else
    let s := s.spawnInterfaceActor (discovered name index mac .up)
    let s :=
      match s.state.primary with
      | none => { s with state.primary := some name }
      | some _ =>
        let pos := partitionPoint
          (fun i => (s.state.backups[i]?).any fun existing : Name => existing.val < name.val)
          s.state.backups.length
        { s with state.backups := s.state.backups.insertIdx pos name }
    s.syncAndPublish

def onLinkDeleted : NetworkSupervisor :=
  if name ∉ s.interfaces.keys then s
  else
    let s := s.removeActor name
    let s :=
      if s.state.primary = some name then s.handlePrimaryRemoved
      else { s with state.backups := s.state.backups.filter (· ≠ name) }
    s.syncAndPublish

def handleEvent : NetlinkEvent → NetworkSupervisor
  | .up name => s.onLinkUp name
  | .down name => s.onLinkDown name
  | .added name index mac => s.onLinkAdded name index mac
  | .deleted name => s.onLinkDeleted name

/-! ### Provisioning

An error ends the work on an interface and is logged. -/

/-- `resolve_name`. -/
def resolveName (name : String) : Option Name :=
  s.state.primary.bind fun primary => if name = "auto" then some primary else Name.new name

/-- `bridge_port_handle`: the first port counts, and the primary interface without one. -/
def bridgePort : Option Name := do
  let primary ← s.state.primary
  let port ←
    match cfg.port with
    | [] => some primary
    | port :: _ => if port = "auto" then some primary else Name.new port
  if port ∈ s.interfaces.keys then some port else none

/-- DHCP, or else the static addresses. -/
def configureIpv4 (name : Name) (index : ℕ) (cfg : Ipv4InterfaceConfig) : NetworkSupervisor :=
  if cfg.dhcp then s.sendToInterface name (.configureDhcp mode)
  else if cfg.addresses.isEmpty then s
  else s.sendToInterface name (.configureStaticIpv4 mode index cfg.addresses cfg.gateway)

/-- Fixed addresses, or automatic ones. -/
def configureIpv6 (name : Name) (index : ℕ) (cfg : Ipv6InterfaceConfig) : NetworkSupervisor :=
  if ¬cfg.addresses.isEmpty then
    s.sendToInterface name (.configureStaticIpv6 mode index cfg.addresses cfg.gateway)
  else if cfg.autoconf ∧ s.config.ipv6 then s.sendToInterface name (.configureSlaac mode)
  else s

/-- The commands for the addresses of an interface that could be set up. -/
def configureEthernet (answers : Answers) (name : Name) (cfg : InterfaceConfig) :
    NetworkSupervisor :=
  match answers.ensureUp name with
  | none => s
  | some index =>
    let s :=
      match cfg.ipv4 with
      | none => s
      | some ipv4 => s.configureIpv4 mode name index ipv4
    match cfg.ipv6 with
    | none => s
    | some ipv6 => s.configureIpv6 mode name index ipv6

/-- `provision::ethernet`. -/
def provisionEthernet (cfg : InterfaceConfig) : NetworkSupervisor :=
  match s.resolveName cfg.name with
  | none => s
  | some name =>
    if name ∈ s.interfaces.keys then s.configureEthernet .provision answers name cfg else s

/-- `provision::bridge`: the port hands its address over, and the bridge has an actor then. -/
def provisionBridge (bridgeName : String) (cfg : BridgeConfig) : NetworkSupervisor :=
  match s.bridgePort cfg with
  | none => s
  | some port =>
    if answers.waitForConfigured port then
      let s := s.sendToInterface port (.configureBridge bridgeName cfg.stp)
      match answers.bridgeReply port bridgeName with
      | none => s
      | some snapshot => s.spawnInterfaceActor snapshot
    else s

/-- `provision::interfaces`. -/
def provisionInterfaces : NetworkSupervisor :=
  s.config.interfaces.foldl (fun s cfg =>
    match cfg.kind with
    | .bridge => s.provisionBridge answers cfg.name (cfg.bridge.getD ⟨[], false⟩)
    | .ethernet => s.provisionEthernet answers cfg) s

/-! ### Reconciliation -/

/-- `reconcile::ethernet`: a port that a bridge owns is left alone. -/
def reconcileEthernet (cfg : InterfaceConfig) : NetworkSupervisor :=
  match s.resolveName cfg.name with
  | none => s
  | some name =>
    match s.interfaces.get? name with
    | none => s
    | some handle =>
      if handle.borrow.l3Owner ≠ handle.borrow.name then s
      else s.configureEthernet .reconcile answers name cfg

/-- `bridge_snapshot`. -/
def bridgeSnapshot (bridgeName : Name) (handle : ActorHandle) (cfg : BridgeConfig) :
    Option InterfaceSnapshot := do
  let port ← s.bridgePort cfg
  let index ← answers.ensureBridge bridgeName port
  some { handle.borrow with
    name := bridgeName, state := .configured, index := index, link := .up, l3Owner := bridgeName }

/-- `ready_bridge_port`. -/
def readyBridgePort : Bool :=
  ((s.bridgePort cfg).bind s.interfaces.get?).any fun handle =>
    handle.borrow.state = .configured ∧ handle.borrow.lease.isSome

/-- `reconcile::bridge`. -/
def reconcileBridge (cfg : InterfaceConfig) : NetworkSupervisor :=
  match Name.new cfg.name with
  | none => s
  | some bridgeName =>
    let bridgeCfg := cfg.bridge.getD ⟨[], false⟩
    match s.interfaces.get? bridgeName with
    | some handle =>
      if handle.borrow.state = .configured then s
      else
        match s.bridgeSnapshot answers bridgeName handle bridgeCfg with
        | none => s
        | some snapshot => (s.removeActor snapshot.name).spawnInterfaceActor snapshot
    | none =>
      if s.readyBridgePort bridgeCfg then s.provisionBridge answers cfg.name bridgeCfg else s

/-- `reconcile::run`. -/
def reconcile : NetworkSupervisor :=
  if s.state.state = .operational ∨ s.state.state = .ready then
    (s.config.interfaces.foldl (fun s cfg =>
      match cfg.kind with
      | .bridge => s.reconcileBridge answers cfg
      | .ethernet => s.reconcileEthernet answers cfg) s).syncAndPublish
  else s

/-! ### Initialization -/

/-- The actors are shut down, and nothing is known. -/
def reset : NetworkSupervisor :=
  { s with
    interfaces := .empty
    state := .empty
    sent := s.interfaces.keys.map (·, Command.shutdown) ++ s.sent }

/-- Start the actors of all interfaces found. -/
def spawnInterfaceActors : NetworkSupervisor :=
  found.foldl (fun s iface =>
    s.spawnInterfaceActor (discovered iface.name iface.index iface.macAddress iface.linkState)) s

/-- `select_primary_interface`, for a list that is not empty. -/
def selectPrimaryInterface (primary : Ethernet) : NetworkSupervisor :=
  { s with
    state.primary := some primary.name
    state.backups := (selectBackups found primary.name).map (·.name) }

/-- `carrier_link_state`. -/
def carrierLinkState (hasCarrier : Option Bool) : LinkState :=
  if hasCarrier = some true then .up else .noCarrier

/-- The network is degraded, and initialization has failed. -/
def giveUp (error : InitializeError) : NetworkSupervisor × Except InitializeError Unit :=
  match s.transition .degraded with
  | .error e => (s, .error (.transition e))
  | .ok s => (s.publishState, .error error)

/-- `discovery::interfaces`. -/
def discoverInterfaces : NetworkSupervisor × Except InitializeError Unit :=
  match s.transition .initializing with
  | .error e => (s, .error (.transition e))
  | .ok s =>
    let s := s.publishState
    match answers.discoverEthernet with
    | none => (s, .error .discovery)
    | some found =>
      if found.isEmpty then s.giveUp .noInterfaces
      else if answers.probeCarriers.any (·.2) then
        let found := found.map fun iface =>
          { iface with linkState := carrierLinkState (answers.probeCarriers.lookup iface.index) }
        let s := s.spawnInterfaceActors found
        match selectPrimary found with
        | none => (s, .error .emptySelection)
        | some primary =>
          let s := s.selectPrimaryInterface found primary
          match s.transition .operational with
          | .error e => (s, .error (.transition e))
          | .ok s => (s.syncAndPublish, .ok ())
      else s.giveUp .noCarrier

/-- `NetworkSupervisor::initialize`. -/
def initializeNetwork : NetworkSupervisor × Except InitializeError Unit :=
  match s.reset.discoverInterfaces answers with
  | (s, .error e) => (s, .error e)
  | (s, .ok ()) =>
    let s := s.provisionInterfaces answers
    match s.transition .ready with
    | .error e => (s, .error (.transition e))
    | .ok s => (s.publishState, .ok ())

/-! ### Events -/

/-- One event; what is replied to a command is left out. -/
def handle : SupervisorEvent → NetworkSupervisor
  | .command .initializeNetwork => (s.initializeNetwork answers).1
  | .command .reconcile => s.reconcile answers
  | .netlink event => s.handleEvent event
  | .primaryChanged => s.maybeFailoverPrimary.flushDns
  | .reconcileTick => s.reconcile answers

end NetworkSupervisor

end Muak.Networkd.Supervisor
