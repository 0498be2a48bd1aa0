import Muak.Networkd.SupervisorLoop

/-!
# `resolv.conf`

`services/networkd/src/dns.rs`: the resolver keeps the lists of servers before it writes them, the
supervisor logs a failed write and goes on, and empty lists are not written at all.

* `Daemon.flushDns`: the flush, with the files. To the supervisor it does what the flush without
  them does (`Daemon.supervisor_flushDns`).
* `Daemon.Recorded`: what is cached is the last update, and what the file holds is the last one that
  was written and was not empty.
* `converges_iff`: exactly when a flush leaves the current servers in the file.
-/

namespace Muak.Networkd.Supervisor

open Slaac (Ipv6Addr)
open Dhcp (Ipv4Addr)

/-- `resolv.conf` and the temporary file, each with the servers in its lines. -/
structure ResolvFiles where
  conf : Option (List IpAddr)
  tmp : Option (List IpAddr)

/-- How the writes during a flush end. A write that fails leaves anything in the temporary file. -/
inductive Writes
  | succeed
  | failToWrite (left : Option (List IpAddr))
  | failToRename

/-- Write a new file and rename it, unless there are no servers. -/
def writeResolvConf (files : ResolvFiles) (v4 : List Ipv4Addr) (v6 : List Ipv6Addr)
    (writes : Writes) : ResolvFiles × Except Unit Unit :=
  if v4 = [] ∧ v6 = [] then (files, .ok ())
  else
    let content := v4.map .v4 ++ v6.map .v6
    match writes with
    | .succeed => (⟨some content, none⟩, .ok ())
    | .failToWrite left => ({ files with tmp := left }, .error ())
    | .failToRename => ({ files with tmp := some content }, .error ())

namespace Resolver

/-- Remember the servers and write them. -/
def update (files : ResolvFiles) (v4 : List Ipv4Addr) (v6 : List Ipv6Addr) (writes : Writes) :
    Resolver × ResolvFiles × Except Unit Unit :=
  (⟨v4, v6⟩, writeResolvConf files v4 v6 writes)

def isUnchanged (dns : Resolver) (v4 : List Ipv4Addr) (v6 : List Ipv6Addr) : Bool :=
  dns.v4 = v4 ∧ dns.v6 = v6

/-- The IPv4 servers and then the IPv6 servers. -/
def servers (dns : Resolver) : List IpAddr := dns.v4.map .v4 ++ dns.v6.map .v6

end Resolver

/-- The supervisor and the files. -/
structure Daemon where
  supervisor : NetworkSupervisor
  files : ResolvFiles
  /-- The updates that were made, the last one first. -/
  updates : List (Resolver × Writes)

/-- Between two flushes the handlers and the actors do anything but touch the resolver. -/
inductive DnsStep
  | between (next : NetworkSupervisor)
  | flush (writes : Writes)

namespace Daemon

def start (config : Config) (files : ResolvFiles) : Daemon := ⟨.new config, files, []⟩

variable (d : Daemon)

/-- A failure is logged. -/
def applyDns (v4 : List Ipv4Addr) (v6 : List Ipv6Addr) (writes : Writes) : Daemon :=
  let (dns, files, _) := Resolver.update d.files v4 v6 writes
  ⟨{ d.supervisor with dns }, files, (dns, writes) :: d.updates⟩

/-- Write the servers of the primary interface, if they changed. -/
def flushDns (writes : Writes) : Daemon :=
  match d.supervisor.primaryHandle with
  | none => d
  | some handle =>
    let (v4, v6) := d.supervisor.collectDns handle
    if d.supervisor.dns.isUnchanged v4 v6 then d else d.applyDns v4 v6 writes

def step : DnsStep → Daemon
  | .between next => { d with supervisor := { next with dns := d.supervisor.dns } }
  | .flush writes => d.flushDns writes

/-- The servers in the lines of `resolv.conf`. -/
def nameservers : List IpAddr := d.files.conf.getD []

/-- The lists of the primary interface, with those of the configuration in place of empty ones. -/
def current : Option Resolver :=
  d.supervisor.primaryHandle.map fun handle =>
    ⟨(d.supervisor.collectDns handle).1, (d.supervisor.collectDns handle).2⟩

theorem supervisor_flushDns (writes : Writes) :
    (d.flushDns writes).supervisor = d.supervisor.flushDns := by
  rw [flushDns, NetworkSupervisor.flushDns]
  cases d.supervisor.primaryHandle with
  | none => rfl
  | some handle =>
    by_cases h : d.supervisor.dns.v4 = (d.supervisor.collectDns handle).1 ∧
        d.supervisor.dns.v6 = (d.supervisor.collectDns handle).2
    · simp [Resolver.isUnchanged, h]
    · simp only [Resolver.isUnchanged, h]
      rfl

variable {d}

/-- A flush is an update, unless there is no primary interface or its lists are cached. -/
theorem flushDns_cases (writes : Writes) :
    (∀ dns ∈ d.current, d.supervisor.dns = dns) ∧ d.flushDns writes = d ∨
      ∃ dns ∈ d.current, d.supervisor.dns ≠ dns ∧
        d.flushDns writes = d.applyDns dns.v4 dns.v6 writes := by
  have hd : ∀ v4 v6, d.supervisor.dns.isUnchanged v4 v6 = true ↔ d.supervisor.dns = ⟨v4, v6⟩ := by
    intro v4 v6
    rw [Resolver.isUnchanged]
    cases d.supervisor.dns
    simp
  unfold flushDns current
  cases d.supervisor.primaryHandle with
  | none => exact .inl ⟨by rintro _ ⟨⟩, rfl⟩
  | some handle =>
    by_cases hs : d.supervisor.dns.isUnchanged (d.supervisor.collectDns handle).1
        (d.supervisor.collectDns handle).2 = true
    · exact .inl ⟨by rintro _ ⟨⟩; exact (hd _ _).1 hs, if_pos hs⟩
    · exact .inr ⟨_, rfl, fun h => hs ((hd _ _).2 h), if_neg hs⟩

/-- An update that is not empty and whose writes succeed replaces the servers in the file. -/
theorem nameservers_applyDns (dns : Resolver) (writes : Writes) :
    (d.applyDns dns.v4 dns.v6 writes).nameservers =
      match writes with
      | .succeed => if dns.servers = [] then d.nameservers else dns.servers
      | _ => d.nameservers := by
  have he : dns.servers = [] ↔ dns.v4 = [] ∧ dns.v6 = [] := by simp [Resolver.servers]
  rw [applyDns, Resolver.update, writeResolvConf]
  by_cases h : dns.v4 = [] ∧ dns.v6 = []
  · cases writes <;> simp [nameservers, h, he]
  · cases writes <;> simp [nameservers, h, Resolver.servers]

/-! ## Whole histories -/

/-- The lists of the last update. -/
def cached : List (Resolver × Writes) → Resolver
  | [] => ⟨[], []⟩
  | (dns, _) :: _ => dns

/-- The servers of the last update that was written and not empty, or those from before. -/
def written (before : List IpAddr) : List (Resolver × Writes) → List IpAddr
  | [] => before
  | (dns, .succeed) :: earlier =>
    if dns.servers = [] then written before earlier else dns.servers
  | _ :: earlier => written before earlier

/-- The cache and the file, by the updates that were made. -/
structure Recorded (before : List IpAddr) (d : Daemon) : Prop where
  dns : d.supervisor.dns = cached d.updates
  nameservers : d.nameservers = written before d.updates

variable {before : List IpAddr}

theorem Recorded.applyDns (h : Recorded before d) (dns : Resolver) (writes : Writes) :
    Recorded before (d.applyDns dns.v4 dns.v6 writes) where
  dns := rfl
  nameservers := by
    rw [nameservers_applyDns, h.nameservers]
    cases writes <;> rfl

theorem Recorded.step (h : Recorded before d) (label : DnsStep) :
    Recorded before (d.step label) := by
  cases label with
  | between next => exact ⟨h.dns, h.nameservers⟩
  | flush writes =>
    rw [Daemon.step]
    rcases flushDns_cases writes with ⟨-, hf⟩ | ⟨dns, -, -, hf⟩
    · rwa [hf]
    · rw [hf]
      exact h.applyDns dns writes

theorem recorded_run (config : Config) (files : ResolvFiles) (history : List DnsStep) :
    Recorded (files.conf.getD []) (runFrom step (start config files) history) :=
  runFrom_invariant_always (Recorded _) (fun _ label h => h.step label) ⟨rfl, rfl⟩ history

/-- **Convergence.** After any history of changes and failures, a flush whose writes succeed leaves
the current servers of the primary interface in `resolv.conf` exactly if they are there already, or
they are not empty and not those of the last update. -/
theorem converges_iff (config : Config) (files : ResolvFiles) (history : List DnsStep) :
    let d := runFrom step (start config files) history
    (∀ dns ∈ d.current, (d.flushDns .succeed).nameservers = dns.servers) ↔
      ∀ dns ∈ d.current, written (files.conf.getD []) d.updates = dns.servers ∨
        (dns ≠ cached d.updates ∧ dns.servers ≠ []) := by
  intro d
  have hr : Recorded (files.conf.getD []) d := recorded_run config files history
  rw [← hr.nameservers, ← hr.dns]
  refine forall₂_congr fun dns hd => ?_
  rcases flushDns_cases .succeed with ⟨hs, hf⟩ | ⟨other, ho, hne, hf⟩
  · rw [hf]
    exact (or_iff_left fun hor => hor.1 (hs dns hd).symm).symm
  · obtain rfl : other = dns := Option.mem_unique ho hd
    rw [hf, nameservers_applyDns]
    by_cases he : other.servers = []
    · rw [if_pos he]
      exact (or_iff_left fun hor => hor.2 he).symm
    · rw [if_neg he]
      exact iff_of_true rfl (.inr ⟨Ne.symm hne, he⟩)

/-- The primary interface has these servers. -/
def uplink (dns : List Ipv4Addr) : NetworkSupervisor :=
  let mac : Slaac.Mac := ⟨2, 0, 0, 0, 0, 1⟩
  publish ((NetworkSupervisor.new ⟨false, [], []⟩).onLinkAdded eth0 1 mac) eth0
    { NetworkSupervisor.discovered eth0 1 mac .up with
      ip := some ⟨⟨[10, 0, 0, 2], rfl⟩, 24, none, dns⟩ }

/-- A rename fails once, and the server does not get into the file; a server that is gone stays in
it. -/
theorem servers_lost_and_stale :
    let dns : Ipv4Addr := ⟨[8, 8, 8, 8], rfl⟩
    let after := runFrom step (start ⟨false, [], []⟩ ⟨none, none⟩)
    let lost := after [.between (uplink [dns]), .flush .failToRename]
    let stale := after [.between (uplink [dns]), .flush .succeed, .between (uplink [])]
    (lost.current = some ⟨[dns], []⟩ ∧ (lost.flushDns .succeed).nameservers = []) ∧
      stale.current = some ⟨[], []⟩ ∧ (stale.flushDns .succeed).nameservers = [.v4 dns] :=
  ⟨⟨rfl, rfl⟩, rfl, rfl⟩

end Daemon

end Muak.Networkd.Supervisor
