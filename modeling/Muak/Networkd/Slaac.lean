import Mathlib.Algebra.Order.Group.Nat
import Muak.Foundations.Bytes
import Muak.Foundations.Clock
import Muak.Foundations.Result
import Muak.Foundations.Run

/-!
# IPv6 autoconfiguration

`services/networkd/src/slaac`: the address, the router and the DNS servers of a router advertisement
are kept until they expire. The manager waits for the next deadline or the next advertisement.

* `lt_nextTimerDeadline_iff`: when the next deadline lies ahead.
* `handleTimerExpiration_eq_none_iff`: when an expiry has no event, and what it leaves behind.
* `validFor_after_iff`: an entry is valid for its lifetime unless the sum exceeds the clock.
* `monitoring_progress_iff`: exactly when an expiry without an event lets time pass.
* `fallback_server_spins`: with a configured server in use it does not.

The clock is read once for each advertisement and each expiry.
-/

namespace Muak.Networkd.Slaac

open Clock Bytes List

/-! ## Entries with a lifetime -/

structure Ipv6Addr where
  octets : Bytes
  length_octets : octets.length = 16
  deriving DecidableEq

/-- Whether an address is still to be used. -/
inductive AddressState
  | preferred
  | deprecated
  deriving DecidableEq

/-- A value with a deadline. -/
structure Expiring (α : Type) where
  value : α
  expiresAt : ℤ
  deriving DecidableEq

/-- The time after a number of seconds; the present time when the clock cannot represent it. -/
def after (now : ℤ) (lifetimeSecs : ℕ) : ℤ := (checkedAdd now (secs lifetimeSecs)).getD now

namespace Expiring

variable {α : Type} (e : Expiring α)

/-- A value with a lifetime from now on. -/
def new (now : ℤ) (value : α) (lifetimeSecs : ℕ) : Expiring α := ⟨value, after now lifetimeSecs⟩

def refreshLifetime (now : ℤ) (lifetimeSecs : ℕ) : Expiring α :=
  { e with expiresAt := after now lifetimeSecs }

def IsValid (now : ℤ) : Prop := now < e.expiresAt

instance decidableIsValid (now : ℤ) : Decidable (e.IsValid now) :=
  inferInstanceAs (Decidable (now < e.expiresAt))

end Expiring

abbrev ManagedRouter := Expiring Ipv6Addr

abbrev ManagedDns := Expiring Ipv6Addr

/-- An address with its lifetimes. -/
structure ManagedAddress where
  address : Ipv6Addr
  prefixLen : ℕ
  state : AddressState
  validUntil : ℤ
  preferredUntil : ℤ
  router : Ipv6Addr
  deriving DecidableEq

namespace ManagedAddress

/-- A preferred address with lifetimes from now on. -/
def new (now : ℤ) (address : Ipv6Addr) (prefixLen : ℕ) (router : Ipv6Addr)
    (validLifetimeSecs preferredLifetimeSecs : ℕ) : ManagedAddress where
  address := address
  prefixLen := prefixLen
  state := .preferred
  validUntil := after now validLifetimeSecs
  preferredUntil := after now preferredLifetimeSecs
  router := router

variable (a : ManagedAddress)

/-- The valid lifetime is shortened to two hours at most. -/
def refreshLifetimes (now : ℤ) (validLifetimeSecs preferredLifetimeSecs : ℕ) : ManagedAddress :=
  let newValid := after now validLifetimeSecs
  let newPreferred := after now preferredLifetimeSecs
  { a with
    validUntil :=
      if 7200 < validLifetimeSecs ∨ a.validUntil < newValid then newValid
      else min a.validUntil (after now 7200)
    preferredUntil := newPreferred
    state := if now < newPreferred then .preferred else a.state }

def IsValid (now : ℤ) : Prop := now < a.validUntil

instance decidableIsValid (now : ℤ) : Decidable (a.IsValid now) :=
  inferInstanceAs (Decidable (now < a.validUntil))

def IsPreferred (now : ℤ) : Prop :=
  a.state = .preferred ∧ now < a.preferredUntil

instance decidableIsPreferred (now : ℤ) : Decidable (a.IsPreferred now) :=
  inferInstanceAs (Decidable (_ ∧ _))

end ManagedAddress

/-! ## Advertisements -/

structure PrefixInfo where
  network : Ipv6Addr
  prefixLen : ℕ
  autonomous : Bool
  validLifetime : UInt32
  preferredLifetime : UInt32

structure RouterAdvertisement where
  routerLifetime : UInt16
  source : Ipv6Addr
  prefixes : List PrefixInfo
  dnsServers : List Ipv6Addr
  dnsLifetime : UInt32

/-- The hardware address of an interface. -/
structure Mac where
  m₀ : UInt8
  m₁ : UInt8
  m₂ : UInt8
  m₃ : UInt8
  m₄ : UInt8
  m₅ : UInt8
  deriving DecidableEq

def macToEui64 (mac : Mac) : Bytes :=
  [mac.m₀ ^^^ 0x02, mac.m₁, mac.m₂, 0xff, 0xfe, mac.m₃, mac.m₄, mac.m₅]

/-- The address with the given prefix of whole bytes, for an interface. -/
def generate (network : Ipv6Addr) (prefixLen : ℕ) (mac : Mac) : Option Ipv6Addr :=
  if h : prefixLen > 64 ∨ prefixLen % 8 ≠ 0 then none
  else some {
    octets := network.octets.take (prefixLen / 8) ++ zeros (8 - prefixLen / 8) ++ macToEui64 mac
    length_octets := by
      simp only [length_append, length_take, network.length_octets, length_zeros,
        macToEui64, length_cons, length_nil]
      omega }

/-- What the manager reports. -/
inductive SlaacEvent
  | configured (address : Ipv6Addr) (prefixLen : ℕ) (gateway : Ipv6Addr) (dns : List Ipv6Addr)
  | addressDeprecated (address : Ipv6Addr)
  | addressExpired (address : Ipv6Addr)
  | routerExpired (router : Ipv6Addr)
  | dnsUpdated (servers : List Ipv6Addr)
  | failed (reason : String)
  deriving DecidableEq

/-- The manager, with the configured DNS servers (`config.ipv6_dns()`). -/
structure Manager where
  mac : Mac
  ipv6Dns : List Ipv6Addr
  solicited : Bool
  address : Option ManagedAddress
  router : Option ManagedRouter
  dnsServers : List ManagedDns
  deriving DecidableEq

namespace Manager

variable (m : Manager)

/-- The configured servers, with the largest lifetime there is. -/
def fallbackDns (now : ℤ) : List ManagedDns :=
  m.ipv6Dns.map fun server => .new now server (2 ^ 64 - 1)

/-- The first advertisement configures an address. -/
def processInitialRa (now : ℤ) (ra : RouterAdvertisement) :
    Except String (Manager × SlaacEvent) := do
  let info ← okOr (ra.prefixes.find? fun info => info.autonomous ∧ info.prefixLen ≤ 64)
    "no usable autonomous prefix in RA"
  let address ← okOr (generate info.network info.prefixLen m.mac)
    ("invalid prefix_len " ++ toString info.prefixLen ++ " in RA")
  let dnsServers :=
    if ra.dnsServers = [] then m.fallbackDns now
    else ra.dnsServers.map fun server => .new now server ra.dnsLifetime.toNat
  .ok ({ m with
      address := some (.new now address info.prefixLen ra.source info.validLifetime.toNat
        info.preferredLifetime.toNat)
      router := some (.new now ra.source ra.routerLifetime.toNat)
      dnsServers },
    .configured address info.prefixLen ra.source (dnsServers.map (·.value)))

def refreshRouterFromRa (now : ℤ) (ra : RouterAdvertisement) : Manager :=
  { m with
    router := m.router.map fun router =>
      if router.value = ra.source then router.refreshLifetime now ra.routerLifetime.toNat
      else router }

/-- The first advertised prefix that the address was made from extends it. -/
def refreshAddressFromRa (now : ℤ) (ra : RouterAdvertisement) : Manager :=
  match m.address with
  | none => m
  | some addr =>
    match ra.prefixes.find? fun info =>
        info.autonomous ∧ info.prefixLen ≤ 64 ∧ addr.router = ra.source ∧
          generate info.network info.prefixLen m.mac = some addr.address with
    | none => m
    | some info =>
      { m with
        address := some (addr.refreshLifetimes now info.validLifetime.toNat
          info.preferredLifetime.toNat) }

/-- A server that is known is extended, a new one is appended. -/
def refreshServer (now : ℤ) (lifetimeSecs : ℕ) (server : Ipv6Addr) :
    List ManagedDns → List ManagedDns
  | [] => [.new now server lifetimeSecs]
  | dns :: rest =>
    if dns.value = server then dns.refreshLifetime now lifetimeSecs :: rest
    else dns :: refreshServer now lifetimeSecs server rest

def refreshDnsFromRa (now : ℤ) (ra : RouterAdvertisement) : Manager :=
  { m with
    dnsServers := ra.dnsServers.foldl
      (fun servers server => refreshServer now ra.dnsLifetime.toNat server servers) m.dnsServers }

/-- A later advertisement refreshes or ends what is there. -/
def processUnsolicitedRa (now : ℤ) (ra : RouterAdvertisement) : Manager × Option SlaacEvent :=
  if ra.routerLifetime = 0 then
    match m.router.filter (·.value = ra.source) with
    | some _ => ({ m with router := none }, some (.routerExpired ra.source))
    | none => (m, none)
  else
    let m := (m.refreshRouterFromRa now ra).refreshAddressFromRa now ra
    if ra.dnsServers = [] then (m, none)
    else
      let refreshed := m.refreshDnsFromRa now ra
      if m.dnsServers.map (·.value) = refreshed.dnsServers.map (·.value) then (refreshed, none)
      else (refreshed, some (.dnsUpdated (refreshed.dnsServers.map (·.value))))

/-- The servers that remain: the configured ones when all have expired. -/
def remainingDns (now : ℤ) : List ManagedDns :=
  let valid := m.dnsServers.filter fun dns => dns.IsValid now
  if m.dnsServers ≠ [] ∧ valid = [] then m.fallbackDns now else valid

/-- At most one event: the address is deprecated, the address has expired, the router has expired,
or the servers have changed. -/
def handleTimerExpiration (now : ℤ) : Manager × Option SlaacEvent :=
  match m.address.filter fun addr => addr.state = .preferred ∧ ¬addr.IsPreferred now with
  | some addr =>
    ({ m with address := some { addr with state := .deprecated } },
      some (.addressDeprecated addr.address))
  | none =>
  match m.address.filter fun addr => ¬addr.IsValid now with
  | some addr => ({ m with address := none }, some (.addressExpired addr.address))
  | none =>
  match m.router.filter fun router => router.expiresAt ≤ now with
  | some router => ({ m with router := none }, some (.routerExpired router.value))
  | none =>
    let remaining := m.remainingDns now
    ({ m with dnsServers := remaining },
      if m.dnsServers.map (·.value) = remaining.map (·.value) then none
      else some (.dnsUpdated (remaining.map (·.value))))

/-- When the next lifetime ends, within an hour. -/
def nextTimerDeadline (now : ℤ) : ℤ :=
  let deadline := after now 3600
  let deadline :=
    match m.address with
    | some addr =>
      min (if addr.state = .preferred then min addr.preferredUntil deadline else deadline)
        addr.validUntil
    | none => deadline
  let deadline :=
    match m.router with
    | some router => min router.expiresAt deadline
    | none => deadline
  m.dnsServers.foldl (fun deadline dns => min dns.expiresAt deadline) deadline

end Manager

/-! ## The monitoring loop -/

/-- What a turn of the loop waits for: an advertisement, something else on the socket, or the
deadline. -/
inductive Arrival
  | advertisement (ra : RouterAdvertisement)
  | other
  | timeout

namespace Manager

/-- One turn of `next_monitoring_event`; without an event the loop goes on. -/
def turn (m : Manager) (now : ℤ) (arrival : Arrival) : Manager × Option SlaacEvent :=
  let (m, event) :=
    match arrival with
    | .advertisement ra => m.processUnsolicitedRa now ra
    | .other => (m, none)
    | .timeout => m.handleTimerExpiration now
  match event with
  | some event => (m, some event)
  | none =>
    if m.address = none ∧ m.router = none then
      (m, some (.failed "all IPv6 configuration expired"))
    else (m, none)

def new (mac : Mac) (ipv6Dns : List Ipv6Addr) : Manager := ⟨mac, ipv6Dns, false, none, none, []⟩

/-- `next_event`, as far as the next arrival. Before the monitoring the first advertisement
configures the interface, and a timeout is the end of the last solicitation. -/
def step (m : Manager) (arrival : ℤ × Arrival) : Manager :=
  if m.solicited then (m.turn arrival.1 arrival.2).1
  else
    match arrival.2 with
    | .advertisement ra =>
      match m.processInitialRa arrival.1 ra with
      | .ok (m, _) => { m with solicited := true }
      | .error _ => { m with solicited := true }
    | .other => m
    | .timeout => { m with solicited := true }

end Manager

/-! ## Lifetimes -/

variable {lifetimeSecs : ℕ} {now : ℤ}

theorem after_of_lt (h : now + secs lifetimeSecs < limit) :
    after now lifetimeSecs = now + secs lifetimeSecs := by
  rw [after, checkedAdd_of_lt h, Option.getD_some]

theorem after_of_not_lt (h : ¬now + secs lifetimeSecs < limit) : after now lifetimeSecs = now := by
  rw [after, checkedAdd, if_neg h, Option.getD_none]

theorem lt_after_iff :
    now < after now lifetimeSecs ↔ 0 < lifetimeSecs ∧ now + secs lifetimeSecs < limit := by
  by_cases h : now + secs lifetimeSecs < limit
  · rw [after_of_lt h]
    simp only [secs] at h ⊢
    omega
  · rw [after_of_not_lt h]
    exact ⟨fun hlt => absurd hlt (lt_irrefl now), fun hlt => absurd hlt.2 h⟩

namespace Expiring

variable {α : Type}

/-- The entry is valid for a number of seconds from now on. -/
def ValidFor (e : Expiring α) (now : ℤ) (lifetimeSecs : ℕ) : Prop :=
  ∀ t, now ≤ t → t < now + secs lifetimeSecs → e.IsValid t

theorem validFor_after_iff {e : Expiring α} (he : e.expiresAt = after now lifetimeSecs) :
    e.ValidFor now lifetimeSecs ↔ lifetimeSecs = 0 ∨ now + secs lifetimeSecs < limit := by
  simp only [ValidFor, IsValid, he]
  constructor
  · intro h
    by_cases hz : lifetimeSecs = 0
    · exact .inl hz
    · have hn : now < after now lifetimeSecs := h now le_rfl (by simp only [secs]; omega)
      exact .inr (lt_after_iff.mp hn).2
  · rintro (rfl | h) t hle hlt
    · simp only [secs] at hlt
      omega
    · rwa [after_of_lt h]

end Expiring

/-! ## Deadlines -/

namespace Manager

variable {m : Manager} {now : ℤ}

/-- Neither the address nor the router has an expiry due. -/
def Settled (m : Manager) (now : ℤ) : Prop :=
  (∀ addr ∈ m.address, (addr.state = .preferred → now < addr.preferredUntil) ∧ addr.IsValid now) ∧
    ∀ router ∈ m.router, router.IsValid now

theorem lt_foldl_min_iff {servers : List ManagedDns} {deadline : ℤ} :
    now < servers.foldl (fun deadline dns => min dns.expiresAt deadline) deadline ↔
      now < deadline ∧ ∀ dns ∈ servers, dns.IsValid now := by
  induction servers generalizing deadline with
  | nil => simp
  | cons dns rest ih =>
    rw [foldl_cons, ih, lt_min_iff, forall_mem_cons]
    tauto

theorem lt_nextTimerDeadline_iff : now < m.nextTimerDeadline now ↔
      now + secs 3600 < limit ∧ m.Settled now ∧ ∀ dns ∈ m.dnsServers, dns.IsValid now := by
  have hour : now < after now 3600 ↔ now + secs 3600 < limit := by
    rw [lt_after_iff]
    exact and_iff_right (by decide)
  rw [nextTimerDeadline, lt_foldl_min_iff, ← and_assoc, ← hour]
  rcases m with ⟨mac, ipv6Dns, solicited, address, router, dnsServers⟩
  rcases address with _ | addr <;> rcases router with _ | router
  · simp [Settled]
  · simp [Settled, Expiring.IsValid, and_comm]
  · by_cases h : addr.state = .preferred <;>
      simp [Settled, ManagedAddress.IsValid, h, and_left_comm]
  · by_cases h : addr.state = .preferred <;>
      simp [Settled, Expiring.IsValid, ManagedAddress.IsValid, h, and_assoc, and_left_comm]

/-! ## Expiries -/

/-- Nothing is due and the servers stay the same. -/
def Quiet (m : Manager) (now : ℤ) : Prop :=
  m.Settled now ∧ m.dnsServers.map (·.value) = (m.remainingDns now).map (·.value)

theorem handleTimerExpiration_eq_none_iff {m' : Manager} :
    m.handleTimerExpiration now = (m', none) ↔
      m.Quiet now ∧ m' = { m with dnsServers := m.remainingDns now } := by
  rw [handleTimerExpiration]
  split
  next addr h =>
    -- a preferred address past its preferred lifetime
    simp only [Option.filter_eq_some_iff, decide_eq_true_eq] at h
    simp only [Prod.mk.injEq, reduceCtorEq, and_false, false_iff]
    exact fun hq => h.2.2 ⟨h.2.1, (hq.1.1.1 addr h.1).1 h.2.1⟩
  next hd =>
  split
  next addr h =>
    simp only [Option.filter_eq_some_iff, decide_eq_true_eq] at h
    simp only [Prod.mk.injEq, reduceCtorEq, and_false, false_iff]
    exact fun hq => h.2 (hq.1.1.1 addr h.1).2
  next he =>
  split
  next router h =>
    simp only [Option.filter_eq_some_iff, decide_eq_true_eq] at h
    simp only [Prod.mk.injEq, reduceCtorEq, and_false, false_iff]
    exact fun hq => absurd (hq.1.1.2 router h.1) (not_lt.mpr h.2)
  next hr =>
    simp only [Option.filter_eq_none_iff, decide_eq_true_eq] at hd he hr
    have hs : m.Settled now := by
      refine ⟨fun addr ha => ⟨fun hst => ?_, not_not.mp (he addr ha)⟩,
        fun router h => not_le.mp (hr router h)⟩
      by_contra hps
      exact hd addr ha ⟨hst, fun hp => hps hp.2⟩
    simp only [Quiet, Prod.mk.injEq, ite_eq_left_iff, reduceCtorEq, imp_false, not_not, hs,
      true_and]
    rw [and_comm, eq_comm (a := m')]

/-- The servers in use are the configured ones, and all of them have expired. -/
def Relapses (m : Manager) (now : ℤ) : Prop :=
  m.ipv6Dns ≠ [] ∧ m.dnsServers.map (·.value) = m.ipv6Dns ∧ ∀ dns ∈ m.dnsServers, ¬dns.IsValid now

theorem map_value_fallbackDns : (m.fallbackDns now).map (·.value) = m.ipv6Dns := by
  rw [fallbackDns, map_map]
  exact map_id _

theorem forall_fallbackDns_valid_iff (h : m.ipv6Dns ≠ []) :
    (∀ dns ∈ m.fallbackDns now, dns.IsValid now) ↔ now + secs (2 ^ 64 - 1) < limit := by
  obtain ⟨server, hs⟩ := exists_mem_of_ne_nil _ h
  have hv : now < after now (2 ^ 64 - 1) ↔ now + secs (2 ^ 64 - 1) < limit := by
    rw [lt_after_iff]
    exact and_iff_right (by decide)
  rw [fallbackDns, forall_mem_map]
  exact ⟨fun ha => hv.mp (ha server hs), fun hlt _ _ => hv.mpr hlt⟩

theorem Relapses.remainingDns (h : m.Relapses now) : m.remainingDns now = m.fallbackDns now := by
  have hne : m.dnsServers ≠ [] := fun hnl => h.1 (by rw [← h.2.1, hnl, map_nil])
  have hn : m.dnsServers.filter (fun dns => dns.IsValid now) = [] := by
    simpa using h.2.2
  rw [Manager.remainingDns, if_pos ⟨hne, hn⟩]

/-- Servers that stay the same without a relapse are all valid. -/
theorem remainingDns_valid (h : m.dnsServers.map (·.value) = (m.remainingDns now).map (·.value))
    (hr : ¬m.Relapses now) : ∀ dns ∈ m.remainingDns now, dns.IsValid now := by
  by_cases hf : m.dnsServers ≠ [] ∧ m.dnsServers.filter (fun dns => dns.IsValid now) = []
  · rw [remainingDns, if_pos hf, map_value_fallbackDns] at h
    refine absurd ⟨fun hn => hf.1 ?_, h, ?_⟩ hr
    · rwa [hn, map_eq_nil_iff] at h
    · simpa using hf.2
  · intro dns hd
    rw [remainingDns, if_neg hf, mem_filter, decide_eq_true_eq] at hd
    exact hd.2

/-- An expiry without an event is followed by a deadline that lies ahead. -/
def Progresses (m : Manager) (now : ℤ) : Prop :=
  ∀ m', m.handleTimerExpiration now = (m', none) → now < m'.nextTimerDeadline now

theorem progresses_iff : m.Progresses now ↔ (m.Quiet now → now + secs 3600 < limit ∧
      (m.Relapses now → now + secs (2 ^ 64 - 1) < limit)) := by
  have hp : m.Progresses now ↔ (m.Quiet now → now + secs 3600 < limit ∧
      ∀ dns ∈ m.remainingDns now, dns.IsValid now) := by
    simp only [Progresses, handleTimerExpiration_eq_none_iff]
    constructor
    · intro h hq
      have hlt := lt_nextTimerDeadline_iff.mp (h _ ⟨hq, rfl⟩)
      exact ⟨hlt.1, hlt.2.2⟩
    · rintro h m' ⟨hq, rfl⟩
      exact lt_nextTimerDeadline_iff.mpr ⟨(h hq).1, hq.1, (h hq).2⟩
  rw [hp]
  refine forall_congr' fun hq => and_congr_right' ?_
  by_cases hr : m.Relapses now
  · rw [hr.remainingDns, forall_fallbackDns_valid_iff hr.1]
    exact (imp_iff_right hr).symm
  · exact iff_of_true (remainingDns_valid hq.2 hr) fun h => absurd h hr

end Manager

/-! ## Progress -/

/-- After any arrivals an expiry without an event lets time pass exactly when an hour can be added
to the clock and the servers in use are not the configured ones, expired, unless their lifetime can
be added as well. An entry is valid for its lifetime exactly when that can be added to the clock. -/
theorem monitoring_progress_iff (mac : Mac) (ipv6Dns : List Ipv6Addr)
    (arrivals : List (ℤ × Arrival)) (now : ℤ) (lifetime : UInt64) (e : Expiring Ipv6Addr) :
    let m := runFrom Manager.step (.new mac ipv6Dns) arrivals
    (m.Progresses now ↔ (m.Quiet now → now + secs 3600 < limit ∧
      (m.Relapses now → now + secs (2 ^ 64 - 1) < limit))) ∧
    ((Expiring.new now e.value lifetime.toNat).ValidFor now lifetime.toNat ∧
        (e.refreshLifetime now lifetime.toNat).ValidFor now lifetime.toNat ↔
      lifetime = 0 ∨ now + secs lifetime.toNat < limit) := by
  refine ⟨Manager.progresses_iff, ?_⟩
  have hz : lifetime = 0 ↔ lifetime.toNat = 0 := UInt64.toNat_inj.symm
  rw [hz]
  rw [Expiring.validFor_after_iff rfl, Expiring.validFor_after_iff rfl, and_self]

/-- An advertisement of a network for two hours, with a router for half an hour and no DNS
servers. -/
def withoutServers : RouterAdvertisement where
  routerLifetime := 1800
  source := ⟨[0xfe, 0x80] ++ zeros 13 ++ [1], by decide⟩
  prefixes := [⟨⟨[0x20, 0x01, 0x0d, 0xb8] ++ zeros 12, by decide⟩, 64, true, 7200, 3600⟩]
  dnsServers := []
  dnsLifetime := 0

/-- With one configured server, that advertisement is followed by expiries without an event that
leave everything as it is, the deadline included. -/
theorem fallback_server_spins :
    let server : Ipv6Addr := ⟨[0x26, 0x20, 0, 0xfe] ++ zeros 10 ++ [0, 0xfe], by decide⟩
    let m := runFrom Manager.step (.new ⟨2, 0, 0, 0, 0, 1⟩ [server])
      [(0, .advertisement withoutServers)]
    m.turn 0 .timeout = (m, none) ∧ m.nextTimerDeadline 0 = 0 ∧ ¬m.Progresses 0 := by
  intro server m
  have hq : m.handleTimerExpiration 0 = (m, none) := by decide +kernel
  refine ⟨by decide +kernel, by decide +kernel, fun h => ?_⟩
  exact absurd (h m hq) (by decide +kernel)

end Muak.Networkd.Slaac
