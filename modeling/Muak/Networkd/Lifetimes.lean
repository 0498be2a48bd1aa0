import Muak.Networkd.Slaac

/-!
# The lifetimes of an address

Anyone on the link can send advertisements. A lifetime below two hours therefore does not end an
address at once, and only the router that configured the address has a say in its lifetimes.

* `Manager.refreshing`: the prefix of an advertisement that refreshes the address.
* `Manager.Ruled`: what an advertisement may do to the lifetimes.
* `two_hour_rule`: every advertisement of every run keeps to it.
-/

namespace Muak.Networkd.Slaac

open Clock Bytes

namespace ManagedAddress

variable {a : ManagedAddress} {now : ℤ} {valid preferred : ℕ}

/-- **One refresh**, at a time to which two hours and the lifetime can be added. -/
theorem validUntil_refreshLifetimes (h : now + secs (max 7200 valid) < limit) :
    min a.validUntil (now + secs 7200) ≤ (a.refreshLifetimes now valid preferred).validUntil ∧
      (7200 < valid ∨ a.validUntil < now + secs valid →
        (a.refreshLifetimes now valid preferred).validUntil = now + secs valid) := by
  have had : ∀ n, n ≤ max 7200 valid → after now n = now + secs n := fun n hn =>
    after_of_lt (lt_of_le_of_lt (by simp only [secs]; omega) h)
  have ht := had 7200 (by omega)
  have hv := had valid (by omega)
  simp only [refreshLifetimes, ht, hv]
  split_ifs with ha
  · refine ⟨?_, fun _ => rfl⟩
    simp only [secs] at ha ⊢
    omega
  · exact ⟨le_rfl, fun h => absurd h ha⟩

end ManagedAddress

namespace Manager

variable {m : Manager} {now : ℤ} {ra : RouterAdvertisement} {addr : ManagedAddress}

/-- The prefix that refreshes an address: the first one that the address can be made from, in an
advertisement of the router that configured it which does not say that the router departs. -/
def refreshing (mac : Mac) (addr : ManagedAddress) (ra : RouterAdvertisement) : Option PrefixInfo :=
  if ra.routerLifetime ≠ 0 ∧ addr.router = ra.source then
    ra.prefixes.find? fun info => info.autonomous ∧ info.prefixLen ≤ 64 ∧
      generate info.network info.prefixLen mac = some addr.address
  else none

theorem address_refreshAddressFromRa (h : m.address = some addr) (hz : ra.routerLifetime ≠ 0) :
    (m.refreshAddressFromRa now ra).address = some (match refreshing m.mac addr ra with
        | none => addr
        | some info => addr.refreshLifetimes now info.validLifetime.toNat
            info.preferredLifetime.toNat) := by
  rw [refreshAddressFromRa, h, refreshing]
  by_cases hs : addr.router = ra.source
  · rw [if_pos ⟨hz, hs⟩]
    simp only [hs, true_and]
    cases ra.prefixes.find? fun info => info.autonomous ∧ info.prefixLen ≤ 64 ∧
        generate info.network info.prefixLen m.mac = some addr.address with
    | none => exact h
    | some info => rfl
  · rw [if_neg fun ha => hs ha.2]
    simp only [hs, false_and, and_false, decide_false]
    rw [List.find?_eq_none.2 fun _ _ => Bool.false_ne_true]
    exact h

/-- What an advertisement does to the address. -/
theorem address_processUnsolicitedRa (h : m.address = some addr) :
    (m.processUnsolicitedRa now ra).1.address = some (match refreshing m.mac addr ra with
        | none => addr
        | some info => addr.refreshLifetimes now info.validLifetime.toNat
            info.preferredLifetime.toNat) := by
  rw [processUnsolicitedRa]
  by_cases hz : ra.routerLifetime = 0
  · rw [if_pos hz, refreshing, if_neg fun ha => ha.1 hz]
    cases m.router.filter (·.value = ra.source) with
    | none => exact h
    | some router => exact h
  · rw [if_neg hz]
    refine Eq.trans ?_ (@address_refreshAddressFromRa (m.refreshRouterFromRa now ra) now ra addr h
      hz)
    dsimp only
    split_ifs <;> rfl

/-- **What an advertisement may do to an address**: without a prefix that refreshes it nothing. A
refresh ends the address no sooner than it would have ended, or than in two hours, and a lifetime
above two hours or above what is left is adopted. -/
def Ruled (m : Manager) (now : ℤ) (ra : RouterAdvertisement) : Prop :=
  ∀ addr, m.address = some addr → ∃ addr', (m.processUnsolicitedRa now ra).1.address = some addr' ∧
      match refreshing m.mac addr ra with
      | none => addr' = addr
      | some info => now + secs (max 7200 info.validLifetime.toNat) < limit →
        min addr.validUntil (now + secs 7200) ≤ addr'.validUntil ∧
          (7200 < info.validLifetime.toNat ∨ addr.validUntil < now + secs info.validLifetime.toNat →
            addr'.validUntil = now + secs info.validLifetime.toNat)

theorem ruled (m : Manager) (now : ℤ) (ra : RouterAdvertisement) : m.Ruled now ra := by
  intro addr ha
  refine ⟨_, address_processUnsolicitedRa ha, ?_⟩
  cases refreshing m.mac addr ra with
  | none => rfl
  | some info => exact fun h => ManagedAddress.validUntil_refreshLifetimes h

end Manager

/-- **The two-hour rule**, for the advertisements that arrive while an interface is monitored. -/
theorem two_hour_rule (m : Manager) (arrivals : List (ℤ × Arrival)) :
    Along Manager.step (fun m arrival => ∀ ra, arrival.2 = .advertisement ra → m.solicited = true →
      m.Ruled arrival.1 ra ∧
        (m.step arrival).address = (m.processUnsolicitedRa arrival.1 ra).1.address) m arrivals := by
  induction arrivals generalizing m with
  | nil => trivial
  | cons arrival arrivals ih =>
    refine ⟨fun ra hra hs => ⟨m.ruled arrival.1 ra, ?_⟩, ih _⟩
    rw [Manager.step, if_pos hs, hra, Manager.turn]
    rcases m.processUnsolicitedRa arrival.1 ra with ⟨m', _ | event⟩
    · dsimp only
      split_ifs <;> rfl
    · rfl

/-- An address that was made from `2001:db8::/64`, valid for a day. -/
def dayAddress : Manager :=
  runFrom Manager.step (.new ⟨2, 0, 0, 0, 0, 1⟩ [])
    [(0, .advertisement { withoutServers with
      prefixes := withoutServers.prefixes.map fun info => { info with validLifetime := 86400 } })]

/-- The deadline of the address after an advertisement of prefixes and a router lifetime. -/
def endsAt (now : ℤ) (routerLifetime : UInt16) (prefixes : List PrefixInfo) : Option ℤ :=
  (dayAddress.processUnsolicitedRa now
    { withoutServers with prefixes, routerLifetime }).1.address.map (·.validUntil)

/-- `2001:db8::/32` is another prefix, and the address is made from it as well. A longer lifetime is
not adopted from a router that departs or from the second of two options, and at the end of the
clock it becomes no lifetime at all. -/
theorem other_prefix_refreshes :
    let network : Ipv6Addr := ⟨[0x20, 0x01, 0x0d, 0xb8] ++ zeros 12, by decide⟩
    dayAddress.address.map (·.validUntil) = some (secs 86400) ∧
      endsAt 0 1800 [⟨network, 32, true, 60, 60⟩] = some (secs 7200) ∧
      endsAt 0 0 [⟨network, 64, true, 172800, 60⟩] = some (secs 86400) ∧
      endsAt 0 1800 [⟨network, 64, true, 60, 60⟩, ⟨network, 64, true, 172800, 60⟩] =
        some (secs 7200) ∧
      endsAt (limit - secs 7201) 1800 [⟨network, 64, true, 86400, 60⟩] =
        some (limit - secs 7201) := by
  decide +kernel

end Muak.Networkd.Slaac
