import Mathlib.Algebra.GroupWithZero.Nat
import Mathlib.Data.List.Sort
import Muak.Foundations.Bytes
import Muak.Foundations.Clock
import Muak.Foundations.Result

/-!
# DHCP leases and their timers

`services/networkd`: the options of a response (`dhcp/codec.rs`), the lease that is made of them
(`dhcp/mod.rs`), the timers of a lease (`interface/dhcp.rs`) and the state machine that they drive.

* `buildLeaseFromAck_le`, `ordered_iff`: which leases have their times in order. The product for
  the second time saturates, so this is not all of them.
* `legal_arm_iff`: when the timers of a lease lead from `Bound` along legal transitions only.
* `lease_timers_ordered_iff`: exactly when both is the case.
* `infinite_lease_rebinds_first`: an infinite lease is to be rebound long before it is renewed.

Timers run on the clock that the times of a lease were taken from.
-/

namespace Muak.Networkd

open Clock Bytes List Option

/-! ## State machines -/

/-- `StateMachine`: the transitions that are valid. -/
class StateMachine (σ : Type) where
  validNextStates : σ → List σ

/-- A step that the state machine does not have. -/
structure InvalidTransition (σ : Type) where
  source : σ
  target : σ
  deriving DecidableEq

/-- The next state. A state machine stays in its state when the transition is not valid. -/
def transition {σ : Type} [DecidableEq σ] [StateMachine σ] (source target : σ) :
    Except (InvalidTransition σ) σ :=
  if target ∈ StateMachine.validNextStates source then .ok target else .error ⟨source, target⟩

namespace Dhcp

/-- The phases of a DHCP client. -/
inductive State
  | init
  | bound
  | renewing
  | rebinding
  deriving DecidableEq

instance stateMachineState : StateMachine State where
  validNextStates
    | .init => [.bound]
    | .bound => [.renewing, .init]
    | .renewing => [.bound, .rebinding, .init]
    | .rebinding => [.bound, .init]

/-! ## Leases -/

/-- An IPv4 address, by its octets. -/
structure Ipv4Addr where
  octets : Bytes
  length_octets : octets.length = 4
  deriving DecidableEq

/-- The address of the first four bytes. -/
def Ipv4Addr.ofBytes (data : Bytes) : Option Ipv4Addr :=
  if h : 4 ≤ data.length then some ⟨data.take 4, length_take_of_le h⟩ else none

/-- A lease, with its durations in nanoseconds. -/
structure Lease where
  obtainedAt : ℤ
  leaseTime : ℕ
  renewalTime : ℕ
  rebindTime : ℕ
  serverIp : Ipv4Addr
  assignedIp : Ipv4Addr
  prefixLen : ℕ
  gateway : Option Ipv4Addr
  dnsServers : List Ipv4Addr
  deriving DecidableEq

def Lease.expiry (lease : Lease) : ℤ :=
  (checkedAdd lease.obtainedAt lease.leaseTime).getD lease.obtainedAt

/-! ## Options of a response -/

/-- What the options of a message say. -/
structure ParsedOptions where
  messageType : Option UInt8 := none
  serverId : Option Ipv4Addr := none
  subnetMask : Option Ipv4Addr := none
  router : Option Ipv4Addr := none
  dnsServers : List Ipv4Addr := []
  leaseTime : Option UInt32 := none

/-- The addresses in a list of bytes, without an incomplete one at the end. -/
def addresses (data : Bytes) : List Ipv4Addr :=
  (chunks 4 (data.length / 4) data).filterMap Ipv4Addr.ofBytes

/-- One option. Options with a wrong length and unknown ones are ignored. -/
def ParsedOptions.option (parsed : ParsedOptions) (code : UInt8) (data : Bytes) : ParsedOptions :=
  match code.toNat with
  | 53 => if data.length = 1 then { parsed with messageType := data.head? } else parsed
  | 1 => if data.length = 4 then { parsed with subnetMask := Ipv4Addr.ofBytes data } else parsed
  | 3 => if 4 ≤ data.length then { parsed with router := Ipv4Addr.ofBytes data } else parsed
  | 6 =>
    if 4 ≤ data.length ∧ data.length % 4 = 0 then
      { parsed with dnsServers := parsed.dnsServers ++ addresses data }
    else parsed
  | 51 =>
    if data.length = 4 then { parsed with leaseTime := some (.ofNat (ofBe data)) } else parsed
  | 54 => if data.length = 4 then { parsed with serverId := Ipv4Addr.ofBytes data } else parsed
  | _ => parsed

/-- The loop of `parse_options`. It ends at the end marker and at an option that is cut off. -/
def parseFrom (parsed : ParsedOptions) : Bytes → ParsedOptions
  | [] => parsed
  | code :: rest =>
    if code = 255 then parsed
    else if code = 0 then parseFrom parsed rest
    else
      match rest with
      | [] => parsed
      | length :: data =>
        if length.toNat ≤ data.length then
          parseFrom (parsed.option code (data.take length.toNat)) (data.drop length.toNat)
        else parsed
termination_by bytes => bytes.length
decreasing_by
  · exact Nat.lt_succ_self _
  · simp only [length_cons, length_drop]
    omega

def parseOptions (optionsBytes : Bytes) : ParsedOptions := parseFrom {} optionsBytes

def defaultLeaseSecs : ℕ := 3600

def defaultPrefixLen : ℕ := 24

/-- `u8::count_ones`. -/
def countOnes (octet : UInt8) : ℕ := (range 8).countP octet.toNat.testBit

/-- The number of seconds that the options grant. -/
def ParsedOptions.seconds (opts : ParsedOptions) : ℕ :=
  (opts.leaseTime.map UInt32.toNat).getD defaultLeaseSecs

/-- The lease of an acknowledgement that arrives at the time `now`. -/
def buildLeaseFromAck (now : ℤ) (ip serverIp : Ipv4Addr) (opts : ParsedOptions) : Lease where
  obtainedAt := now
  leaseTime := secs opts.seconds
  renewalTime := secs (opts.seconds / 2)
  -- the product saturates
  rebindTime := secs (min (opts.seconds * 7) (2 ^ 32 - 1) / 8)
  serverIp := serverIp
  assignedIp := ip
  prefixLen := (opts.subnetMask.map fun mask => (mask.octets.map countOnes).sum).getD
    defaultPrefixLen
  gateway := opts.router
  dnsServers := opts.dnsServers

/-! ## The times of a lease -/

/-- The times of a lease are in order. -/
def Lease.Ordered (lease : Lease) : Prop :=
  lease.renewalTime ≤ lease.rebindTime ∧ lease.rebindTime ≤ lease.leaseTime

variable {ip serverIp : Ipv4Addr} {opts : ParsedOptions} {obtainedAt now : ℤ}

theorem secs_le_secs {m n : ℕ} : secs m ≤ secs n ↔ m ≤ n := by
  unfold secs
  omega

/-- No lease is rebound or renewed after its end. -/
theorem buildLeaseFromAck_le : (buildLeaseFromAck obtainedAt ip serverIp opts).rebindTime ≤
      (buildLeaseFromAck obtainedAt ip serverIp opts).leaseTime ∧
    (buildLeaseFromAck obtainedAt ip serverIp opts).renewalTime ≤
      (buildLeaseFromAck obtainedAt ip serverIp opts).leaseTime := by
  simp only [buildLeaseFromAck, secs_le_secs]
  omega

/-- **Order of the times**: below `2^30` seconds the saturation makes no difference to the order,
from there on the lease is to be rebound before it is renewed. -/
theorem ordered_iff :
    (buildLeaseFromAck obtainedAt ip serverIp opts).Ordered ↔ opts.seconds < 2 ^ 30 := by
  have hle := (@buildLeaseFromAck_le ip serverIp opts obtainedAt).1
  rw [Lease.Ordered]
  simp only [buildLeaseFromAck, secs_le_secs]
  omega

/-! ## Timers -/

/-- The deadlines of the timers that are armed. -/
structure LeaseTimers where
  renew : Option ℤ
  rebind : Option ℤ
  expire : Option ℤ
  deriving DecidableEq

namespace LeaseTimers

/-- `new` and `disarm`. -/
def disarmed : LeaseTimers := ⟨none, none, none⟩

/-- Timers for the deadlines of the lease that have not passed at the time `now`. -/
def arm (now : ℤ) (lease : Lease) : LeaseTimers where
  renew := sleepUntil now ((checkedAdd lease.obtainedAt lease.renewalTime).getD now)
  rebind := sleepUntil now ((checkedAdd lease.obtainedAt lease.rebindTime).getD now)
  expire := sleepUntil now lease.expiry

/-- The armed timers in the order in which they fire, with the states that they lead to. Of timers
that are due together the one for renewal is polled first and the one for expiry last. -/
def firings (timers : LeaseTimers) : List (ℤ × State) :=
  ((timers.renew.map (·, State.renewing)).toList ++
    (timers.rebind.map (·, State.rebinding)).toList ++
    (timers.expire.map (·, State.init)).toList).insertionSort (·.1 ≤ ·.1)

/-- Renewal comes before rebinding, and rebinding before expiry. -/
structure InOrder (timers : LeaseTimers) : Prop where
  renew_rebind : ∀ r ∈ timers.renew, ∀ b ∈ timers.rebind, r ≤ b
  rebind_expire : ∀ b ∈ timers.rebind, ∀ e ∈ timers.expire, b ≤ e
  renew_expire : ∀ r ∈ timers.renew, ∀ e ∈ timers.expire, r ≤ e

end LeaseTimers

/-- The transitions can be taken one after another. -/
def Legal : State → List State → Prop
  | _, [] => True
  | s, target :: rest => target ∈ StateMachine.validNextStates s ∧ Legal target rest

instance decidableLegal : (s : State) → (path : List State) → Decidable (Legal s path)
  | _, [] => inferInstanceAs (Decidable True)
  | s, target :: rest =>
    have := decidableLegal target rest
    inferInstanceAs (Decidable (target ∈ StateMachine.validNextStates s ∧ Legal target rest))

/-- The transitions of the timers from the state in which they are armed, when no exchange with a
server succeeds. -/
def LeaseTimers.Legal (timers : LeaseTimers) : Prop :=
  Dhcp.Legal .bound (timers.firings.map Prod.snd)

/-- The lease ends at a time that can be represented, and after `now`. -/
def Lease.Unexpired (lease : Lease) (now : ℤ) : Prop :=
  lease.obtainedAt + lease.leaseTime < limit ∧ now < lease.obtainedAt + lease.leaseTime

variable {lease : Lease}

theorem arm_of_unexpired (h : lease.Unexpired now) (hr : lease.renewalTime ≤ lease.leaseTime)
    (hrb : lease.rebindTime ≤ lease.leaseTime) :
    LeaseTimers.arm now lease = ⟨sleepUntil now (lease.obtainedAt + lease.renewalTime),
        sleepUntil now (lease.obtainedAt + lease.rebindTime),
        some (lease.obtainedAt + lease.leaseTime)⟩ := by
  rw [LeaseTimers.arm, Lease.expiry, checkedAdd_of_le h.1 hr, checkedAdd_of_le h.1 hrb,
    checkedAdd_of_lt h.1]
  exact congrArg _ (if_pos h.2.le)

/-- **Legal transitions**: rebinding must not be the first thing to happen. -/
theorem legal_arm_iff (h : lease.Unexpired now) (hrn : lease.renewalTime ≤ lease.leaseTime)
    (hrb : lease.rebindTime ≤ lease.leaseTime) :
    (LeaseTimers.arm now lease).Legal ↔ (now ≤ lease.obtainedAt + lease.rebindTime →
      now ≤ lease.obtainedAt + lease.renewalTime ∧ lease.renewalTime ≤ lease.rebindTime) := by
  have hre : lease.obtainedAt + lease.renewalTime ≤ lease.obtainedAt + lease.leaseTime := by omega
  have hbe : lease.obtainedAt + lease.rebindTime ≤ lease.obtainedAt + lease.leaseTime := by omega
  rw [LeaseTimers.Legal, arm_of_unexpired h hrn hrb, LeaseTimers.firings]
  simp only [sleepUntil]
  by_cases hr : now ≤ lease.obtainedAt + lease.renewalTime <;>
    by_cases hb : now ≤ lease.obtainedAt + lease.rebindTime <;>
    simp only [hr, hb]
  · by_cases hle : lease.renewalTime ≤ lease.rebindTime
    · simp [hbe, hle, Legal, StateMachine.validNextStates]
    · simp [hbe, hle, Legal, StateMachine.validNextStates]
  · simp [hre, Legal, StateMachine.validNextStates]
  · simp [hbe, Legal, StateMachine.validNextStates]
  · simp [Legal, StateMachine.validNextStates]

/-- The timers of a lease whose times are in order fire in this order. -/
theorem inOrder_arm (h : lease.Unexpired now) (ho : lease.Ordered) :
    (LeaseTimers.arm now lease).InOrder := by
  obtain ⟨hrb, hbl⟩ := ho
  rw [arm_of_unexpired h (hrb.trans hbl) hbl]
  refine ⟨fun r hr b hb => ?_, fun b hb e he => ?_, fun r hr e he => ?_⟩
  · simp only [mem_def, sleepUntil_eq_some_iff] at hr hb
    omega
  · simp only [mem_def, sleepUntil_eq_some_iff, some.injEq] at hb he
    omega
  · simp only [mem_def, sleepUntil_eq_some_iff, some.injEq] at hr he
    omega

/-! ## What a server may send -/

/-- An option of a message. -/
structure Field where
  code : UInt8
  data : Bytes
  code_ne : code ≠ 0 ∧ code ≠ 255
  length_data : data.length < 256

/-- The bytes of an option, or of padding. -/
def encode : Option Field → Bytes
  | none => [0]
  | some field => field.code :: UInt8.ofNat field.data.length :: field.data

/-- **Every option is read**, in turn, whatever is padded or follows the end marker. -/
theorem parseFrom_encode (fields : List (Option Field)) (rest : Bytes)
    (parsed : ParsedOptions) : parseFrom parsed (fields.flatMap encode ++ 255 :: rest) =
      (fields.filterMap id).foldl (fun p field => p.option field.code field.data) parsed := by
  induction fields generalizing parsed with
  | nil =>
    rw [parseFrom.eq_def]
    rfl
  | cons field fields ih =>
    rw [flatMap_cons, append_assoc, parseFrom.eq_def]
    cases field with
    | none => exact ih parsed
    | some field =>
      simp [encode, ih, field.code_ne, Nat.mod_eq_of_lt field.length_data]

/-- **Leases and their timers**, for all options of an acknowledgement and all times.

* The times of the lease are in order exactly if it is for less than `2^30` seconds.
* As long as it has not expired, its times and the timers that are armed for it are in order and
  lead along legal transitions exactly if moreover it is not armed between the times of renewal and
  rebinding: then the timer for renewal is missing. -/
theorem lease_timers_ordered_iff (ip serverIp : Ipv4Addr) (opts : ParsedOptions)
    (obtainedAt now : ℤ) :
    let lease := buildLeaseFromAck obtainedAt ip serverIp opts
    (lease.Ordered ↔ opts.seconds < 2 ^ 30) ∧
    (lease.Unexpired now →
      (lease.Ordered ∧ (LeaseTimers.arm now lease).InOrder ∧ (LeaseTimers.arm now lease).Legal ↔
        opts.seconds < 2 ^ 30 ∧ ¬(lease.obtainedAt + lease.renewalTime < now ∧
          now ≤ lease.obtainedAt + lease.rebindTime))) := by
  obtain ⟨hrebind, hrenewal⟩ := @buildLeaseFromAck_le ip serverIp opts obtainedAt
  refine ⟨ordered_iff, fun h => ?_⟩
  rw [ordered_iff, legal_arm_iff h hrenewal hrebind]
  constructor
  · rintro ⟨hseconds, -, hlegal⟩
    omega
  · rintro ⟨hseconds, hearly⟩
    have hordered := (@ordered_iff ip serverIp opts obtainedAt).2 hseconds
    refine ⟨hseconds, inOrder_arm h hordered, fun hnow => ⟨?_, hordered.1⟩⟩
    by_contra hlate
    exact hearly ⟨not_le.1 hlate, hnow⟩

/-- The last address. -/
def broadcast : Ipv4Addr := ⟨[255, 255, 255, 255], rfl⟩

/-- The options of an infinite lease. -/
def infinite : ParsedOptions := { leaseTime := some 0xFFFFFFFF }

/-- An hour, armed in time. -/
theorem lease_timers_ordered_iff_hour : (buildLeaseFromAck 0 broadcast broadcast {}).Ordered ∧
      (LeaseTimers.arm 0 (buildLeaseFromAck 0 broadcast broadcast {})).Legal := by
  have h := (lease_timers_ordered_iff broadcast broadcast {} 0 0).2 ⟨by decide, by decide⟩
  exact ⟨(h.2 (by decide)).1, (h.2 (by decide)).2.2⟩

/-- **Rebinding before renewal**: an infinite lease is to be rebound after 536870911 seconds and to
be renewed after 2147483647, and the first transition is rejected. So is it for a lease of an hour
that is armed again after forty minutes. -/
theorem infinite_lease_rebinds_first :
    let lease := buildLeaseFromAck 0 broadcast broadcast infinite
    lease.rebindTime = secs 536870911 ∧ lease.renewalTime = secs 2147483647 ∧
    (LeaseTimers.arm 0 lease).firings.map Prod.snd = [.rebinding, .renewing, .init] ∧
    transition State.bound State.rebinding = .error ⟨.bound, .rebinding⟩ ∧
    (LeaseTimers.arm (secs 2400) (buildLeaseFromAck 0 broadcast broadcast {})).firings.map
      Prod.snd = [.rebinding, .init] := by
  decide +kernel

end Dhcp

end Muak.Networkd
