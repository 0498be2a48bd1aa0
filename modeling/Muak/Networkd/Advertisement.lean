import Muak.Networkd.Slaac

/-!
# Router advertisements

`libs/netlib/src/slaac/icmpv6.rs`: the options of an advertisement are read one after the other into
one list of prefixes, one list of DNS servers and one lifetime for all of them.

* `optionsOf`: the options of a packet, up to one that is empty or cut off.
* `parseRouterAdvertisement_eq_ok`: what is kept of them.
* `advertisement_meets_iff`: when the manager does with them what they say.
-/

namespace Muak.Networkd.Slaac

open Clock Bytes List

/-! ## Parsing -/

/-- Why a packet is no advertisement. -/
inductive Failure
  | tooShort (len : ℕ)
  | wrongType (packetType : UInt8)
  deriving DecidableEq

variable (data : Bytes)

def readU16 (offset : ℕ) : Option UInt16 :=
  (slice data offset 2).map fun bytes => .ofNat (ofBe bytes)

def readU32 (offset : ℕ) : Option UInt32 :=
  (slice data offset 4).map fun bytes => .ofNat (ofBe bytes)

def Ipv6Addr.ofBytes (bytes : Bytes) : Option Ipv6Addr :=
  if h : bytes.length = 16 then some ⟨bytes, h⟩ else none

/-- The type of the first option, the option and what is after it. -/
def splitOption : Option (UInt8 × Bytes × Bytes) :=
  match data with
  | optType :: units :: _ =>
    if units = 0 then none
    else if units.toNat * 8 ≤ data.length then
      some (optType, data.take (units.toNat * 8), data.drop (units.toNat * 8))
    else none
  | _ => none

variable (option : Bytes) {optType : UInt8}

def parsePrefixOption : Option PrefixInfo := do
  if option.length < 32 then none
  let prefixLen ← option[2]?
  let flags ← option[3]?
  let network ← (slice option 16 16).bind Ipv6Addr.ofBytes
  some ⟨network, prefixLen.toNat, flags &&& 0x40 ≠ 0, ← readU32 option 4, ← readU32 option 8⟩

/-- The lifetime and the servers of an RDNSS option. -/
def rdnss : Option (UInt32 × List Ipv6Addr) := do
  if option.length < 24 then none
  some (← readU32 option 4,
    (chunks 16 ((option.length - 8) / 16) (option.drop 8)).filterMap Ipv6Addr.ofBytes)

def parseRdnssOption (ra : RouterAdvertisement) : RouterAdvertisement :=
  match rdnss option with
  | none => ra
  | some (lifetime, servers) =>
    { ra with dnsLifetime := lifetime, dnsServers := ra.dnsServers ++ servers }

def pushPrefixOption (ra : RouterAdvertisement) : RouterAdvertisement :=
  { ra with prefixes := ra.prefixes ++ (parsePrefixOption option).toList }

/-- What one option adds. -/
def parseOption (ra : RouterAdvertisement) (option : UInt8 × Bytes) : RouterAdvertisement :=
  if option.1 = 3 then pushPrefixOption option.2 ra
  else if option.1 = 25 then parseRdnssOption option.2 ra
  else ra

theorem length_of_splitOption {data option rest : Bytes}
    (h : splitOption data = some (optType, option, rest)) : rest.length < data.length := by
  rcases data with - | ⟨first, - | ⟨units, data⟩⟩
  · cases h
  · cases h
  · rw [splitOption] at h
    split_ifs at h with hz hle
    obtain ⟨rfl, rfl, rfl⟩ := Option.some.inj h
    have hp : units.toNat ≠ 0 := fun h0 => hz (UInt8.toNat_inj.1 h0)
    simp only [length_drop] at hle ⊢
    omega

/-- The loop over the options. -/
def parseOptions (options : Bytes) (ra : RouterAdvertisement) : RouterAdvertisement :=
  match _h : splitOption options with
  | none => ra
  | some (optType, option, remaining) => parseOptions remaining (parseOption ra (optType, option))
termination_by options.length
decreasing_by exact length_of_splitOption _h

/-- The hop limit and the flags of the header are not used and left out. -/
def parseRouterAdvertisement (source : Ipv6Addr) : Except Failure RouterAdvertisement :=
  if data.length < 16 then .error (.tooShort data.length)
  else do
    let packetType ← okOr data[0]? (.tooShort data.length)
    if packetType ≠ 134 then .error (.wrongType packetType)
    else
      let routerLifetime ← okOr (readU16 data 6) (.tooShort data.length)
      .ok (parseOptions (data.drop 16) ⟨routerLifetime, source, [], [], 0⟩)

/-! ## The options -/

/-- The options of a packet, in their order. -/
def optionsOf (options : Bytes) : List (UInt8 × Bytes) :=
  match _h : splitOption options with
  | none => []
  | some (optType, option, remaining) => (optType, option) :: optionsOf remaining
termination_by options.length
decreasing_by exact length_of_splitOption _h

variable (options : List (UInt8 × Bytes))

/-- The prefixes among the options. -/
def prefixesOf : List PrefixInfo :=
  options.filterMap fun option => if option.1 = 3 then parsePrefixOption option.2 else none

/-- The RDNSS options, each with its lifetime and its servers. -/
def rdnssOf : List (UInt32 × List Ipv6Addr) :=
  options.filterMap fun option => if option.1 = 25 then rdnss option.2 else none

/-- The lifetime of the last RDNSS option. -/
def lastLifetime (options : List (UInt32 × List Ipv6Addr)) (lifetime : UInt32) : UInt32 :=
  options.foldl (fun _ option => option.1) lifetime

theorem optionsOf_of_splitOption {options option remaining : Bytes}
    (h : splitOption options = some (optType, option, remaining)) :
    optionsOf options = (optType, option) :: optionsOf remaining := by
  rw [optionsOf]
  split <;> simp_all

theorem parseOptions_eq (options : Bytes) (ra : RouterAdvertisement) :
    parseOptions options ra = (optionsOf options).foldl parseOption ra := by
  fun_induction parseOptions options ra with
  | case1 options ra h => rw [optionsOf]; split <;> simp_all
  | case2 options ra optType option remaining h ih =>
    rw [ih, optionsOf_of_splitOption h, foldl_cons]

theorem foldl_parseOption (ra : RouterAdvertisement) : options.foldl parseOption ra =
      { ra with
        prefixes := ra.prefixes ++ prefixesOf options
        dnsServers := ra.dnsServers ++ (rdnssOf options).flatMap (·.2)
        dnsLifetime := lastLifetime (rdnssOf options) ra.dnsLifetime } := by
  induction options generalizing ra with
  | nil => simp [prefixesOf, rdnssOf, lastLifetime]
  | cons option options ih =>
    rw [foldl_cons, ih, parseOption]
    by_cases h₃ : option.1 = 3
    · cases hi : parsePrefixOption option.2 <;> simp [prefixesOf, rdnssOf, h₃, pushPrefixOption, hi]
    · by_cases h₂₅ : option.1 = 25
      · cases hi : rdnss option.2 <;>
          simp [prefixesOf, rdnssOf, h₂₅, parseRdnssOption, hi, lastLifetime]
      · simp [prefixesOf, rdnssOf, h₃, h₂₅]

/-- **What is kept of a packet.** -/
theorem parseRouterAdvertisement_eq_ok {data : Bytes} {source : Ipv6Addr}
    {ra : RouterAdvertisement} (h : parseRouterAdvertisement data source = .ok ra) :
    let options := optionsOf (data.drop 16)
    ra.source = source ∧ ra.prefixes = prefixesOf options ∧
      ra.dnsServers = (rdnssOf options).flatMap (·.2) ∧
      ra.dnsLifetime = lastLifetime (rdnssOf options) 0 := by
  rw [parseRouterAdvertisement] at h
  split_ifs at h
  obtain ⟨packetType, -, h⟩ := of_bind h
  split_ifs at h
  obtain ⟨routerLifetime, -, h⟩ := of_bind h
  rw [parseOptions_eq, foldl_parseOption] at h
  cases h
  exact ⟨rfl, rfl, rfl, rfl⟩

/-! ## The first prefix -/

/-- The prefixes that an address may be made from. -/
def PrefixInfo.Usable (info : PrefixInfo) : Prop :=
  info.autonomous = true ∧ info.prefixLen = 64 ∧ info.preferredLifetime ≤ info.validLifetime

instance (info : PrefixInfo) : Decidable info.Usable := inferInstanceAs (Decidable (_ ∧ _))

/-- The prefix that the manager takes. -/
def candidate (prefixes : List PrefixInfo) : Option PrefixInfo :=
  prefixes.find? fun info => info.autonomous ∧ info.prefixLen ≤ 64

/-- The first usable prefix. -/
def firstUsable (prefixes : List PrefixInfo) : Option PrefixInfo :=
  prefixes.find? fun info => info.Usable

theorem generate_eq_none_iff {network : Ipv6Addr} {prefixLen : ℕ} {mac : Mac} :
    generate network prefixLen mac = none ↔ 64 < prefixLen ∨ prefixLen % 8 ≠ 0 := by
  rw [generate]
  split_ifs with h <;> simp [h]

variable {prefixes : List PrefixInfo} {info : PrefixInfo}

theorem candidate_eq_some (h : candidate prefixes = some info) :
    info.autonomous = true ∧ info.prefixLen ≤ 64 := by
  simpa using find?_some h

theorem candidate_of_firstUsable_ne (h : firstUsable prefixes ≠ none) :
    candidate prefixes ≠ none := by
  intro hn
  refine h (find?_eq_none.2 fun info hi hu => ?_)
  have hu := of_decide_eq_true hu
  exact find?_eq_none.1 hn info hi (decide_eq_true ⟨hu.1, hu.2.1.le⟩)

/-- A usable prefix that the manager takes is the first one. -/
theorem firstUsable_of_candidate (h : candidate prefixes = some info) (hu : info.Usable) :
    firstUsable prefixes = some info := by
  obtain ⟨-, before, rest, rfl, hb⟩ := find?_eq_some_iff_append.1 h
  refine find?_eq_some_iff_append.2 ⟨decide_eq_true hu, before, rest, rfl, ?_⟩
  intro other ho
  have hn := hb other ho
  simp only [Bool.not_eq_true', decide_eq_false_iff_not] at hn ⊢
  exact fun ho => hn ⟨ho.1, ho.2.1.le⟩

/-! ## The servers -/

/-- The entries of one server after a refresh: the first one is extended. -/
theorem filter_refreshServer (now : ℤ) (lifetime : ℕ) (server other : Ipv6Addr)
    (servers : List ManagedDns) :
    (Manager.refreshServer now lifetime server servers).filter (·.value = other) =
      if other = server then
        .new now server lifetime :: (servers.filter (·.value = other)).tail
      else servers.filter (·.value = other) := by
  induction servers with
  | nil =>
    by_cases h : other = server
    · simp [Manager.refreshServer, Expiring.new, h]
    · simp [Manager.refreshServer, Expiring.new, h, Ne.symm h]
  | cons dns rest ih =>
    rw [Manager.refreshServer]
    by_cases hd : dns.value = server
    · by_cases h : other = server
      · simp [hd, h, Expiring.new, Expiring.refreshLifetime]
      · simp [hd, h, Ne.symm h, Expiring.refreshLifetime]
    · rw [if_neg hd, filter_cons, ih]
      by_cases h : other = server
      · simp [h, hd]
      · simp [h, filter_cons]

theorem filter_foldl_refreshServer (now : ℤ) (lifetime : ℕ) (other : Ipv6Addr)
    (listed : List Ipv6Addr) (servers : List ManagedDns) :
    (listed.foldl (fun servers server => Manager.refreshServer now lifetime server servers)
      servers).filter (·.value = other) =
      if other ∈ listed then .new now other lifetime :: (servers.filter (·.value = other)).tail
      else servers.filter (·.value = other) := by
  induction listed generalizing servers with
  | nil => rfl
  | cons server listed ih =>
    rw [foldl_cons, ih, filter_refreshServer]
    by_cases h : other = server
    · by_cases hm : server ∈ listed <;> simp [h]
    · simp [h]

theorem after_of_le_one {now : ℤ} (h : now ≤ 1) (lifetime : UInt32) :
    after now lifetime.toNat = now + secs lifetime.toNat := by
  have hlt := lifetime.toNat_lt
  exact after_of_lt (by rw [limit]; simp only [secs]; omega)

/-- Two lifetimes of 32 bits that start together end together only if they are the same. -/
theorem after_inj {lifetime lifetime' : UInt32}
    (h : after 0 lifetime.toNat = after 0 lifetime'.toNat) : lifetime = lifetime' := by
  rw [after_of_le_one (by decide), after_of_le_one (by decide)] at h
  simp only [secs] at h
  exact UInt32.toNat_inj.1 (by omega)

namespace Manager

variable {m : Manager} {options : List (UInt8 × Bytes)} {ra : RouterAdvertisement}

/-- **What the options say**, for an advertisement with these prefixes and RDNSS options: an address
is made from the first usable prefix, and a server is kept for the lifetime of its own option. -/
structure Meets (m : Manager) (options : List (UInt8 × Bytes)) (ra : RouterAdvertisement)
    (now : ℤ) : Prop where
  configured : ∀ m' event, m.processInitialRa now ra = .ok (m', event) →
    ∃ info address, firstUsable (prefixesOf options) = some info ∧
      generate info.network 64 m.mac = some address ∧
      m'.address = some (.new now address 64 ra.source info.validLifetime.toNat
        info.preferredLifetime.toNat)
  refused : ∀ e, m.processInitialRa now ra = .error e → firstUsable (prefixesOf options) = none
  learned : ∀ m' event, m.processInitialRa now ra = .ok (m', event) → ra.dnsServers ≠ [] →
    m'.dnsServers = (rdnssOf options).flatMap fun option =>
      option.2.map fun server => .new now server option.1.toNat
  refreshed : ∀ option ∈ rdnssOf options, ∀ server ∈ option.2,
    ∀ dns ∈ (m.refreshDnsFromRa now ra).dnsServers, dns.value = server →
      dns.expiresAt = after now option.1.toNat

/-- The prefix that is taken is usable, or nothing is configured and nothing could be; all servers
have the lifetime of the last RDNSS option and are known once at most. -/
structure Regular (m : Manager) (options : List (UInt8 × Bytes)) : Prop where
  prefixes : ∀ info, candidate (prefixesOf options) = some info →
    info.Usable ∨ info.prefixLen % 8 ≠ 0 ∧ firstUsable (prefixesOf options) = none
  lifetimes : ∀ option ∈ rdnssOf options, option.2 ≠ [] →
    option.1 = lastLifetime (rdnssOf options) 0
  once : ∀ option ∈ rdnssOf options, ∀ server ∈ option.2,
    (m.dnsServers.filter (·.value = server)).tail = []

theorem processInitialRa_cases (m : Manager) (now : ℤ) (ra : RouterAdvertisement) :
    (∃ info address m' event, candidate ra.prefixes = some info ∧
      generate info.network info.prefixLen m.mac = some address ∧
      m.processInitialRa now ra = .ok (m', event) ∧
      m'.address = some (.new now address info.prefixLen ra.source info.validLifetime.toNat
        info.preferredLifetime.toNat) ∧
      (ra.dnsServers ≠ [] → m'.dnsServers =
        ra.dnsServers.map fun server => .new now server ra.dnsLifetime.toNat)) ∨
    (∃ e, m.processInitialRa now ra = .error e) ∧
      ∀ info, candidate ra.prefixes = some info → info.prefixLen % 8 ≠ 0 := by
  change (∃ info address m' event, _ ∧ _ ∧ (okOr (candidate ra.prefixes) _ >>= _) = _ ∧ _) ∨
    (∃ e, (okOr (candidate ra.prefixes) _ >>= _) = _) ∧ _
  cases hc : candidate ra.prefixes with
  | none => exact .inr ⟨⟨_, rfl⟩, nofun⟩
  | some info =>
    dsimp only [okOr_some, bind, Except.bind]
    cases hg : generate info.network info.prefixLen m.mac with
    | none =>
      refine .inr ⟨⟨_, rfl⟩, ?_⟩
      rintro _ ⟨⟩
      have hle := (candidate_eq_some hc).2
      exact (generate_eq_none_iff.1 hg).resolve_left (by omega)
    | some address =>
      exact .inl ⟨info, address, _, _, rfl, hg, rfl, rfl, fun hne => if_neg hne⟩

theorem filter_refreshDnsFromRa {now : ℤ} {server : Ipv6Addr} (h : server ∈ ra.dnsServers) :
    (m.refreshDnsFromRa now ra).dnsServers.filter (·.value = server) =
      .new now server ra.dnsLifetime.toNat :: (m.dnsServers.filter (·.value = server)).tail :=
  (filter_foldl_refreshServer ..).trans (if_pos h)

/-- The servers expire with their own options when the advertisement is regular in that. -/
theorem refreshed_iff (hs : ra.dnsServers = (rdnssOf options).flatMap (·.2))
    (hl : ra.dnsLifetime = lastLifetime (rdnssOf options) 0) :
    (∀ now, ∀ option ∈ rdnssOf options, ∀ server ∈ option.2,
      ∀ dns ∈ (m.refreshDnsFromRa now ra).dnsServers, dns.value = server →
        dns.expiresAt = after now option.1.toNat) ↔
      ∀ option ∈ rdnssOf options, ∀ server ∈ option.2, option.1 = lastLifetime (rdnssOf options) 0 ∧
          (m.dnsServers.filter (·.value = server)).tail = [] := by
  rw [forall_comm]
  refine forall_congr' fun option => ?_
  rw [forall_comm]
  refine forall_congr' fun ho => ?_
  rw [forall_comm]
  refine forall_congr' fun server => ?_
  rw [forall_comm]
  refine forall_congr' fun hsr => ?_
  have hls : server ∈ ra.dnsServers := hs ▸ mem_flatMap.2 ⟨option, ho, hsr⟩
  have he : ∀ now, (∀ dns ∈ (m.refreshDnsFromRa now ra).dnsServers, dns.value = server →
      dns.expiresAt = after now option.1.toNat) ↔
      after now ra.dnsLifetime.toNat = after now option.1.toNat ∧
        ∀ dns ∈ (m.dnsServers.filter (·.value = server)).tail,
          dns.expiresAt = after now option.1.toNat := by
    intro now
    have hf := @filter_refreshDnsFromRa m ra now server hls
    have hc := @List.forall_mem_cons _ (fun dns : ManagedDns =>
      dns.expiresAt = after now option.1.toNat) (.new now server ra.dnsLifetime.toNat)
      (m.dnsServers.filter (·.value = server)).tail
    rw [← hf] at hc
    refine Iff.trans ?_ hc
    simp
  simp only [he]
  rw [← hl]
  constructor
  · intro h
    refine ⟨(after_inj (h 0).1).symm, eq_nil_iff_forall_not_mem.2 fun dns hd => ?_⟩
    -- an entry that stays behind would have to expire at two different times
    have hz := (h 0).2 dns hd
    have hon := (h 1).2 dns hd
    rw [after_of_le_one (by decide)] at hz hon
    omega
  · rintro ⟨heq, ht⟩ now
    rw [heq, ht]
    exact ⟨rfl, nofun⟩

end Manager

/-- **An advertisement is followed exactly if it is regular.** -/
theorem advertisement_meets_iff (data : Bytes) (source : Ipv6Addr) (m : Manager)
    (ra : RouterAdvertisement) (h : parseRouterAdvertisement data source = .ok ra) :
    (∀ now, m.Meets (optionsOf (data.drop 16)) ra now) ↔ m.Regular (optionsOf (data.drop 16)) := by
  obtain ⟨-, hp, hsr, hl⟩ := parseRouterAdvertisement_eq_ok h
  generalize optionsOf (data.drop 16) = options at *
  constructor
  · intro hm
    have hd := (Manager.refreshed_iff hsr hl).1 fun now => (hm now).refreshed
    refine ⟨fun info hi => ?_, fun option ho hne => ?_, fun option ho server hs =>
      (hd option ho server hs).2⟩
    · rw [← hp] at hi
      obtain ⟨info', address, m', event, hc, hg, hok, ha, -⟩ |
        ⟨⟨e, her⟩, hrf⟩ := m.processInitialRa_cases 0 ra
      · obtain rfl := Option.some.inj (hi.symm.trans hc)
        obtain ⟨first, address', hf, -, ha'⟩ := (hm 0).configured m' event hok
        have heq := Option.some.inj (ha.symm.trans ha')
        have hu : first.Usable := by
          simpa using find?_some hf
        simp only [ManagedAddress.new, ManagedAddress.mk.injEq] at heq
        obtain ⟨-, hlen, -, hv, hpr, -⟩ := heq
        refine .inl ⟨(candidate_eq_some hi).1, hlen, ?_⟩
        rw [after_inj hv, after_inj hpr]
        exact hu.2.2
      · exact .inr ⟨hrf info hi, (hm 0).refused e her⟩
    · obtain ⟨server, hs⟩ := exists_mem_of_ne_nil _ hne
      exact (hd option ho server hs).1
  · intro hr now
    have hd := (Manager.refreshed_iff hsr hl).2 fun option ho server hs =>
      ⟨hr.lifetimes option ho (ne_nil_of_mem hs), hr.once option ho server hs⟩
    obtain ⟨info, address, m', event, hc, hg, hok, ha, hlr⟩ |
      ⟨⟨e, her⟩, hrf⟩ := m.processInitialRa_cases now ra
    · rw [hp] at hc
      have hu : info.Usable := by
        refine (hr.prefixes info hc).resolve_right fun hod => ?_
        rw [generate_eq_none_iff.2 (.inr hod.1)] at hg
        cases hg
      rw [hu.2.1] at hg ha
      refine ⟨?_, ?_, ?_, hd now⟩
      · rintro m₁ event₁ hok₁
        obtain ⟨rfl, -⟩ := Prod.mk.inj (Except.ok.inj (hok.symm.trans hok₁))
        exact ⟨info, address, firstUsable_of_candidate hc hu, hg, ha⟩
      · intro e he
        rw [hok] at he
        cases he
      · rintro m₁ event₁ hok₁ hne
        obtain ⟨rfl, -⟩ := Prod.mk.inj (Except.ok.inj (hok.symm.trans hok₁))
        rw [hlr hne, hsr, map_flatMap, hl]
        refine flatMap_congr fun option ho => map_congr_left fun server hs => ?_
        rw [hr.lifetimes option ho (ne_nil_of_mem hs)]
    · have hn : firstUsable (prefixesOf options) = none := by
        by_contra hne
        obtain ⟨info, hi⟩ := Option.ne_none_iff_exists'.1 (candidate_of_firstUsable_ne hne)
        rcases hr.prefixes info hi with hu | hod
        · exact hrf info (hp ▸ hi) (by rw [hu.2.1])
        · exact hne hod.2
      refine ⟨?_, fun _ _ => hn, ?_, hd now⟩
      all_goals
        intro m₁ event₁ hok₁
        rw [her] at hok₁
        cases hok₁

def gateway : Ipv6Addr := withoutServers.source

/-- A packet with these options. -/
def packet (options : Bytes) : Bytes := [134, 0, 0, 0, 64, 0, 7, 8] ++ zeros 8 ++ options

/-- A prefix option for `2001:db8::`. -/
def prefixOption (bits : UInt8) (valid preferred : ℕ) : Bytes :=
  [3, 4, bits, 0x40] ++ beBytes 4 valid ++ beBytes 4 preferred ++ zeros 4 ++
    [0x20, 0x01, 0x0d, 0xb8] ++ zeros 12

/-- An RDNSS option with one server. -/
def rdnssOption (lifetime : ℕ) (server : UInt8) : Bytes :=
  [25, 3, 0, 0] ++ beBytes 4 lifetime ++ [0x20, 0x01, 0x0d, 0xb8] ++ zeros 11 ++ [server]

/-- The manager follows an advertisement of one prefix and one server. -/
theorem plain_advertisement_meets :
    let data := packet (prefixOption 64 7200 3600 ++ rdnssOption 600 1)
    ∃ ra, parseRouterAdvertisement data gateway = .ok ra ∧ ra.prefixes.length = 1 ∧
      ra.dnsServers.length = 1 ∧
      ∀ now, (Manager.new ⟨2, 0, 0, 0, 0, 1⟩ []).Meets (optionsOf (data.drop 16)) ra now := by
  intro data
  have hok : (parseRouterAdvertisement data gateway).toOption.isSome = true := by decide +kernel
  obtain ⟨ra, hra⟩ : ∃ ra, parseRouterAdvertisement data gateway = .ok ra := by
    cases h : parseRouterAdvertisement data gateway with
    | error e => rw [h] at hok; cases hok
    | ok ra => exact ⟨ra, rfl⟩
  obtain ⟨-, hp, hs, -⟩ := parseRouterAdvertisement_eq_ok hra
  refine ⟨ra, hra, ?_, ?_, (advertisement_meets_iff data gateway _ ra hra).2 ⟨?_, ?_, ?_⟩⟩
  · rw [hp]
    decide +kernel
  · rw [hs]
    decide +kernel
  · intro info hi
    have hu : (candidate (prefixesOf (optionsOf (data.drop 16)))).all
      (fun info => decide info.Usable) = true := by decide +kernel
    rw [hi] at hu
    exact .inl (of_decide_eq_true hu)
  · decide +kernel
  · intro option _ server _
    rfl

/-- The first of two servers gets the lifetime of the second option, and an address is made from a
prefix of 32 bits and from one whose preferred lifetime is above the valid one. -/
theorem lifetime_of_last_option :
    let m := Manager.new ⟨2, 0, 0, 0, 0, 1⟩ []
    let process := fun options => (parseRouterAdvertisement (packet options) gateway).toOption.bind
      fun ra => (m.processInitialRa 0 ra).toOption.map (·.1)
    let firstServer : Ipv6Addr := ⟨[0x20, 0x01, 0x0d, 0xb8] ++ zeros 11 ++ [1], by decide⟩
    ((rdnssOf (optionsOf (rdnssOption 600 1 ++ rdnssOption 60 2))).map (·.1) = [600, 60] ∧
      (process (prefixOption 64 7200 3600 ++ rdnssOption 600 1 ++ rdnssOption 60 2)).bind
        (fun m => m.dnsServers[0]?) = some ⟨firstServer, secs 60⟩) ∧
      ((process (prefixOption 32 7200 3600)).any (·.address.isSome) = true ∧
        (firstUsable (prefixesOf (optionsOf (prefixOption 32 7200 3600)))).isNone) ∧
      ((process (prefixOption 64 60 3600)).any (·.address.isSome) = true ∧
        (firstUsable (prefixesOf (optionsOf (prefixOption 64 60 3600)))).isNone) := by
  decide +kernel

end Muak.Networkd.Slaac
