import Muak.Networkd.SupervisorLoop

/-!
# The primary interface and its backups

Names move between the primary interface and the backups when links fail and recover, and they come
and go with the links.

* `roles`: the primary interface and the backups, of which a promotion makes a permutation.
* `Booked`: the roles of the interfaces that were reported.
* `booked_turn`, `booked_always`: every turn of the loop keeps them.
-/

namespace Muak.Networkd.Supervisor

open NetworkSupervisor

variable {s s' : NetworkSupervisor} {names : List Name}

/-- The primary interface, if there is one, and the backups. -/
def roles (s : NetworkSupervisor) : List Name := s.state.primary.toList ++ s.state.backups

/-- **The bookkeeping**, with the interfaces that are to have a role: no name has two of them, each
has an actor, and there are no backups without a primary interface. -/
structure Booked (s : NetworkSupervisor) (names : List Name) : Prop where
  nodup : (roles s).Nodup
  live : ∀ name ∈ roles s, name ∈ s.interfaces.keys
  all : ∀ name ∈ names, name ∈ roles s
  nobody : s.state.primary = none → s.state.backups = []

/-! ## Promotion -/

section

variable (h : Booked s names)

include h

theorem Booked.extends (he : Extends s s') : Booked s' names := by
  have hr : roles s' = roles s := by rw [roles, roles, he.primary, he.backups]
  refine ⟨hr ▸ h.nodup, fun name hn => ?_, hr ▸ h.all, fun hnn => ?_⟩
  · exact he.keys name (h.live name (hr ▸ hn))
  · rw [he.backups]
    exact h.nobody (he.primary ▸ hnn)

theorem Booked.same (hs : Same s s') : Booked s' names := h.extends hs.extends

theorem Booked.promote {primary backup : Name} (hp : s.state.primary = some primary)
    (hb : backup ∈ s.state.backups) : Booked (promote s primary backup) names := by
  have hr : roles s = primary :: s.state.backups := by rw [roles, hp]; rfl
  have hn := (List.nodup_cons.1 (hr ▸ h.nodup)).2
  have hpr : (roles (Supervisor.promote s primary backup)).Perm (roles s) := by
    have hf : s.state.backups.filter (· ≠ backup) = s.state.backups.erase backup := by
      rw [hn.erase_eq_filter]
      exact List.filter_congr fun name _ => by simp [bne, beq_eq_decide]
    rw [hr]
    change (backup :: (s.state.backups.filter (· ≠ backup) ++ [primary])).Perm _
    rw [hf]
    exact ((List.perm_append_singleton primary _).cons backup).trans
      ((List.Perm.swap primary backup _).trans ((List.perm_cons_erase hb).symm.cons primary))
  refine ⟨hpr.nodup_iff.2 h.nodup, fun name hnm => h.live name (hpr.mem_iff.1 hnm),
    fun name hnm => hpr.mem_iff.2 (h.all name hnm), fun hnn => ?_⟩
  cases hnn

theorem Booked.shifts (hs : Shifts s s') : Booked s' names := by
  induction hs with
  | refl => exact h
  | same _ hsm ih => exact ih.same hsm
  | promote _ hp hb ih => exact ih.promote hp hb

/-! ## Links that come and go -/

/-- A name that has no actor is given a role. -/
theorem Booked.onLinkAdded (name : Name) (index : ℕ) (mac : Slaac.Mac)
    (hnw : name ∉ s.interfaces.keys) : Booked (s.onLinkAdded name index mac) (name :: names) := by
  rw [NetworkSupervisor.onLinkAdded, if_neg hnw]
  have hs := extends_spawnInterfaceActor (s := s) (discovered name index mac .up)
  have hn := mem_keys_spawnInterfaceActor (s := s) (discovered name index mac .up)
  have hf : name ∉ roles s := fun hm => hnw (h.live name hm)
  have hb := h.extends hs
  have hr : roles (s.spawnInterfaceActor (discovered name index mac .up)) = roles s := by
    rw [roles, roles, hs.primary, hs.backups]
  generalize s.spawnInterfaceActor (discovered name index mac .up) = s₁ at hn hb hr ⊢
  -- the new name is put before, or into, the roles
  have hpt : ∀ s₂ : NetworkSupervisor, s₂.interfaces = s₁.interfaces → s₂.state.primary ≠ none →
      (roles s₂).Perm (name :: roles s₁) → Booked s₂ (name :: names) := by
    intro s₂ hi hsm hpr
    rw [← hr] at hf
    refine ⟨hpr.nodup_iff.2 (List.nodup_cons.2 ⟨hf, hb.nodup⟩), ?_, ?_,
      fun hnn => absurd hnn hsm⟩
    · simp only [hpr.mem_iff, hi, List.forall_mem_cons]
      exact ⟨hn, hb.live⟩
    · simp only [hpr.mem_iff, List.forall_mem_cons]
      exact ⟨List.mem_cons_self, fun other ho => List.mem_cons_of_mem _ (hb.all _ ho)⟩
  refine Booked.same ?_ same_syncAndPublish
  cases hp : s₁.state.primary with
  | none =>
    refine hpt _ rfl (by simp) ?_
    rw [roles, roles, hp]
    exact .rfl
  | some primary =>
    refine hpt _ rfl (by simp [hp]) ?_
    rw [roles, roles, hp]
    exact ((List.perm_insertIdx name _ partitionPoint_le).cons primary).trans (.swap name primary _)

end

theorem roles_handlePrimaryRemoved {name : Name} (hp : s.state.primary = some name)
    (h : (roles s).Nodup) : roles s.handlePrimaryRemoved = (roles s).filter (· ≠ name) ∧
      (s.handlePrimaryRemoved.state.primary = none → s.handlePrimaryRemoved.state.backups = []) ∧
      s.handlePrimaryRemoved.interfaces = s.interfaces := by
  have hr : roles s = name :: s.state.backups := by rw [roles, hp]; rfl
  rw [hr, List.nodup_cons] at h
  have hf : (name :: s.state.backups).filter (· ≠ name) = s.state.backups := by
    rw [List.filter_cons_of_neg (by simp), List.filter_eq_self.2]
    exact fun other ho => decide_eq_true fun heq : other = name => h.1 (heq ▸ ho)
  rw [hr, hf, handlePrimaryRemoved]
  cases hb : s.state.backups with
  | cons newPrimary rest =>
    rw [hb, List.nodup_cons] at h
    refine ⟨?_, fun hn => (by cases hn), rfl⟩
    change newPrimary :: (newPrimary :: rest).filter (· ≠ newPrimary) = _
    rw [List.filter_cons_of_neg (by simp), List.filter_eq_self.2]
    exact fun other ho => decide_eq_true fun heq : other = newPrimary => h.2.1 (heq ▸ ho)
  | nil =>
    dsimp only
    cases ht : ({ s with state.primary := none } : NetworkSupervisor).transition .degraded with
    | error e => exact ⟨hb, fun _ => hb, rfl⟩
    | ok s' =>
      have hs := same_transition ht
      refine ⟨?_, fun _ => hs.backups.trans hb, hs.interfaces⟩
      rw [roles, hs.primary, hs.backups]
      exact hb

/-- A name that is gone has no role. -/
theorem Booked.onLinkDeleted (h : Booked s names) (name : Name) :
    Booked (s.onLinkDeleted name) (names.filter (· ≠ name)) := by
  by_cases hk : name ∈ s.interfaces.keys
  swap
  · rw [NetworkSupervisor.onLinkDeleted, if_pos hk]
    exact ⟨h.nodup, h.live, fun other ho => h.all other (List.mem_of_mem_filter ho), h.nobody⟩
  rw [NetworkSupervisor.onLinkDeleted, if_neg (not_not_intro hk)]
  obtain ⟨hp, hb⟩ := roles_removeActor name
  have hrl : roles (s.removeActor name) = roles s := by rw [roles, roles, hp, hb]
  have hd : ∀ s₂ : NetworkSupervisor, s₂.interfaces = (s.removeActor name).interfaces →
      roles s₂ = (roles s).filter (· ≠ name) →
      (s₂.state.primary = none → s₂.state.backups = []) →
      Booked s₂ (names.filter (· ≠ name)) := by
    intro s₂ hi hf hn
    refine ⟨hf ▸ h.nodup.filter _, fun other ho => ?_, fun other ho => ?_, hn⟩
    · rw [hf, List.mem_filter] at ho
      rw [hi, mem_keys_removeActor]
      exact ⟨of_decide_eq_true ho.2, h.live other ho.1⟩
    · rw [List.mem_filter] at ho
      rw [hf, List.mem_filter]
      exact ⟨h.all other ho.1, ho.2⟩
  refine Booked.same ?_ same_syncAndPublish
  split_ifs with his
  · obtain ⟨hr, hn, hi⟩ := roles_handlePrimaryRemoved his (hrl ▸ h.nodup)
    exact hd _ hi (hr.trans (by rw [hrl])) hn
  · rw [hp] at his
    refine hd _ rfl ?_ fun hnn => ?_
    · have hkp : s.state.primary.toList.filter (· ≠ name) = s.state.primary.toList := by
        refine List.filter_eq_self.2 fun other ho => decide_eq_true fun heq => his ?_
        rw [← heq]
        exact Option.mem_toList.1 ho
      rw [roles, roles, List.filter_append, hkp, ← hp, ← hb]
    · change (s.removeActor name).state.primary = none at hnn
      rw [hb, h.nobody (hp ▸ hnn), List.filter_nil]

/-! ## Initialization -/

/-- The interfaces of a discovery that finds a carrier. -/
def selected (answers : Answers) : List Name :=
  match answers.discoverEthernet with
  | none => []
  | some found => if answers.probeCarriers.any (·.2) then found.map (·.name) else []

/-- The kernel reports every interface once. -/
def Answers.Distinct (answers : Answers) : Prop :=
  ∀ found, answers.discoverEthernet = some found → (found.map (·.name)).Nodup

theorem Booked.giveUp (h : Booked s names) (error : InitializeError) :
    Booked (s.giveUp error).1 names := by
  rw [NetworkSupervisor.giveUp]
  cases ht : s.transition .degraded with
  | error e => exact h
  | ok s' => exact h.same ((same_transition ht).trans same_publishState)

/-- Everything that was found has a role. -/
theorem booked_selectPrimaryInterface {found : List Ethernet} {primary : Ethernet}
    (hp : primary ∈ found) (hd : (found.map (·.name)).Nodup)
    (hl : ∀ iface ∈ found, iface.name ∈ s.interfaces.keys) :
    Booked (s.selectPrimaryInterface found primary) (found.map (·.name)) := by
  have hpr : (roles (s.selectPrimaryInterface found primary)).Perm
      (primary.name :: (found.filter (·.name ≠ primary.name)).map (·.name)) :=
    ((List.perm_insertionSort _ _).map _).cons _
  have hm : ∀ name, name ∈ roles (s.selectPrimaryInterface found primary) ↔
      name ∈ found.map (·.name) := by
    intro name
    simp only [hpr.mem_iff, List.mem_cons, List.mem_map, List.mem_filter, decide_eq_true_eq]
    constructor
    · rintro (rfl | ⟨iface, ⟨hi, -⟩, rfl⟩)
      · exact ⟨primary, hp, rfl⟩
      · exact ⟨iface, hi, rfl⟩
    · rintro ⟨iface, hi, rfl⟩
      by_cases heq : iface.name = primary.name
      · exact .inl heq
      · exact .inr ⟨iface, ⟨hi, heq⟩, rfl⟩
  refine ⟨hpr.nodup_iff.2 (List.nodup_cons.2 ⟨?_, ?_⟩), fun name hn => ?_,
    fun name hn => (hm name).2 hn, fun hnn => ?_⟩
  · simp
  · exact (List.filter_sublist.map _).nodup hd
  · obtain ⟨iface, hi, rfl⟩ := List.mem_map.1 ((hm name).1 hn)
    exact hl iface hi
  · cases hnn

theorem booked_discoverInterfaces {answers : Answers} (hd : answers.Distinct) :
    Booked (s.reset.discoverInterfaces answers).1 (selected answers) := by
  have he : Booked ({ s.reset with state.state := .initializing } :
      NetworkSupervisor).publishState [] := ⟨List.nodup_nil, nofun, nofun, fun _ => rfl⟩
  have hi : s.reset.transition .initializing =
      .ok { s.reset with state.state := .initializing } := rfl
  rw [discoverInterfaces, hi, selected]
  dsimp only
  generalize ({ s.reset with state.state := .initializing } :
    NetworkSupervisor).publishState = s₁ at he ⊢
  cases hf : answers.discoverEthernet with
  | none => exact he
  | some found =>
    dsimp only
    split_ifs with hnl hc hc
    · rw [List.isEmpty_iff.1 hnl]
      exact he.giveUp _
    · exact he.giveUp _
    · have hn : (found.map fun iface => { iface with
          linkState := carrierLinkState (answers.probeCarriers.lookup iface.index) }).map (·.name) =
          found.map (·.name) := by
        rw [List.map_map]
        rfl
      have hd := hd found hf
      rw [← hn] at hd ⊢
      have hne : (found.map fun iface => { iface with
          linkState := carrierLinkState (answers.probeCarriers.lookup iface.index) }) ≠ [] :=
        fun h => hnl (List.isEmpty_iff.2 (List.map_eq_nil_iff.1 h))
      generalize (found.map fun iface => { iface with
        linkState := carrierLinkState (answers.probeCarriers.lookup iface.index) }) = found
        at hd hne ⊢
      cases hs : selectPrimary found with
      | none =>
        cases found with
        | nil => exact absurd rfl hne
        | cons first rest => cases hs
      | some primary =>
        have hb := @booked_selectPrimaryInterface (s₁.spawnInterfaceActors found) found primary
          (mem_of_selectPrimary hs) hd fun iface h => mem_keys_spawnInterfaceActors h
        dsimp only
        cases ht : ((s₁.spawnInterfaceActors found).selectPrimaryInterface found
            primary).transition .operational with
        | error e => exact hb
        | ok s₂ => exact hb.same ((same_transition ht).trans same_syncAndPublish)
    · exact he.giveUp _

theorem booked_initializeNetwork {answers : Answers} (hds : answers.Distinct) :
    Booked (s.initializeNetwork answers).1 (selected answers) := by
  have hd := booked_discoverInterfaces (s := s) hds
  rw [initializeNetwork]
  rcases hr : s.reset.discoverInterfaces answers with ⟨s', result⟩
  rw [hr] at hd
  cases result with
  | error e => exact hd
  | ok =>
    have hb := hd.extends (extends_provisionInterfaces answers)
    dsimp only
    cases ht : (s'.provisionInterfaces answers).transition .ready with
    | error e => exact hb
    | ok s'' => exact hb.same ((same_transition ht).trans same_publishState)

/-! ## Runs -/

theorem Booked.publish (h : Booked s names) (name : Name) (snapshot : InterfaceSnapshot) :
    Booked (publish s name snapshot) names := by
  have hs := (state_publish (s := s) name snapshot).1
  have hr : roles (Supervisor.publish s name snapshot) = roles s := by rw [roles, hs, roles]
  refine ⟨hr ▸ h.nodup, fun other ho => ?_, hr ▸ h.all, hs ▸ h.nobody⟩
  exact mem_keys_publish (h.live other (hr ▸ ho))

/-- An event of the supervisor with the answers to its handler, or a publication of an actor. -/
inductive Turn
  | publish (name : Name) (snapshot : InterfaceSnapshot)
  | event (answers : Answers) (event : SupervisorEvent)

/-- The interfaces found have different names. -/
def Turn.Distinct : Turn → Prop
  | .publish _ _ => True
  | .event answers _ => answers.Distinct

/-- One turn of the supervisor. -/
def act (s : NetworkSupervisor) : Turn → NetworkSupervisor
  | .publish name snapshot => publish s name snapshot
  | .event answers event => s.handle answers event

/-- The interfaces that are to have a role: an initialization starts over with those of its
discovery, and a link that is added counts if it has no actor yet. -/
def reported (s : NetworkSupervisor) (names : List Name) : Turn → List Name
  | .event answers (.command .initializeNetwork) => selected answers
  | .event _ (.netlink (.added name _ _)) =>
    if name ∈ s.interfaces.keys then names else name :: names
  | .event _ (.netlink (.deleted name)) => names.filter (· ≠ name)
  | _ => names

/-- A turn of the loop, with the interfaces that were reported so far. -/
def turn (w : NetworkSupervisor × List Name) (t : Turn) : NetworkSupervisor × List Name :=
  (act w.1 t, reported w.1 w.2 t)

/-- **Every turn keeps the bookkeeping.** -/
theorem booked_turn (h : Booked s names) {t : Turn} (ht : t.Distinct) :
    Booked (turn (s, names) t).1 (turn (s, names) t).2 := by
  rcases t with ⟨name, snapshot⟩ | ⟨answers, event⟩
  · exact h.publish name snapshot
  rcases event with cmd | event | - | -
  · cases cmd with
    | initializeNetwork => exact booked_initializeNetwork ht
    | reconcile => exact h.extends (extends_reconcile answers)
  · rcases event with name | name | ⟨name, index, mac⟩ | name
    · exact h.shifts (shifts_onLinkUp name)
    · exact h.shifts (shifts_onLinkDown name)
    · by_cases hk : name ∈ s.interfaces.keys
      · have ha : act s (.event answers (.netlink (.added name index mac))) = s := if_pos hk
        rwa [turn, ha, reported, if_pos hk]
      · rw [turn, reported, if_neg hk]
        exact h.onLinkAdded name index mac hk
    · exact h.onLinkDeleted name
  · exact (h.shifts shifts_maybeFailoverPrimary).same same_flushDns
  · exact h.extends (extends_reconcile answers)

/-- **The primary interface and its backups**, after every run from the start. -/
theorem booked_always (config : Config) (turns : List Turn) (h : ∀ t ∈ turns, t.Distinct) :
    let w := runFrom turn (.new config, []) turns
    Booked w.1 w.2 ∧ (w.1.state.primary = none → w.2 = []) := by
  intro w
  have hb : Booked w.1 w.2 :=
    runFrom_invariant_mem (fun w : NetworkSupervisor × List Name => Booked w.1 w.2)
      (fun t ht _ hw => booked_turn hw (h t ht)) ⟨List.nodup_nil, nofun, nofun, fun _ => rfl⟩
  refine ⟨hb, fun hn => List.eq_nil_iff_forall_not_mem.2 fun name hnm => ?_⟩
  have hr := hb.all name hnm
  rw [roles, hn, hb.nobody hn] at hr
  cases hr

/-- A discovery of these interfaces, all with a carrier or none. -/
def discovery (found : List Ethernet) (carrier : Bool) : Answers :=
  { Answers.nothing with
    discoverEthernet := some found
    probeCarriers := found.map fun iface => (iface.index, carrier) }

def eth1 : Name := ⟨"eth1", by decide⟩

def br0 : Name := ⟨"br0", by decide⟩

def mac1 : Slaac.Mac := ⟨2, 0, 0, 0, 0, 1⟩

/-- A link that is added after a discovery becomes a backup. -/
theorem booked_two :
    let w := runFrom turn (.new ⟨false, [], []⟩, [])
      [.event (discovery [⟨eth0, 1, mac1, .up⟩] true) (.command .initializeNetwork),
        .event .nothing (.netlink (.added eth1 2 mac1))]
    w.2 = [eth1, eth0] ∧ w.1.state.primary = some eth0 ∧ Booked w.1 w.2 := by
  refine ⟨by decide +kernel, by decide +kernel, (booked_always _ _ ?_).1⟩
  rintro t (_ | ⟨_, _ | ⟨_, h⟩⟩)
  · rintro _ ⟨⟩
    exact List.nodup_singleton _
  · nofun
  · cases h

/-- The interfaces of every discovery and of every link that was added, without those that were
deleted since. -/
def heard (names : List Name) : Turn → List Name
  | .event answers (.command .initializeNetwork) =>
    (answers.discoverEthernet.getD []).map (·.name) ++ names
  | .event _ (.netlink (.added name _ _)) => name :: names
  | .event _ (.netlink (.deleted name)) => names.filter (· ≠ name)
  | _ => names

/-- An interface without a role, though it was heard of: no carrier was found, or the name is the
one of a bridge with an actor of its own, or the network was initialized again. -/
theorem heard_without_role :
    let unplugged : List Turn :=
      [.event (discovery [⟨eth0, 1, mac1, .up⟩] false) (.command .initializeNetwork)]
    let bridged : List Turn :=
      [.event { discovery [⟨eth0, 1, mac1, .up⟩] true with
          waitForConfigured := fun _ => true
          bridgeReply := fun _ _ => some (discovered br0 3 mac1 .up) }
        (.command .initializeNetwork),
        .event .nothing (.netlink (.added br0 3 mac1))]
    let again : List Turn :=
      [.event .nothing (.netlink (.added eth1 2 mac1)),
        .event (discovery [⟨eth0, 1, mac1, .up⟩] true) (.command .initializeNetwork)]
    let config : Config := ⟨false, [], [⟨"br0", .bridge, none, none, some ⟨["auto"], false⟩⟩]⟩
    let run := fun turns => (runFrom turn (.new config, []) turns).1
    ((run unplugged).state.primary = none ∧ eth0 ∈ runFrom heard [] unplugged) ∧
      (br0 ∉ roles (run bridged) ∧ br0 ∈ runFrom heard [] bridged) ∧
      eth1 ∉ roles (run again) ∧ eth1 ∈ runFrom heard [] again := by
  decide +kernel

end Muak.Networkd.Supervisor
