import Muak.Networkd.Supervisor

/-!
# The supervisor loop

The loop clones the receiver of the primary interface's channel for every turn, and the original
never sees a change.

* `Extends`, `Grows`: what a handler can do to the table of actors, and to the roles.
* `Placed`: the primary interface and the backups are known, and apart.
* `Loop.Handled`: the changes of the primary interface that were delivered are no more than it has
  published, and the loop rests when they are as many.
* `handled_step_iff`, `changes_handled_once_iff`: exactly which turns, and which runs, keep this.
* `change_delivered_forever`: a single publication is delivered in every turn, and no tick is.
-/

namespace Muak.Networkd.Supervisor

open NetworkSupervisor List Option Nat Dict

/-! ## What handlers do -/

variable {s s' s'' : NetworkSupervisor} {primary : Ethernet}

/-- The table of actors and the roles are the same. -/
structure Same (s s' : NetworkSupervisor) : Prop where
  interfaces : s'.interfaces = s.interfaces
  spawned : s'.spawned = s.spawned
  primary : s'.state.primary = s.state.primary
  backups : s'.state.backups = s.state.backups

/-- Every actor is one that was there or one that was spawned since then; its receiver has seen the
first snapshot. -/
structure Grows (s s' : NetworkSupervisor) : Prop where
  spawned : s.spawned ≤ s'.spawned
  handles : ∀ name handle, s'.interfaces.get? name = some handle →
    s.interfaces.get? name = some handle ∨
      (s.spawned ≤ handle.actor ∧ handle.actor < s'.spawned ∧ handle.stateRx.seen = 0)

/-- Actors are spawned, and the roles stay as they are. -/
structure Extends (s s' : NetworkSupervisor) : Prop extends Grows s s' where
  primary : s'.state.primary = s.state.primary
  backups : s'.state.backups = s.state.backups
  keys : ∀ name, name ∈ s.interfaces.keys → name ∈ s'.interfaces.keys

theorem Same.refl (s : NetworkSupervisor) : Same s s := ⟨rfl, rfl, rfl, rfl⟩

theorem Same.trans (h : Same s s') (h' : Same s' s'') : Same s s'' where
  interfaces := h'.interfaces.trans h.interfaces
  spawned := h'.spawned.trans h.spawned
  primary := h'.primary.trans h.primary
  backups := h'.backups.trans h.backups

theorem Grows.of_eq (hi : s'.interfaces = s.interfaces) (hs : s'.spawned = s.spawned) :
    Grows s s' where
  spawned := hs.ge
  handles _ _ h := .inl (hi ▸ h)

theorem Grows.trans (h : Grows s s') (h' : Grows s' s'') : Grows s s'' where
  spawned := h.spawned.trans h'.spawned
  handles name handle hget := by
    rcases h'.handles name handle hget with hget | ⟨hle, hlt, hs⟩
    · rcases h.handles name handle hget with hget | ⟨hle, hlt, hs⟩
      · exact .inl hget
      · exact .inr ⟨hle, hlt.trans_le h'.spawned, hs⟩
    · exact .inr ⟨h.spawned.trans hle, hlt, hs⟩

theorem Same.extends (h : Same s s') : Extends s s' where
  toGrows := .of_eq h.interfaces h.spawned
  primary := h.primary
  backups := h.backups
  keys name hn := by rwa [h.interfaces]

theorem Extends.refl (s : NetworkSupervisor) : Extends s s := (Same.refl s).extends

theorem Extends.trans (h : Extends s s') (h' : Extends s' s'') : Extends s s'' where
  toGrows := h.toGrows.trans h'.toGrows
  primary := h'.primary.trans h.primary
  backups := h'.backups.trans h.backups
  keys name hn := h'.keys name (h.keys name hn)

/-! ### Operations that leave the table alone -/

theorem same_transition {target : NetworkState} (h : s.transition target = .ok s') : Same s s' := by
  rw [NetworkSupervisor.transition] at h
  cases hn : Networkd.transition s.state.state target with
  | error e =>
    rw [hn] at h
    cases h
  | ok state =>
    rw [hn] at h
    cases h
    exact ⟨rfl, rfl, rfl, rfl⟩

theorem same_publishState : Same s s.publishState := ⟨rfl, rfl, rfl, rfl⟩

theorem same_transitionAndPublish (target : NetworkState) :
    Same s (s.transitionAndPublish target) := by
  rw [transitionAndPublish]
  cases h : s.transition target with
  | error e => exact .refl s
  | ok s' => exact (same_transition h).trans same_publishState

variable (name : Name)

theorem same_sendToInterface (cmd : Command) : Same s (s.sendToInterface name cmd) := by
  unfold sendToInterface
  split_ifs
  · exact ⟨rfl, rfl, rfl, rfl⟩
  · exact .refl s

theorem same_flushDns : Same s s.flushDns := by
  unfold flushDns
  cases s.primaryHandle with
  | none => exact .refl s
  | some handle =>
    dsimp only
    split_ifs
    · exact .refl s
    · exact ⟨rfl, rfl, rfl, rfl⟩

theorem same_syncAndPublish : Same s s.syncAndPublish := by
  have h : Same s ({ s with
      state.interfaces := s.interfaces.entries.map fun entry => entry.2.borrow } :
        NetworkSupervisor) := ⟨rfl, rfl, rfl, rfl⟩
  exact h.trans (same_flushDns.trans same_publishState)

theorem same_configureEthernet (mode : ApplyMode) (answers : Answers) (name : Name)
    (cfg : InterfaceConfig) : Same s (s.configureEthernet mode answers name cfg) := by
  have hipv4 : ∀ (s : NetworkSupervisor) index ipv4,
      Same s (s.configureIpv4 mode name index ipv4) := by
    intro s index ipv4
    unfold configureIpv4
    split_ifs
    · exact same_sendToInterface ..
    · exact .refl s
    · exact same_sendToInterface ..
  have hipv6 : ∀ (s : NetworkSupervisor) index ipv6,
      Same s (s.configureIpv6 mode name index ipv6) := by
    intro s index ipv6
    unfold configureIpv6
    split_ifs
    · exact same_sendToInterface ..
    · exact .refl s
    · exact same_sendToInterface ..
  unfold configureEthernet
  cases answers.ensureUp name with
  | none => exact .refl s
  | some index =>
    cases cfg.ipv4 with
    | none =>
      cases cfg.ipv6 with
      | none => exact .refl s
      | some ipv6 => exact hipv6 s index ipv6
    | some ipv4 =>
      cases cfg.ipv6 with
      | none => exact hipv4 s index ipv4
      | some ipv6 => exact (hipv4 s index ipv4).trans (hipv6 _ index ipv6)

/-! ### Operations that spawn actors -/

variable (snapshot : InterfaceSnapshot)

theorem mem_keys_spawnInterfaceActor :
    snapshot.name ∈ (s.spawnInterfaceActor snapshot).interfaces.keys :=
  mem_keys_iff.2 ⟨_, get?_insert_self ..⟩

theorem extends_spawnInterfaceActor : Extends s (s.spawnInterfaceActor snapshot) where
  spawned := le_succ _
  handles name handle h := by
    simp only [spawnInterfaceActor, get?_insert] at h
    split_ifs at h
    · cases h
      exact .inr ⟨le_rfl, lt_succ_self _, rfl⟩
    · exact .inl h
  primary := rfl
  backups := rfl
  keys name hn := by
    rw [mem_keys_iff] at hn ⊢
    simp only [spawnInterfaceActor, get?_insert]
    split_ifs
    · exact ⟨_, rfl⟩
    · exact hn

theorem grows_removeActor : Grows s (s.removeActor name) := by
  refine (same_sendToInterface name .shutdown).extends.toGrows.trans
    ⟨le_rfl, fun name' handle h => ?_⟩
  simp only [removeActor, get?_erase] at h
  split_ifs at h
  exact .inl h

/-- An actor is replaced by another one for the same interface. -/
theorem extends_respawn :
    Extends s ((s.removeActor snapshot.name).spawnInterfaceActor snapshot) := by
  have hs := same_sendToInterface (s := s) snapshot.name .shutdown
  refine ⟨(grows_removeActor snapshot.name).trans (extends_spawnInterfaceActor snapshot).toGrows,
    hs.primary, hs.backups, fun name hn => ?_⟩
  rw [mem_keys_iff] at hn ⊢
  simp only [spawnInterfaceActor, removeActor, get?_insert, get?_erase, hs.interfaces]
  split_ifs
  · exact ⟨_, rfl⟩
  · exact hn

variable (answers : Answers)

theorem extends_provisionBridge (bridgeName : String) (cfg : BridgeConfig) :
    Extends s (s.provisionBridge answers bridgeName cfg) := by
  unfold provisionBridge
  cases s.bridgePort cfg with
  | none => exact .refl s
  | some port =>
    have hs := (same_sendToInterface (s := s) port (.configureBridge bridgeName cfg.stp)).extends
    dsimp only
    split_ifs
    · cases answers.bridgeReply port bridgeName with
      | none => exact hs
      | some snapshot => exact hs.trans (extends_spawnInterfaceActor snapshot)
    · exact .refl s

variable (cfg : InterfaceConfig)

theorem extends_provisionEthernet : Extends s (s.provisionEthernet answers cfg) := by
  unfold provisionEthernet
  cases s.resolveName cfg.name with
  | none => exact .refl s
  | some name =>
    dsimp only
    split_ifs
    · exact (same_configureEthernet ..).extends
    · exact .refl s

theorem extends_reconcileBridge : Extends s (s.reconcileBridge answers cfg) := by
  unfold reconcileBridge
  cases Name.new cfg.name with
  | none => exact .refl s
  | some bridgeName =>
    dsimp only
    cases s.interfaces.get? bridgeName with
    | some handle =>
      dsimp only
      split_ifs
      · exact .refl s
      · cases s.bridgeSnapshot answers bridgeName handle (cfg.bridge.getD ⟨[], false⟩) with
        | none => exact .refl s
        | some snapshot => exact extends_respawn snapshot
    | none =>
      split_ifs
      · exact extends_provisionBridge ..
      · exact .refl s

theorem extends_reconcileEthernet : Extends s (s.reconcileEthernet answers cfg) := by
  unfold reconcileEthernet
  cases s.resolveName cfg.name with
  | none => exact .refl s
  | some name =>
    dsimp only
    cases s.interfaces.get? name with
    | none => exact .refl s
    | some handle =>
      dsimp only
      split_ifs
      · exact .refl s
      · exact (same_configureEthernet ..).extends

/-- A loop over the configured interfaces, of which each turn extends the table. -/
theorem extends_foldl {α : Type} {f : NetworkSupervisor → α → NetworkSupervisor}
    (hf : ∀ s a, Extends s (f s a)) (as : List α) : Extends s (as.foldl f s) :=
  runFrom_invariant_always (Extends s) (fun s' a h => h.trans (hf s' a)) (.refl s) as

theorem extends_provisionInterfaces : Extends s (s.provisionInterfaces answers) := by
  refine extends_foldl (fun s cfg => ?_) s.config.interfaces
  cases cfg.kind with
  | bridge => exact extends_provisionBridge ..
  | ethernet => exact extends_provisionEthernet ..

theorem extends_reconcile : Extends s (s.reconcile answers) := by
  unfold reconcile
  split_ifs
  · refine (extends_foldl (fun s cfg => ?_) s.config.interfaces).trans same_syncAndPublish.extends
    cases cfg.kind with
    | bridge => exact extends_reconcileBridge ..
    | ethernet => exact extends_reconcileEthernet ..
  · exact .refl s

variable (found : List Ethernet)

theorem extends_spawnInterfaceActors : Extends s (s.spawnInterfaceActors found) :=
  extends_foldl (fun _ _ => extends_spawnInterfaceActor _) found

/-! ## The roles -/

/-- The primary interface and the backups are known, and the primary one is none of the backups. -/
structure Placed (s : NetworkSupervisor) : Prop where
  primary : ∀ name, s.state.primary = some name → name ∈ s.interfaces.keys ∧ name ∉ s.state.backups
  backups : ∀ name ∈ s.state.backups, name ∈ s.interfaces.keys

theorem Placed.extends (hs : Placed s) (h : Extends s s') : Placed s' where
  primary name hn := by
    rw [h.primary] at hn
    rw [h.backups]
    exact ⟨h.keys name (hs.primary name hn).1, (hs.primary name hn).2⟩
  backups name hn := by
    rw [h.backups] at hn
    exact h.keys name (hs.backups name hn)

/-- A backup takes over from the primary interface. -/
def promote (s : NetworkSupervisor) (primary backup : Name) : NetworkSupervisor :=
  { s with
    state.backups := s.state.backups.filter (· ≠ backup) ++ [primary]
    state.primary := some backup }

theorem Placed.promote (hs : Placed s) {primary backup : Name} (hp : s.state.primary = some primary)
    (hb : backup ∈ s.state.backups) : Placed (promote s primary backup) where
  primary name hn := by
    cases hn
    have hne : backup ≠ primary := fun heq => (hs.primary primary hp).2 (heq ▸ hb)
    refine ⟨hs.backups backup hb, ?_⟩
    simp [Supervisor.promote, hne]
  backups name hn := by
    rw [Supervisor.promote, mem_append, mem_singleton, mem_filter] at hn
    rcases hn with ⟨hn, -⟩ | rfl
    · exact hs.backups name hn
    · exact (hs.primary name hp).1

theorem Same.promote (h : Same s s') (primary backup : Name) :
    Same (promote s primary backup) (promote s' primary backup) where
  interfaces := h.interfaces
  spawned := h.spawned
  primary := rfl
  backups := by rw [Supervisor.promote, Supervisor.promote, h.backups]

/-- Without a backup nothing happens, and otherwise one of them takes over. -/
theorem tryFailoverToBackup_cases (failed : Name) :
    (s.state.backups = [] ∧ s.tryFailoverToBackup failed = s) ∨ ∃ backup ∈ s.state.backups,
        Same (promote s failed backup) (s.tryFailoverToBackup failed) := by
  rw [tryFailoverToBackup]
  cases hf : (s.state.backups.find? s.isInterfaceConfigured).or s.state.backups.head? with
  | none =>
    rw [or_eq_none_iff, head?_eq_none_iff] at hf
    exact .inl ⟨hf.2, rfl⟩
  | some backup =>
    have hm : backup ∈ s.state.backups := by
      rcases or_eq_some_iff.1 hf with h | ⟨-, h⟩
      · exact mem_of_find?_eq_some h
      · exact mem_of_mem_head? h
    refine .inr ⟨backup, hm, ?_⟩
    dsimp only
    split_ifs
    · exact same_transitionAndPublish .operational
    · exact (same_sendToInterface backup _).trans (same_transitionAndPublish .operational)

theorem handlePrimaryFailure_cases (failed : Name) :
    (s.state.backups = [] ∧ Same s (s.handlePrimaryFailure failed)) ∨ ∃ backup ∈ s.state.backups,
        Same (promote s failed backup) (s.handlePrimaryFailure failed) := by
  have hs := same_transitionAndPublish (s := s) .degraded
  rw [handlePrimaryFailure]
  rcases tryFailoverToBackup_cases failed with
    ⟨hn, heq⟩ | ⟨backup, hb, h⟩
  · rw [hs.backups] at hn
    refine .inl ⟨hn, ?_⟩
    rwa [heq]
  · rw [hs.backups] at hb
    exact .inr ⟨backup, hb, (hs.promote failed backup).trans h⟩

/-! ## Every event -/

/-- What a handler keeps: the actors are old or new, and the roles are in order. -/
def Keeps (s s' : NetworkSupervisor) : Prop := Grows s s' ∧ (Placed s → Placed s')

theorem Extends.keeps (h : Extends s s') : Keeps s s' := ⟨h.toGrows, fun hs => hs.extends h⟩

theorem Same.keeps (h : Same s s') : Keeps s s' := h.extends.keeps

theorem Keeps.refl (s : NetworkSupervisor) : Keeps s s := (Same.refl s).keeps

theorem Keeps.trans (h : Keeps s s') (h' : Keeps s' s'') : Keeps s s'' :=
  ⟨h.1.trans h'.1, fun hs => h'.2 (h.2 hs)⟩

/-- What a failover is made of: the interfaces and their roles stay, or a backup takes over. -/
inductive Shifts (s : NetworkSupervisor) : NetworkSupervisor → Prop
  | refl : Shifts s s
  | same {s' s'' : NetworkSupervisor} (h : Shifts s s') (hsame : Same s' s'') : Shifts s s''
  | promote {s' : NetworkSupervisor} {primary backup : Name} (h : Shifts s s')
      (hprimary : s'.state.primary = some primary) (hbackup : backup ∈ s'.state.backups) :
      Shifts s (promote s' primary backup)

theorem Shifts.keeps (h : Shifts s s') : Keeps s s' := by
  induction h with
  | refl => exact .refl s
  | same _ hsm ih => exact ih.trans hsm.keeps
  | promote _ hp hb ih =>
    exact ih.trans ⟨.of_eq rfl rfl, fun hs => hs.promote hp hb⟩

theorem Shifts.handlePrimaryFailure (h : Shifts s s') {primary : Name}
    (hp : s'.state.primary = some primary) : Shifts s (s'.handlePrimaryFailure primary) := by
  rcases handlePrimaryFailure_cases primary with ⟨-, hs⟩ | ⟨backup, hb, hs⟩
  · exact h.same hs
  · exact (h.promote hp hb).same hs

theorem shifts_maybeFailoverPrimary : Shifts s s.maybeFailoverPrimary := by
  rw [maybeFailoverPrimary]
  split_ifs
  · cases hp : s.state.primary with
    | none => exact .refl
    | some primary => exact Shifts.refl.handlePrimaryFailure hp
  · exact .refl

theorem shifts_onLinkUp : Shifts s (s.onLinkUp name) := by
  have h := Shifts.refl.same (same_sendToInterface (s := s) name .linkUp)
  rw [onLinkUp]
  split_ifs with hp hb
  · exact h.same (same_transitionAndPublish .operational)
  · rw [handleBackupRecovery]
    cases hp : (s.sendToInterface name .linkUp).state.primary with
    | none => exact h
    | some primary =>
      dsimp only
      split_ifs
      · exact h
      · exact (h.promote hp hb).same (same_transitionAndPublish .operational)
  · exact h

theorem shifts_onLinkDown : Shifts s (s.onLinkDown name) := by
  have h := Shifts.refl.same (same_sendToInterface (s := s) name .linkDown)
  rw [onLinkDown]
  split_ifs with hp
  · exact h.handlePrimaryFailure hp
  · exact h

theorem keeps_onLinkAdded (index : ℕ) (mac : Slaac.Mac) :
    Keeps s (s.onLinkAdded name index mac) := by
  rw [onLinkAdded]
  split_ifs with hk
  · exact .refl s
  have hsp := extends_spawnInterfaceActor (s := s) (discovered name index mac .up)
  have hn := mem_keys_spawnInterfaceActor (s := s) (discovered name index mac .up)
  refine Keeps.trans ⟨hsp.toGrows.trans ?_, fun hs => ?_⟩ same_syncAndPublish.keeps
  · cases (s.spawnInterfaceActor (discovered name index mac .up)).state.primary with
    | none => exact .of_eq rfl rfl
    | some primary => exact .of_eq rfl rfl
  · have hpl := hs.extends hsp
    -- the new name is not among the old ones
    have hb : name ∉ s.state.backups := fun h => hk (hs.backups name h)
    rw [hsp.primary]
    cases hp : s.state.primary with
    | none =>
      refine ⟨fun name' h => ?_, hpl.backups⟩
      cases h
      exact ⟨hn, hb⟩
    | some primary =>
      have hne : primary ≠ name := fun heq => hk (heq ▸ (hs.primary primary hp).1)
      refine ⟨fun name' h => ?_, fun name' h => ?_⟩
      · have hp' := hpl.primary name' h
        rw [h.symm.trans (hsp.primary.trans hp) |> some.inj] at hp' ⊢
        refine ⟨hp'.1, ?_⟩
        rw [mem_insertIdx partitionPoint_le]
        exact not_or_intro hne hp'.2
      · rw [mem_insertIdx partitionPoint_le] at h
        rcases h with rfl | h
        · exact hn
        · exact hpl.backups name' h

theorem mem_keys_removeActor {name other : Name} :
    other ∈ (s.removeActor name).interfaces.keys ↔ other ≠ name ∧ other ∈ s.interfaces.keys := by
  have hs := same_sendToInterface (s := s) name .shutdown
  simp only [removeActor, mem_keys_iff, get?_erase, hs.interfaces]
  split_ifs with h
  · simp [h]
  · exact (and_iff_right h).symm

theorem roles_removeActor : (s.removeActor name).state.primary = s.state.primary ∧
    (s.removeActor name).state.backups = s.state.backups :=
  ⟨(same_sendToInterface name .shutdown).primary, (same_sendToInterface name .shutdown).backups⟩

/-- The primary interface that was removed is succeeded by a backup, if there is one. -/
theorem grows_handlePrimaryRemoved : Grows s s.handlePrimaryRemoved := by
  rw [handlePrimaryRemoved]
  cases s.state.backups with
  | cons newPrimary rest => exact .of_eq rfl rfl
  | nil =>
    refine @Grows.trans s { s with state.primary := none } _ (.of_eq rfl rfl) ?_
    dsimp only
    cases h : ({ s with state.primary := none } : NetworkSupervisor).transition .degraded with
    | error e => exact .of_eq rfl rfl
    | ok s' => exact (same_transition h).extends.toGrows

theorem placed_handlePrimaryRemoved (h : ∀ name ∈ s.state.backups, name ∈ s.interfaces.keys) :
    Placed s.handlePrimaryRemoved := by
  rw [handlePrimaryRemoved]
  cases hb : s.state.backups with
  | cons newPrimary rest =>
    rw [hb] at h
    refine ⟨fun name hn => ?_, fun name hn => h name (mem_filter.1 hn).1⟩
    cases hn
    exact ⟨h newPrimary mem_cons_self, by simp⟩
  | nil =>
    have hp : Placed { s with state.primary := none } := by
      refine ⟨fun name hn => ?_, h⟩
      cases hn
    dsimp only
    cases ht : ({ s with state.primary := none } : NetworkSupervisor).transition .degraded with
    | error e => exact hp
    | ok s' => exact hp.extends (same_transition ht).extends

theorem keeps_onLinkDeleted : Keeps s (s.onLinkDeleted name) := by
  rw [onLinkDeleted]
  split_ifs with hk
  swap
  · exact .refl s
  have hr := grows_removeActor (s := s) name
  obtain ⟨hp, hb⟩ := roles_removeActor name
  refine Keeps.trans ⟨hr.trans ?_, fun hs => ?_⟩ same_syncAndPublish.keeps
  · split_ifs
    · exact grows_handlePrimaryRemoved
    · exact .of_eq rfl rfl
  · split_ifs with his
    · refine placed_handlePrimaryRemoved fun other ho => mem_keys_removeActor.2 ?_
      rw [hb] at ho
      refine ⟨fun heq => ?_, hs.backups other ho⟩
      exact (hs.primary name (hp ▸ his)).2 (heq ▸ ho)
    · refine ⟨fun other ho => ?_, fun other ho => ?_⟩
      · have hne : other ≠ name := fun heq => his (heq ▸ ho)
        have hpl := hs.primary other (hp ▸ ho)
        refine ⟨mem_keys_removeActor.2 ⟨hne, hpl.1⟩, fun hm => hpl.2 ?_⟩
        rw [← hb]
        exact mem_of_mem_filter hm
      · have hm := mem_filter.1 ho
        rw [hb] at hm
        exact mem_keys_removeActor.2 ⟨of_decide_eq_true hm.2, hs.backups other hm.1⟩

theorem keeps_handleEvent (event : NetlinkEvent) : Keeps s (s.handleEvent event) := by
  cases event with
  | up name => exact (shifts_onLinkUp name).keeps
  | down name => exact (shifts_onLinkDown name).keeps
  | added name index mac => exact keeps_onLinkAdded name index mac
  | deleted name => exact keeps_onLinkDeleted name

theorem grows_reset : Grows s s.reset where
  spawned := le_rfl
  handles name handle h := by cases h

theorem placed_reset : Placed s.reset where
  primary name h := by cases h
  backups name h := by cases h

theorem keeps_giveUp (error : InitializeError) : Keeps s (s.giveUp error).1 := by
  rw [giveUp]
  cases h : s.transition .degraded with
  | error e => exact .refl s
  | ok s' => exact ((same_transition h).trans same_publishState).keeps

variable {found}

theorem mem_of_selectPrimary (h : selectPrimary found = some primary) : primary ∈ found := by
  cases found with
  | nil => cases h
  | cons first rest =>
    cases h
    -- the best so far is always one of those that were compared
    refine runFrom_invariant_mem (· ∈ first :: rest) (fun interface hm best hb => ?_)
      mem_cons_self
    split_ifs
    · exact hb
    · exact mem_cons_of_mem first hm

theorem mem_keys_spawnInterfaceActors {iface : Ethernet} (h : iface ∈ found) :
    iface.name ∈ (s.spawnInterfaceActors found).interfaces.keys := by
  induction found generalizing s with
  | nil => cases h
  | cons first rest ih =>
    rcases mem_cons.1 h with rfl | h
    · refine (extends_spawnInterfaceActors rest).keys _ ?_
      exact mem_keys_iff.2 ⟨_, get?_insert_self ..⟩
    · exact ih h

theorem placed_selectPrimaryInterface (hp : primary ∈ found)
    (h : ∀ iface ∈ found, iface.name ∈ s.interfaces.keys) :
    Placed (s.selectPrimaryInterface found primary) := by
  have hb : ∀ name ∈ (s.selectPrimaryInterface found primary).state.backups,
      name ∈ s.interfaces.keys ∧ name ≠ primary.name := by
    intro name hn
    obtain ⟨iface, hi, rfl⟩ := mem_map.1 hn
    rw [selectBackups, mem_insertionSort, mem_filter] at hi
    exact ⟨h iface hi.1, of_decide_eq_true hi.2⟩
  refine ⟨fun name hn => ?_, fun name hn => (hb name hn).1⟩
  cases hn
  exact ⟨h primary hp, fun hm => (hb _ hm).2 rfl⟩

theorem keeps_discoverInterfaces : Keeps s (s.discoverInterfaces answers).1 := by
  rw [discoverInterfaces]
  cases hi : s.transition .initializing with
  | error e => exact .refl s
  | ok s₁ =>
    refine ((same_transition hi).trans same_publishState).keeps.trans ?_
    dsimp only
    generalize s₁.publishState = s₂
    cases answers.discoverEthernet with
    | none => exact .refl s₂
    | some found =>
      dsimp only
      split_ifs
      · exact keeps_giveUp _
      · generalize found.map _ = found
        have hsp := extends_spawnInterfaceActors (s := s₂) found
        cases hs : selectPrimary found with
        | none => exact hsp.keeps
        | some primary =>
          dsimp only
          have hk : Keeps s₂ ((s₂.spawnInterfaceActors found).selectPrimaryInterface found
              primary) :=
            ⟨hsp.toGrows.trans (.of_eq rfl rfl), fun _ =>
              placed_selectPrimaryInterface (mem_of_selectPrimary hs)
                fun iface h => mem_keys_spawnInterfaceActors h⟩
          refine hk.trans ?_
          cases h : ((s₂.spawnInterfaceActors found).selectPrimaryInterface found
              primary).transition .operational with
          | error e => exact .refl _
          | ok s₃ => exact ((same_transition h).trans same_syncAndPublish).keeps
      · exact keeps_giveUp _

theorem keeps_initializeNetwork : Keeps s (s.initializeNetwork answers).1 := by
  refine Keeps.trans ⟨grows_reset, fun _ => placed_reset⟩ ?_
  have hd := keeps_discoverInterfaces (s := s.reset) answers
  rw [initializeNetwork]
  rcases hr : s.reset.discoverInterfaces answers with ⟨s', result⟩
  rw [hr] at hd
  cases result with
  | error e => exact hd
  | ok =>
    refine hd.trans ((extends_provisionInterfaces answers).keeps.trans ?_)
    dsimp only
    cases h : (s'.provisionInterfaces answers).transition .ready with
    | error e => exact .refl _
    | ok s'' => exact ((same_transition h).trans same_publishState).keeps

/-- **Every handler** keeps the actors or spawns new ones, and keeps the roles in order. -/
theorem keeps_handle (event : SupervisorEvent) : Keeps s (s.handle answers event) := by
  cases event with
  | command cmd =>
    cases cmd with
    | initializeNetwork => exact keeps_initializeNetwork answers
    | reconcile => exact (extends_reconcile answers).keeps
  | netlink event => exact keeps_handleEvent event
  | primaryChanged => exact shifts_maybeFailoverPrimary.keeps.trans same_flushDns.keeps
  | reconcileTick => exact (extends_reconcile answers).keeps

/-! ## The loop -/

/-- What the sources have when the loop polls them, and the answers while the event is handled. -/
structure Poll where
  command : Option SupervisorCommand
  netlink : Option NetlinkEvent
  tick : Bool
  answers : Answers

/-- One poll of `supervisor_select`, with a new clone of the receiver. The loop waits while there is
no event. -/
def supervisorSelect (s : NetworkSupervisor) (poll : Poll) : Option SupervisorEvent :=
  match poll.command with
  | some cmd => some (.command cmd)
  | none =>
  match poll.netlink with
  | some event => some (.netlink event)
  | none =>
  match s.primaryHandle.bind fun handle => handle.stateRx.changed handle.shared with
  | some _ => some .primaryChanged
  | none => if poll.tick then some .reconcileTick else none

/-- An actor publishes a snapshot. -/
def publish (s : NetworkSupervisor) (name : Name) (snapshot : InterfaceSnapshot) :
    NetworkSupervisor :=
  match s.interfaces.get? name with
  | none => s
  | some handle =>
    { s with
      interfaces := s.interfaces.insert name { handle with shared := handle.shared.send snapshot } }

/-- An actor publishes, or the loop takes a turn. -/
inductive Label
  | publish (name : Name) (snapshot : InterfaceSnapshot)
  | poll (poll : Poll)

/-- The primary interface and its actor. -/
def tenure (s : NetworkSupervisor) : Option (Name × ℕ) :=
  s.state.primary.bind fun name => (s.interfaces.get? name).map fun handle => (name, handle.actor)

/-- The supervisor, and how many changes were delivered since the primary interface, with its actor,
has been the same. -/
structure Loop where
  supervisor : NetworkSupervisor
  delivered : ℕ

namespace Loop

/-- An event is delivered and handled. -/
def deliver (w : Loop) (answers : Answers) (event : SupervisorEvent) : Loop where
  supervisor := w.supervisor.handle answers event
  delivered :=
    if tenure (w.supervisor.handle answers event) = tenure w.supervisor then
      match event with
      | .primaryChanged => w.delivered + 1
      | _ => w.delivered
    else 0

/-- A turn of `supervisor_loop`, or a publication between two turns. -/
def step (w : Loop) : Label → Loop
  | .publish name snapshot => { w with supervisor := publish w.supervisor name snapshot }
  | .poll poll =>
    match supervisorSelect w.supervisor poll with
    | none => w
    | some event => w.deliver poll.answers event

def start (config : Config) : Loop := ⟨.new config, 0⟩

/-- A poll that finds no command and no netlink event, and the tick possibly due. -/
def Idle (poll : Poll) : Prop := poll.command = none ∧ poll.netlink = none

/-- The changes of the primary interface are each delivered at most once: they are no more than its
actor has published, and when they are as many, an idle loop waits for the tick. -/
def Handled (w : Loop) : Prop :=
  ∀ handle, w.supervisor.primaryHandle = some handle → w.delivered ≤ handle.published ∧
      (w.delivered = handle.published → ∀ poll, Idle poll →
        supervisorSelect w.supervisor poll = if poll.tick then some .reconcileTick else none)

/-- At an idle poll with something published, the primary interface has failed and there is a backup
for it, or more than the next change was published. -/
def Fresh (w : Loop) : Label → Prop
  | .publish _ _ => True
  | .poll poll =>
    Idle poll → ∀ handle, w.supervisor.primaryHandle = some handle → 0 < handle.published →
      (handle.borrow.state = .failed ∧ w.supervisor.state.backups ≠ []) ∨
        w.delivered + 1 < handle.published

end Loop

/-! ## Receivers that have seen nothing -/

/-- The actors have their numbers, and their receivers have seen nothing but the first snapshot. -/
def Numbered (s : NetworkSupervisor) : Prop :=
  ∀ name handle, s.interfaces.get? name = some handle →
    handle.actor < s.spawned ∧ handle.stateRx.seen = 0

theorem Numbered.grows (hs : Numbered s) (h : Grows s s') : Numbered s' := by
  intro name handle hget
  rcases h.handles name handle hget with ho | ⟨-, hlt, hsn⟩
  · exact ⟨(hs name handle ho).1.trans_le h.spawned, (hs name handle ho).2⟩
  · exact ⟨hlt, hsn⟩

variable {handle : ActorHandle} (config : Config)

theorem primaryHandle_eq_some_iff : s.primaryHandle = some handle ↔
      ∃ name, s.state.primary = some name ∧ s.interfaces.get? name = some handle :=
  bind_eq_some_iff

theorem tenure_eq_some_iff {name : Name} {actor : ℕ} :
    tenure s = some (name, actor) ↔ s.state.primary = some name ∧
      ∃ handle, s.interfaces.get? name = some handle ∧ handle.actor = actor := by
  simp only [tenure, bind_eq_some_iff, map_eq_some_iff, Prod.mk.injEq]
  constructor
  · rintro ⟨name', hp, handle, hget, rfl, ha⟩
    exact ⟨hp, handle, hget, ha⟩
  · rintro ⟨hp, handle, hget, ha⟩
    exact ⟨name, hp, handle, hget, rfl, ha⟩

/-- While the primary interface and its actor stay the same, so does the handle. -/
theorem primaryHandle_of_tenure (hs : Numbered s) (h : Grows s s') (heq : tenure s' = tenure s)
    (hh : s'.primaryHandle = some handle) : s.primaryHandle = some handle := by
  obtain ⟨name, hp, hget⟩ := primaryHandle_eq_some_iff.1 hh
  have ht : tenure s = some (name, handle.actor) :=
    heq ▸ tenure_eq_some_iff.2 ⟨hp, handle, hget, rfl⟩
  obtain ⟨hp', old, ho, ha⟩ := tenure_eq_some_iff.1 ht
  refine primaryHandle_eq_some_iff.2 ⟨name, hp', ?_⟩
  rcases h.handles name handle hget with hget' | ⟨hle, -, -⟩
  · exact hget'
  · -- a new actor has another number
    have := (hs name old ho).1
    omega

theorem Same.tenure (h : Same s s') : tenure s' = tenure s := by
  rw [Supervisor.tenure, Supervisor.tenure, h.primary, h.interfaces]

theorem Same.primaryHandle (h : Same s s') : s'.primaryHandle = s.primaryHandle := by
  rw [NetworkSupervisor.primaryHandle, NetworkSupervisor.primaryHandle, h.primary, h.interfaces]

/-- The receiver of a turn has a change to report as long as anything was published. -/
theorem supervisorSelect_idle (hs : Numbered s) (hh : s.primaryHandle = some handle)
    {poll : Poll} (hi : Loop.Idle poll) : supervisorSelect s poll =
      if 0 < handle.published then some .primaryChanged
      else if poll.tick then some .reconcileTick else none := by
  obtain ⟨name, -, hget⟩ := primaryHandle_eq_some_iff.1 hh
  have hsn := (hs name handle hget).2
  simp only [supervisorSelect, hi.1, hi.2, hh]
  by_cases hz : handle.published = 0
  · have hn : handle.stateRx.changed handle.shared = none :=
      Watch.Receiver.changed_eq_none_iff.2 (hz.trans hsn.symm)
    simp [hn, hz]
  · have hsm : handle.stateRx.changed handle.shared ≠ none := fun hn =>
      hz ((Watch.Receiver.changed_eq_none_iff.1 hn).trans hsn)
    obtain ⟨rx, hrx⟩ := ne_none_iff_exists'.1 hsm
    simp [hrx, pos_of_ne_zero hz]

theorem supervisorSelect_eq_primaryChanged_iff (hs : Numbered s) {poll : Poll} :
    supervisorSelect s poll = some .primaryChanged ↔
      Loop.Idle poll ∧ ∃ handle, s.primaryHandle = some handle ∧ 0 < handle.published := by
  by_cases hi : Loop.Idle poll
  · cases hh : s.primaryHandle with
    | none => simp [supervisorSelect, hi.1, hi.2, hh]
    | some handle => simp [supervisorSelect_idle hs hh hi, hi]
  · refine iff_of_false (fun h => hi ?_) fun h => hi h.1
    unfold supervisorSelect at h
    cases hc : poll.command with
    | some cmd => simp [hc] at h
    | none =>
      cases hn : poll.netlink with
      | some event => simp [hc, hn] at h
      | none => exact ⟨hc, hn⟩

/-- What is left of a primary interface that has changed. -/
theorem handle_primaryChanged_cases (hs : Placed s) (answers : Answers)
    (hh : s.primaryHandle = some handle) :
    (handle.borrow.state = .failed ∧ s.state.backups ≠ []) ∧
        tenure (s.handle answers .primaryChanged) ≠ tenure s ∨
      ¬(handle.borrow.state = .failed ∧ s.state.backups ≠ []) ∧
        Same s (s.handle answers .primaryChanged) := by
  obtain ⟨name, hp, hget⟩ := primaryHandle_eq_some_iff.1 hh
  have hf : s.isPrimaryFailed = true ↔ handle.borrow.state = .failed := by
    simp [isPrimaryFailed, hh]
  have hm : s.maybeFailoverPrimary =
      if s.isPrimaryFailed then s.handlePrimaryFailure name else s := by
    rw [maybeFailoverPrimary, hp]
  have hfl := same_flushDns (s := s.maybeFailoverPrimary)
  rw [NetworkSupervisor.handle]
  rw [hm] at hfl ⊢
  split_ifs at hfl ⊢ with h
  · rcases handlePrimaryFailure_cases name with ⟨hnl, hsm⟩ | ⟨backup, hb, hsm⟩
    · exact .inr ⟨fun hbt => hbt.2 hnl, hsm.trans hfl⟩
    · refine .inl ⟨⟨hf.1 h, ne_nil_of_mem hb⟩, fun heq => ?_⟩
      have ht : tenure s = some (name, handle.actor) := tenure_eq_some_iff.2 ⟨hp, handle, hget, rfl⟩
      have hn := (tenure_eq_some_iff.1 (heq.trans ht)).1
      rw [hfl.primary, hsm.primary] at hn
      rw [← hp] at hn
      exact (hs.primary backup hn.symm).2 hb
  · exact .inr ⟨fun hbt => h (hf.2 hbt.1), hfl⟩

/-! ## Publications -/

theorem get?_publish (name : Name) (snapshot : InterfaceSnapshot) (other : Name) :
    (publish s name snapshot).interfaces.get? other = (s.interfaces.get? other).map fun handle =>
        if other = name then { handle with shared := handle.shared.send snapshot } else handle := by
  rw [publish]
  cases hget : s.interfaces.get? name with
  | none =>
    by_cases h : other = name
    · rw [h, hget, map_none]
    · simp [h]
  | some handle =>
    rw [get?_insert]
    by_cases h : other = name
    · rw [if_pos h, h, hget, map_some, if_pos rfl]
    · simp [h]

theorem state_publish (name : Name) (snapshot : InterfaceSnapshot) :
    (publish s name snapshot).state = s.state ∧ (publish s name snapshot).spawned = s.spawned := by
  rw [publish]
  cases s.interfaces.get? name with
  | none => exact ⟨rfl, rfl⟩
  | some handle => exact ⟨rfl, rfl⟩

variable {snapshot : InterfaceSnapshot}

/-- A publication changes the handles by what was published alone. -/
theorem exists_of_get?_publish {name other : Name}
    (h : (publish s name snapshot).interfaces.get? other = some handle) :
    ∃ old, s.interfaces.get? other = some old ∧ old.actor = handle.actor ∧
      old.stateRx = handle.stateRx ∧ old.published ≤ handle.published := by
  rw [get?_publish, map_eq_some_iff] at h
  obtain ⟨old, ho, rfl⟩ := h
  refine ⟨old, ho, ?_⟩
  split_ifs
  · exact ⟨rfl, rfl, le_succ _⟩
  · exact ⟨rfl, rfl, le_rfl⟩

theorem Numbered.publish (hs : Numbered s) (name : Name) (snapshot : InterfaceSnapshot) :
    Numbered (publish s name snapshot) := by
  intro other handle hget
  obtain ⟨old, ho, ha, hrx, -⟩ := exists_of_get?_publish hget
  rw [(state_publish name snapshot).2, ← ha, ← hrx]
  exact hs other old ho

theorem mem_keys_publish {name other : Name} (h : other ∈ s.interfaces.keys) :
    other ∈ (publish s name snapshot).interfaces.keys := by
  obtain ⟨handle, hh⟩ := mem_keys_iff.1 h
  exact mem_keys_iff.2 ⟨_, by rw [get?_publish, hh, map_some]⟩

theorem Placed.publish (hs : Placed s) (name : Name) (snapshot : InterfaceSnapshot) :
    Placed (publish s name snapshot) := by
  obtain ⟨hst, -⟩ := state_publish name snapshot
  constructor
  · intro other ho
    rw [hst] at ho ⊢
    exact ⟨mem_keys_publish (hs.primary other ho).1, (hs.primary other ho).2⟩
  · intro other ho
    rw [hst] at ho
    exact mem_keys_publish (hs.backups other ho)

namespace Loop

variable {w : Loop}

/-- What holds of the supervisor in every run. -/
def Orderly (w : Loop) : Prop := Placed w.supervisor ∧ Numbered w.supervisor

theorem step_of_none {poll : Poll} (h : supervisorSelect w.supervisor poll = none) :
    w.step (.poll poll) = w := by
  simp [step, h]

variable {event : SupervisorEvent}

theorem step_of_some {poll : Poll} (h : supervisorSelect w.supervisor poll = some event) :
    w.step (.poll poll) = w.deliver poll.answers event := by
  simp [step, h]

theorem Orderly.step (h : w.Orderly) (label : Label) : (w.step label).Orderly := by
  cases label with
  | publish name snapshot => exact ⟨h.1.publish name snapshot, h.2.publish name snapshot⟩
  | poll poll =>
    cases hs : supervisorSelect w.supervisor poll with
    | none =>
      rw [step_of_none hs]
      exact h
    | some event =>
      rw [step_of_some hs]
      have hk := keeps_handle (s := w.supervisor) poll.answers event
      exact ⟨hk.2 h.1, h.2.grows hk.1⟩

/-- The receivers see nothing, so that the loop rests only where nothing was published. -/
theorem handled_iff (h : w.Orderly) :
    w.Handled ↔ ∀ handle, w.supervisor.primaryHandle = some handle →
      handle.published = 0 ∧ w.delivered = 0 ∨ w.delivered < handle.published := by
  refine forall_congr' fun handle => forall_congr' fun hh => ?_
  constructor
  · rintro ⟨hle, hr⟩
    rcases lt_or_eq_of_le hle with hlt | heq
    · exact .inr hlt
    · -- nothing but the tick is left, so nothing was published
      have hs := hr heq ⟨none, none, false, .nothing⟩ ⟨rfl, rfl⟩
      rw [supervisorSelect_idle h.2 hh ⟨rfl, rfl⟩] at hs
      have hz : handle.published = 0 := by
        by_contra hne
        simp [pos_of_ne_zero hne] at hs
      exact .inl ⟨hz, heq.trans hz⟩
  · intro hc
    refine ⟨by omega, fun heq poll hi => ?_⟩
    rw [supervisorSelect_idle h.2 hh hi, if_neg (by omega)]

theorem handled_deliver (h : w.Orderly) (hh : w.Handled) (answers : Answers)
    (he : event ≠ .primaryChanged) : (w.deliver answers event).Handled := by
  have hk := keeps_handle (s := w.supervisor) answers event
  have ho : (w.deliver answers event).Orderly := ⟨hk.2 h.1, h.2.grows hk.1⟩
  rw [handled_iff ho]
  intro handle hhn
  by_cases ht : tenure (w.supervisor.handle answers event) = tenure w.supervisor
  · have hd : (w.deliver answers event).delivered = w.delivered := by
      simp [deliver, ht]
    rw [hd]
    exact (handled_iff h).1 hh handle (primaryHandle_of_tenure h.2 hk.1 ht hhn)
  · have hd : (w.deliver answers event).delivered = 0 := by
      simp [deliver, ht]
    omega

theorem handled_deliver_primaryChanged_iff (h : w.Orderly) (answers : Answers)
    (hh : w.supervisor.primaryHandle = some handle) (hpb : 0 < handle.published) :
    (w.deliver answers .primaryChanged).Handled ↔
      (handle.borrow.state = .failed ∧ w.supervisor.state.backups ≠ []) ∨
        w.delivered + 1 < handle.published := by
  have hk := keeps_handle (s := w.supervisor) answers .primaryChanged
  have ho : (w.deliver answers .primaryChanged).Orderly := ⟨hk.2 h.1, h.2.grows hk.1⟩
  rw [handled_iff ho]
  rcases handle_primaryChanged_cases h.1 answers hh with ⟨hf, ht⟩ | ⟨hs, hsm⟩
  · have hd : (w.deliver answers .primaryChanged).delivered = 0 := by
      simp [deliver, ht]
    refine iff_of_true (fun handle _ => ?_) (.inl hf)
    omega
  · have hd : (w.deliver answers .primaryChanged).delivered = w.delivered + 1 := by
      simp [deliver, hsm.tenure]
    have hp : (w.deliver answers .primaryChanged).supervisor.primaryHandle = some handle :=
      hsm.primaryHandle.trans hh
    rw [hp, hd]
    constructor
    · intro hc
      have := hc handle rfl
      exact .inr (by omega)
    · rintro (hf | hlt) handle' heq
      · exact absurd hf hs
      · cases heq
        exact .inr hlt

/-- **A step** handles the changes exactly if there is one more to deliver. -/
theorem handled_step_iff (h : w.Orderly) (hhn : w.Handled) (label : Label) :
    (w.step label).Handled ↔ w.Fresh label := by
  cases label with
  | publish name snapshot =>
    refine iff_of_true ((handled_iff (h.step _)).2 fun handle hh => ?_) trivial
    obtain ⟨primary, hpr, hget⟩ := primaryHandle_eq_some_iff.1 hh
    obtain ⟨old, ho, -, -, hle⟩ := exists_of_get?_publish hget
    rw [step, (state_publish name snapshot).1] at hpr
    have hc := (handled_iff h).1 hhn old (primaryHandle_eq_some_iff.2 ⟨_, hpr, ho⟩)
    rw [step]
    dsimp only
    omega
  | poll poll =>
    cases hs : supervisorSelect w.supervisor poll with
    | none =>
      rw [step_of_none hs]
      refine iff_of_true hhn fun hi handle hh hp => ?_
      rw [(supervisorSelect_eq_primaryChanged_iff h.2).2 ⟨hi, handle, hh, hp⟩] at hs
      cases hs
    | some event =>
      rw [step_of_some hs]
      by_cases he : event = .primaryChanged
      · rw [he] at hs ⊢
        obtain ⟨hi, handle, hh, hp⟩ := (supervisorSelect_eq_primaryChanged_iff h.2).1 hs
        rw [handled_deliver_primaryChanged_iff h poll.answers hh hp]
        simp [Fresh, hi, hh, hp]
      · refine iff_of_true (handled_deliver h hhn poll.answers he)
          fun hi handle hh hp => ?_
        rw [(supervisorSelect_eq_primaryChanged_iff h.2).2 ⟨hi, handle, hh, hp⟩] at hs
        cases hs
        exact absurd rfl he

/-- **A change that was published once** is delivered in every idle turn from then on, whether the
tick is due or not, as long as the primary interface has not failed. -/
theorem delivered_idle (h : w.Orderly) (hh : w.supervisor.primaryHandle = some handle)
    (hp : 0 < handle.published) (hst : handle.borrow.state ≠ .failed) {polls : List Poll}
    (hi : ∀ poll ∈ polls, Idle poll) :
    (runFrom step w (polls.map .poll)).supervisor.primaryHandle = some handle ∧
      (runFrom step w (polls.map .poll)).delivered = w.delivered + polls.length := by
  induction polls generalizing w with
  | nil => exact ⟨hh, rfl⟩
  | cons poll rest ih =>
    have hs := (supervisorSelect_eq_primaryChanged_iff h.2).2
      ⟨hi poll mem_cons_self, handle, hh, hp⟩
    have hstep := step_of_some hs
    rcases handle_primaryChanged_cases h.1 poll.answers hh with ⟨hf, -⟩ | ⟨-, hsm⟩
    · exact absurd hf.1 hst
    · have hd : (w.step (.poll poll)).delivered = w.delivered + 1 := by
        rw [hstep]
        simp [deliver, hsm.tenure]
      have hpr : (w.step (.poll poll)).supervisor.primaryHandle = some handle := by
        rw [hstep]
        exact hsm.primaryHandle.trans hh
      have hrest := ih (h.step (.poll poll)) hpr
        fun poll hpl => hi poll (mem_cons_of_mem _ hpl)
      rw [map_cons, runFrom_cons, length_cons]
      exact ⟨hrest.1, by omega⟩

end Loop

open Loop

theorem orderly_start : (start config).Orderly := by
  refine ⟨⟨fun name h => ?_, fun name h => ?_⟩, fun name handle h => ?_⟩ <;> cases h

/-- **Each change is handled once**, in a run of the supervisor from its start, exactly if every
idle poll finds more published than delivered, by more than the change that it delivers, or nothing
published at all, or else a primary interface that has failed and a backup. -/
theorem changes_handled_once_iff (labels : List Label) :
    (∀ done, done <+: labels → (runFrom Loop.step (start config) done).Handled) ↔
      Along Loop.step Fresh (start config) labels := by
  have ho := orderly_start config
  have hh : (start config).Handled := by
    intro handle h
    cases h
  exact forall_runFrom_iff_along_of_always Handled Orderly (fun w label hw => hw.step label)
    (fun w label hw hh => handled_step_iff hw hh label) ho labels
    hh

def eth0 : Name := ⟨"eth0", by decide⟩

/-- An idle poll, with the tick due. -/
def tickDue : Poll := ⟨none, none, true, .nothing⟩

/-- An interface is added and publishes one snapshot: from then on the loop delivers its change
again and again, and the tick that is due is not reached. -/
theorem change_delivered_forever :
    let mac : Slaac.Mac := ⟨2, 0, 0, 0, 0, 1⟩
    let w := runFrom Loop.step (start ⟨false, [], []⟩)
      [.poll ⟨none, some (.added eth0 1 mac), false, .nothing⟩,
        .publish eth0 { discovered eth0 1 mac .up with state := .configured }]
    (∃ handle, w.supervisor.primaryHandle = some handle ∧ handle.published = 1) ∧
      (∀ n, (runFrom Loop.step w ((List.replicate n tickDue).map .poll)).delivered = n) ∧
      supervisorSelect w.supervisor tickDue = some .primaryChanged ∧
      ¬(runFrom Loop.step w [.poll tickDue, .poll tickDue]).Handled := by
  intro mac w
  obtain ⟨handle, hh, hp, hs, hd⟩ : ∃ handle,
      w.supervisor.primaryHandle = some handle ∧ handle.published = 1 ∧
        handle.borrow.state ≠ .failed ∧ w.delivered = 0 := ⟨_, rfl, rfl, by decide, rfl⟩
  have ho : w.Orderly :=
    runFrom_invariant_always Orderly (fun w label hw => hw.step label) (orderly_start _) _
  have hi : ∀ n, ∀ poll ∈ replicate n tickDue, Idle poll := by
    intro n poll hpl
    rw [(mem_replicate.1 hpl).2]
    exact ⟨rfl, rfl⟩
  have hr := fun n => delivered_idle ho hh (by omega) hs (hi n)
  refine ⟨⟨handle, hh, hp⟩, fun n => ?_, ?_, fun h => ?_⟩
  · rw [(hr n).2, hd, length_replicate, zero_add]
  · exact (supervisorSelect_eq_primaryChanged_iff ho.2).2 ⟨⟨rfl, rfl⟩, handle, hh, by omega⟩
  · have hle := (h handle (hr 2).1).1
    have ht := (hr 2).2
    have : (runFrom Loop.step w [.poll tickDue, .poll tickDue]).delivered = w.delivered + 2 := ht
    omega

end Muak.Networkd.Supervisor
