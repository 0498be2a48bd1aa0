import Muak.Granola.Handlers

/-!
# One process for each service

The invariant that ties the process ids of the services, their status, the restart queue, the
tracked process ids and the kernel's table of children together, and that every handler keeps in
every order.

* `Exclusive w exits`: the invariant in the middle of handling the exits `exits`, which the reaper
  has already taken out of its table.
* `exclusive_step`: every event keeps `Exclusive w []`.
* `one_process_per_service`: in every state of every run a service has at most one process, `spawn`
  is only called for a service without one, and the restart queue has no duplicates.
-/

namespace Muak.Granola.World

open List Option Dict

open RestartQueue (names)

theorem mem_tracked {w : World} {name : String} {p : Pid} :
    p ∈ w.tracked name ↔ w.knownPids.get? p = some name := by
  simp [tracked, get?_eq_some_iff]

theorem mem_processes {w : World} {name : String} {p : Pid} :
    p ∈ w.processes name ↔ ∃ c, w.children.get? p = some c ∧ c.service = some name := by
  simp [processes, get?_eq_some_iff]

theorem nodup_processes (w : World) (name : String) : (w.processes name).Nodup :=
  (filter_sublist.map Prod.fst).nodup w.children.nodup

/-- `Exclusive w exits`: the supervisor's view of its processes is accurate, apart from the
reaped processes `exits` whose exits are still to be handled. -/
structure Exclusive (w : World) (exits : List (String × Pid)) : Prop where
  /-- Services are stored under their own name. -/
  named : ∀ {n st}, w.services.get? n = some st → st.service.name = n
  /-- A service has a process id exactly when it is tracked or its exit is to be handled. -/
  pid_iff : ∀ {n p}, (∃ st, w.services.get? n = some st ∧ st.pid = some p) ↔
    w.knownPids.get? p = some n ∨ (n, p) ∈ exits
  /-- The tracked process ids are those of the children started for a service. -/
  tracked_iff : ∀ {n p}, w.knownPids.get? p = some n ↔
    ∃ c, w.children.get? p = some c ∧ c.service = some n
  exits_untracked : ∀ {n p}, (n, p) ∈ exits → w.knownPids.get? p = none
  exits_nodup : exits.Nodup
  queue_nodup : (names w.restartQueue).Nodup
  queue_idle : ∀ {n}, n ∈ names w.restartQueue → ∃ st, w.services.get? n = some st ∧ st.pid = none
  not_pending : ∀ {n st p}, w.services.get? n = some st → st.pid = some p → st.status ≠ .pending
  calls_idle : ∀ c ∈ w.calls, c.pid = none ∧ c.tracked = [] ∧ c.processes = []

variable {w : World} {exits : List (String × Pid)} (serviceDefs : List Service)
  (clock : ℕ → Instant) (answers : ℕ → SpawnAnswer)

namespace Exclusive

/-- The status channel plays no part. -/
theorem publish (h : Exclusive w exits) : Exclusive (publish w) exits := by
  rw [publish_eq]
  exact { h with }

theorem withInbox (h : Exclusive w exits) (inbox sent : List Datagram) :
    Exclusive { w with inbox, sent } exits := { h with }

variable {n : String} {st : ServiceState}

/-- A service with a process is not queued. -/
theorem not_queued (h : Exclusive w exits) {p : Pid} (hn : w.services.get? n = some st)
    (hp : st.pid = some p) : n ∉ names w.restartQueue := by
  intro hq
  obtain ⟨st', hst', hnn⟩ := h.queue_idle hq
  rw [hn, some.injEq] at hst'
  rw [hst', hnn] at hp
  simp at hp

section

variable (h : Exclusive w exits) (hn : w.services.get? n = some st) (hp : st.pid = none)

include h hn hp

/-- A service without a process id is not tracked. -/
theorem not_tracked (p : Pid) : w.knownPids.get? p ≠ some n := by
  intro hk
  obtain ⟨st', hst', hs⟩ := h.pid_iff.2 (.inl hk)
  rw [hn, some.injEq] at hst'
  rw [← hst', hp] at hs
  simp at hs

theorem tracked_eq_nil : w.tracked n = [] :=
  eq_nil_iff_forall_not_mem.2 fun p hm => h.not_tracked hn hp p (mem_tracked.1 hm)

theorem processes_eq_nil : w.processes n = [] :=
  eq_nil_iff_forall_not_mem.2 fun p hm =>
    h.not_tracked hn hp p (h.tracked_iff.2 (mem_processes.1 hm))

end

/-- A service has at most one process: its recorded one. -/
theorem length_processes_le (h : Exclusive w []) (n : String) : (w.processes n).length ≤ 1 := by
  have hpd : ∀ p ∈ w.processes n, ∃ st, w.services.get? n = some st ∧ st.pid = some p :=
    fun p hp => h.pid_iff.2 (.inl (h.tracked_iff.2 (mem_processes.1 hp)))
  match hl : w.processes n with
  | [] => simp
  | [p] => simp
  | p :: q :: l =>
    obtain ⟨st, hst, hp⟩ := hpd p (by simp [hl])
    obtain ⟨st', hst', hq⟩ := hpd q (by simp [hl])
    rw [hst, some.injEq] at hst'
    rw [← hst', hp, some.injEq] at hq
    have hnd := nodup_processes w n
    simp [hl, hq] at hnd

/-- A new state of the same service is stored under its name as well. -/
theorem named_insert (h : Exclusive w exits) {st st' : ServiceState}
    (hn : w.services.get? n = some st) {m : String} {s : ServiceState}
    (hs : (w.services.insert n st').get? m = some s) (hsv : st'.service = st.service) :
    s.service.name = m := by
  rw [get?_insert] at hs
  split_ifs at hs with hm
  · rw [← some.inj hs, hsv, hm]
    exact h.named hn
  · exact h.named hs

/-- Replacing the state of a service by one with the same definition and process id, which is not
pending when it has a process. -/
theorem setState (h : Exclusive w exits) {st st' : ServiceState} (hn : w.services.get? n = some st)
    (hsv : st'.service = st.service) (hpd : st'.pid = st.pid)
    (hsta : st'.status = st.status ∨ st'.status ≠ .pending) :
    Exclusive { w with services := w.services.insert n st' } exits where
  named := fun hs => h.named_insert hn hs hsv
  pid_iff := by
    intro m p
    rw [← h.pid_iff, get?_insert]
    split_ifs with hm
    · simp [hm, hn, hpd]
    · rfl
  tracked_iff := h.tracked_iff
  exits_untracked := h.exits_untracked
  exits_nodup := h.exits_nodup
  queue_nodup := h.queue_nodup
  queue_idle := by
    intro m hm
    obtain ⟨s, hs, hnn⟩ := h.queue_idle hm
    simp only [get?_insert]
    split_ifs with hmn
    · subst hmn
      rw [hn, some.injEq] at hs
      exact ⟨st', rfl, by rw [hpd, hs, hnn]⟩
    · exact ⟨s, hs, hnn⟩
  not_pending := by
    intro m s p hs hp
    rw [get?_insert] at hs
    split_ifs at hs with hm
    · have heq := some.inj hs
      rcases hsta with hst | hst
      · rw [← heq, hst]
        exact h.not_pending hn (by rw [← hpd, heq, hp])
      · rwa [← heq]
    · exact h.not_pending hs hp
  calls_idle := h.calls_idle

/-! ### Notifications -/

theorem apply (h : Exclusive w exits) (n : ServiceNotification) : Exclusive (w.apply n) exits := by
  rcases apply_cases w n with heq | ⟨st, st', hst, heq, hsv, hpd, hs⟩
  · rwa [heq]
  · rw [heq]
    exact h.setState hst hsv hpd hs

/-! ### Spawning -/

/-- The call that `spawn` records for a service without a process. -/
theorem calls_idle_append (h : Exclusive w exits) (hn : w.services.get? n = some st)
    (hp : st.pid = none) :
    ∀ c ∈ w.calls ++ [w.spawnCall st], c.pid = none ∧ c.tracked = [] ∧ c.processes = [] := by
  intro c hc
  rcases mem_append.1 hc with hc | hc
  · exact h.calls_idle c hc
  · have hnm : st.service.name = n := h.named hn
    rw [mem_singleton.1 hc]
    exact ⟨hp, by simpa [spawnCall, hnm] using h.tracked_eq_nil hn hp,
      by simpa [spawnCall, hnm] using h.processes_eq_nil hn hp⟩

theorem spawned (h : Exclusive w []) {pid : Pid} (hn : w.services.get? n = some st)
    (hp : st.pid = none) (hq : n ∉ names w.restartQueue) (hf : pid ∉ w.children.keys) :
    Exclusive (w.spawned n st pid) [] := by
  have hnm : st.service.name = n := h.named hn
  -- nobody else holds the fresh process id
  have hun : w.children.get? pid = none := get?_eq_none_iff.2 hf
  have hu : w.knownPids.get? pid = none := by
    rw [eq_none_iff_forall_ne_some]
    intro m hm
    obtain ⟨c, hc, -⟩ := h.tracked_iff.1 hm
    simp [hun] at hc
  refine
    { named := fun hs => h.named_insert hn hs rfl, pid_iff := ?_, tracked_iff := ?_,
      exits_untracked := by simp, exits_nodup := nodup_nil, queue_nodup := h.queue_nodup,
      queue_idle := ?_, not_pending := ?_, calls_idle := h.calls_idle_append hn hp }
  · intro m p
    have hm_iff := h.pid_iff (n := m) (p := p)
    simp only [World.spawned, get?_insert] at hm_iff ⊢
    by_cases hm : m = n
    · by_cases hpp : p = pid
      · simp [hm, hpp]
      · simpa [hm, hpp, Ne.symm hpp] using h.not_tracked hn hp p
    · by_cases hpp : p = pid
      · rw [hpp, hu] at hm_iff
        simpa [hm, hpp, Ne.symm hm] using hm_iff
      · simpa [hm, hpp] using hm_iff
  · intro m p
    simp only [World.spawned, get?_insert]
    split_ifs with hpp
    · simp [hnm]
    · exact h.tracked_iff
  · intro m hm
    obtain ⟨s, hs, hnn⟩ := h.queue_idle hm
    have hne : m ≠ n := fun heq => hq (heq ▸ hm)
    exact ⟨s, by simpa [World.spawned, get?_insert, hne] using hs, hnn⟩
  · intro m s p hs hsp
    simp only [World.spawned, get?_insert] at hs
    split_ifs at hs with hm
    · simp [← some.inj hs]
    · exact h.not_pending hs hsp

/-- Replacing the state of a service by one without a process id, and queueing the service or not.
The exits of the service are handled by this. -/
theorem setIdle (h : Exclusive w exits) {st st' : ServiceState} (hn : w.services.get? n = some st)
    (hsv : st'.service = st.service) (hpd : st'.pid = none)
    (hu : ∀ p, w.knownPids.get? p ≠ some n) {queue : RestartQueue} (hq : n ∉ names w.restartQueue)
    (hqu : names queue = names w.restartQueue ∨ names queue = names w.restartQueue ++ [n])
    {rest : List (String × Pid)} (hrest : rest.Nodup)
    (he : ∀ m p, (m, p) ∈ rest ↔ (m, p) ∈ exits ∧ m ≠ n) {calls : List SpawnCall}
    (hc : ∀ c ∈ calls, c.pid = none ∧ c.tracked = [] ∧ c.processes = []) (reads : ℕ) :
    Exclusive { w with services := w.services.insert n st', restartQueue := queue, calls, reads }
      rest where
  named := fun hs => h.named_insert hn hs hsv
  pid_iff := by
    intro m p
    rw [he, get?_insert]
    by_cases hm : m = n
    · simp [hm, hpd, hu p]
    · simpa [hm] using h.pid_iff
  tracked_iff := h.tracked_iff
  exits_untracked := fun hm => h.exits_untracked ((he _ _).1 hm).1
  exits_nodup := hrest
  queue_nodup := by
    rcases hqu with hqu | hqu <;> rw [hqu]
    · exact h.queue_nodup
    · exact nodup_append.2 ⟨h.queue_nodup, by simp, fun a ha b hb heq =>
        hq ((mem_singleton.1 hb) ▸ heq ▸ ha)⟩
  queue_idle := by
    intro m hm
    simp only [get?_insert]
    by_cases hmn : m = n
    · exact ⟨st', if_pos hmn, hpd⟩
    · simp only [if_neg hmn]
      rcases hqu with hqu | hqu <;> rw [hqu] at hm
      · exact h.queue_idle hm
      · exact h.queue_idle ((mem_append.1 hm).resolve_right (by simpa using hmn))
  not_pending := by
    intro m s p hs hp
    rw [get?_insert] at hs
    split_ifs at hs with hm
    · rw [← some.inj hs, hpd] at hp
      simp at hp
    · exact h.not_pending hs hp
  calls_idle := hc

theorem spawnFailed (h : Exclusive w []) (hn : w.services.get? n = some st) (hp : st.pid = none)
    (hq : n ∉ names w.restartQueue) : Exclusive (w.spawnFailed n st) [] := by
  have hnm : st.service.name = n := h.named hn
  refine h.setIdle hn ?_ ?_ (h.not_tracked hn hp) hq ?_ nodup_nil (by simp)
    (h.calls_idle_append hn hp) _
  all_goals
    rcases RestartQueue.recordSpawnFailure_cases (w.time 0) (w.time 1) w.restartQueue st with
      heq | heq <;> rw [heq]
  · rfl
  · rfl
  · exact hp
  · exact hp
  · refine .inl ?_
    rw [RestartQueue.names_cancel, hnm]
    exact filter_eq_self.2 fun m hm => by
      simpa using fun heq : m = n => hq (heq ▸ hm)
  · exact .inr (by rw [RestartQueue.names_enqueue, hnm])

end Exclusive

/-! ## Loops over `spawnOrLog` -/

/-- A service that may be spawned: it is known, has no process and is not queued. -/
def Spawnable (w : World) (n : String) : Prop :=
  (∃ st, w.services.get? n = some st ∧ st.pid = none) ∧ n ∉ names w.restartQueue

theorem Exclusive.spawnOrLog (h : Exclusive w []) {n : String} (hn : Spawnable w n) :
    Exclusive (w.spawnOrLog n) [] := by
  obtain ⟨⟨st, hst, hp⟩, hq⟩ := hn
  rcases spawnOrLog_cases hst with ⟨pid, hf, heq⟩ | heq <;> rw [heq]
  · exact (h.spawned hst hp hq hf).publish
  · exact (h.spawnFailed hst hp hq).publish

/-- Spawning one service leaves the others as they are. -/
theorem Spawnable.spawnOrLog (h : Exclusive w []) {n m : String} (hn : Spawnable w n)
    (hm : Spawnable w m) (hne : m ≠ n) : Spawnable (w.spawnOrLog n) m := by
  obtain ⟨⟨st, hst, hp⟩, hq⟩ := hn
  have hnm : st.service.name = n := h.named hst
  rcases spawnOrLog_cases hst with ⟨pid, -, heq⟩ | heq <;> rw [heq]
  · simpa [Spawnable, spawned, get?_insert, hne] using hm
  · refine ⟨by simpa [spawnFailed, get?_insert, hne] using hm.1, ?_⟩
    rcases RestartQueue.recordSpawnFailure_cases (w.time 0) (w.time 1) w.restartQueue st with
      hr | hr
    · simpa [spawnFailed, hr, RestartQueue.names_cancel] using fun hmq => absurd hmq hm.2
    · simpa [spawnFailed, hr, hnm, hne] using hm.2

theorem Exclusive.foldl_spawnOrLog (h : Exclusive w []) {l : List String} (hl : l.Nodup)
    (ha : ∀ n ∈ l, Spawnable w n) : Exclusive (l.foldl World.spawnOrLog w) [] :=
  runFrom_invariant_nodup (Exclusive · []) Spawnable (fun _ _ h hn => h.spawnOrLog hn)
    (fun _ _ _ h hn hm hne => Spawnable.spawnOrLog h hn hm hne) hl h ha

theorem nodup_startable (w : World) : (startable w).Nodup :=
  ((filter_sublist.map Prod.fst).nodup w.services.nodup).filter _

theorem Exclusive.spawnable_of_startable (h : Exclusive w []) {n : String}
    (hn : n ∈ startable w) : Spawnable w n := by
  obtain ⟨hn, hq⟩ := mem_filter.1 hn
  obtain ⟨e, he, rfl⟩ := mem_map.1 hn
  obtain ⟨hmm, hpn⟩ := mem_filter.1 he
  have hget : w.services.get? e.1 = some e.2 := get?_eq_some_iff.2 hmm
  refine ⟨⟨e.2, hget, eq_none_iff_forall_ne_some.2 fun p hp => ?_⟩, fun hm => ?_⟩
  · exact h.not_pending hget hp (by simpa using (Bool.and_eq_true_iff.1 hpn).1)
  · simp [RestartQueue.isQueued_iff.2 hm] at hq

theorem startReadyServices_exclusive (h : Exclusive w []) : Exclusive (startReadyServices w) [] :=
  h.foldl_spawnOrLog (nodup_startable w) fun _ hn => h.spawnable_of_startable hn

theorem processNotifications_exclusive (h : Exclusive w []) :
    Exclusive (processNotifications w) [] := by
  have ha : Exclusive (notified w) [] :=
    runFrom_invariant_always (Exclusive · []) (fun _ n h => h.apply n) (h.withInbox _ _) _
  rw [processNotifications_eq]
  split_ifs
  · exact startReadyServices_exclusive ha
  · exact (startReadyServices_exclusive ha).publish

/-- The queue splits into the due names and those that stay, without overlap. -/
theorem Exclusive.dequeue (h : Exclusive w []) :
    Exclusive (dequeued w) [] ∧ (due w).Nodup ∧ ∀ n ∈ due w, Spawnable (dequeued w) n := by
  have hpr := RestartQueue.takeDue_perm (w.time 0) (depsReady w.services) w.restartQueue
  have hnd := hpr.nodup_iff.2 h.queue_nodup
  rw [nodup_append] at hnd
  refine ⟨{ h with queue_nodup := hnd.1, queue_idle := fun hn => ?_ }, hnd.2.1,
    fun n hn => ⟨?_, fun hm => hnd.2.2 n hm n hn rfl⟩⟩
  · exact h.queue_idle (hpr.subset (mem_append_left _ hn))
  · exact h.queue_idle (hpr.subset (mem_append_right _ hn))

theorem processPendingRestarts_exclusive (h : Exclusive w []) :
    Exclusive (processPendingRestarts w) [] := by
  obtain ⟨hd, hnd, hs⟩ := h.dequeue
  exact hd.foldl_spawnOrLog hnd hs

/-! ## Exits -/

/-- The services and process ids of exits. -/
def exitPids (exits : List (String × ChildExit)) : List (String × Pid) :=
  exits.map fun e => (e.1, e.2.pid)

variable {l : List (String × ChildExit)}

theorem handleServiceExit_exclusive {e : String × ChildExit} (h : Exclusive w (exitPids (e :: l))) :
    Exclusive (w.handleServiceExit e) (exitPids l) := by
  have hmm : (e.1, e.2.pid) ∈ exitPids (e :: l) := mem_cons_self
  obtain ⟨st, hst, hp⟩ := h.pid_iff.2 (.inr hmm)
  have hnm : st.service.name = e.1 := h.named hst
  -- a service has one process id, so no other exit and no tracked process is its
  have hu : ∀ p, w.knownPids.get? p = some e.1 ∨ (e.1, p) ∈ exitPids (e :: l) → p = e.2.pid := by
    intro p hor
    obtain ⟨st', hst', hp'⟩ := h.pid_iff.2 hor
    rw [hst, some.injEq] at hst'
    rw [← hst', hp, some.injEq] at hp'
    exact hp'.symm
  have hnd := nodup_cons.1 h.exits_nodup
  obtain ⟨st', queue, reads, heq, hs, hpd, -, hq⟩ := handleServiceExit_cases hst
  rw [heq]
  refine h.setIdle hst hs hpd ?_ (h.not_queued hst hp) ?_ hnd.2 ?_ h.calls_idle reads
  · intro p hk
    rw [hu p (.inl hk), h.exits_untracked hmm] at hk
    simp at hk
  · rcases hq with rfl | ⟨now, rfl⟩
    · exact .inl rfl
    · exact .inr (by rw [RestartQueue.names_enqueue, hnm])
  · intro m p
    constructor
    · intro hm
      refine ⟨mem_cons_of_mem _ hm, fun hme => ?_⟩
      subst hme
      have hp' := hu p (.inr (mem_cons_of_mem _ hm))
      exact hnd.1 (by rwa [hp'] at hm)
    · rintro ⟨hm, hne⟩
      rcases mem_cons.1 hm with heq | hm
      · exact absurd (Prod.mk.inj heq).1 hne
      · exact hm

theorem processExits_exclusive (h : Exclusive w (exitPids l)) :
    Exclusive (processExits w l) [] := by
  refine Exclusive.publish ?_
  induction l generalizing w with
  | nil => exact h
  | cons e l ih => exact ih (handleServiceExit_exclusive h)

theorem reapChild_exclusive {acc : World × List (String × ChildExit)}
    (h : Exclusive acc.1 (exitPids acc.2)) (pid : Pid) :
    Exclusive (reapChild acc pid).1 (exitPids (reapChild acc pid).2) := by
  rcases reapChild_cases acc pid with heq | ⟨c, hc, ⟨name, exit, hk, hpi, heq⟩ | ⟨hk, heq⟩⟩
  · rwa [heq]
  · have hpd : exitPids (acc.2 ++ [(name, exit)]) = exitPids acc.2 ++ [(name, pid)] := by
      simp [exitPids, hpi]
    rw [heq, hpd]
    refine { h with pid_iff := ?_, tracked_iff := ?_, exits_untracked := ?_, exits_nodup := ?_ }
    · intro n p
      rw [h.pid_iff, get?_erase]
      by_cases hp : p = pid
      · simp [hp, hk, or_comm, eq_comm]
      · simp [hp]
    · intro n p
      simp only [get?_erase]
      split_ifs
      · simp
      · exact h.tracked_iff
    · intro n p hm
      rw [get?_erase]
      split_ifs with hp
      · rfl
      · exact h.exits_untracked ((mem_append.1 hm).resolve_right (by simp [hp]))
    · refine nodup_append.2 ⟨h.exits_nodup, by simp, fun a ha b hb hab => ?_⟩
      rw [hab, mem_singleton.1 hb] at ha
      rw [h.exits_untracked ha] at hk
      simp at hk
  · rw [heq]
    refine { h with tracked_iff := ?_ }
    intro n p
    rw [h.tracked_iff, get?_erase]
    split_ifs with hp
    · subst hp
      rw [← h.tracked_iff, hk]
      simp
    · rfl

theorem reapAll_exclusive (h : Exclusive w []) (pids : List Pid) :
    Exclusive (reapAll w pids).1 (exitPids (reapAll w pids).2) :=
  runFrom_invariant_always
    (fun acc : World × List (String × ChildExit) => Exclusive acc.1 (exitPids acc.2))
    (fun _ pid ha => reapChild_exclusive ha pid) h pids

/-! ## Runs -/

/-- **Every event keeps the invariant.** -/
theorem exclusive_step (h : Exclusive w []) (event : Event) : Exclusive (w.step event) [] := by
  cases event with
  | exits pids => exact processExits_exclusive (reapAll_exclusive h pids)
  | sweep pids =>
    have hr := reapAll_exclusive h pids
    simp only [step]
    split_ifs with hnl
    · rwa [hnl] at hr
    · exact processExits_exclusive hr
  | tick => exact processPendingRestarts_exclusive (processNotifications_exclusive h)
  | signal => exact h
  | terminate pid status =>
    simp only [step]
    cases hc : w.children.get? pid with
    | none => exact h
    | some child =>
      refine { h with tracked_iff := ?_ }
      intro n p
      rw [h.tracked_iff, get?_insert]
      split_ifs with hp
      · simp [hp, hc]
      · rfl
  | adopt pid =>
    simp only [step]
    split_ifs with hm
    · exact h
    · refine { h with tracked_iff := ?_ }
      intro n p
      rw [h.tracked_iff, get?_insert]
      split_ifs with hp
      · simp [hp, get?_eq_none_iff.2 hm]
      · rfl
  | send datagram =>
    simp only [step]
    split_ifs
    · exact h.withInbox _ _
    · exact h

theorem exclusive_withBackends : Exclusive (withBackends serviceDefs clock answers) [] := by
  have hf : ∀ {n st}, (withBackends serviceDefs clock answers).services.get? n = some st →
      st.service.name = n ∧ st.pid = none := by
    intro n st hst
    obtain ⟨s, -, hs⟩ := mem_map.1 (mem_of_get?_ofList hst)
    obtain ⟨rfl, rfl⟩ := Prod.mk.inj hs
    exact ⟨rfl, rfl⟩
  refine
    { named := fun hst => (hf hst).1, pid_iff := ?_, tracked_iff := by simp [withBackends],
      exits_untracked := by simp, exits_nodup := nodup_nil,
      queue_nodup := by simp [withBackends, names], queue_idle := by simp [withBackends, names],
      not_pending := ?_, calls_idle := by simp [withBackends] }
  · intro n p
    constructor
    · rintro ⟨st, hst, hp⟩
      simp [(hf hst).2] at hp
    · simp [withBackends]
  · intro n st p hst hp
    simp [(hf hst).2] at hp

theorem exclusive_run (h : Exclusive w []) (events : List Event) : Exclusive (run w events) [] :=
  runFrom_invariant_always (Exclusive · []) (fun _ event h => exclusive_step h event)
    (startReadyServices_exclusive h).publish events

/-- What keeps two processes of a service apart. -/
structure OneProcess (w : World) : Prop where
  /-- A service has at most one process that has not been reaped. -/
  processes : ∀ n, (w.processes n).length ≤ 1
  /-- Every call of `spawn` so far was for a service without a process id, a tracked process or a
  child. -/
  calls : ∀ c ∈ w.calls, c.pid = none ∧ c.tracked = [] ∧ c.processes = []
  /-- No service is queued twice. -/
  queue : (names w.restartQueue).Nodup
  /-- A service with a process is neither queued nor pending. -/
  active : ∀ n st p, w.services.get? n = some st → st.pid = some p →
    n ∉ names w.restartQueue ∧ st.status ≠ .pending

theorem Exclusive.oneProcess (h : Exclusive w []) : OneProcess w where
  processes := h.length_processes_le
  calls := h.calls_idle
  queue := h.queue_nodup
  active := fun _ _ _ hst hp => ⟨h.not_queued hst hp, h.not_pending hst hp⟩

/-- **One process for each service**, before the event loop starts and after any events, whatever
the clock says and however the calls of `spawn` end. -/
theorem one_process_per_service : OneProcess (withBackends serviceDefs clock answers) ∧
      ∀ events, OneProcess (run (withBackends serviceDefs clock answers) events) :=
  ⟨(exclusive_withBackends serviceDefs clock answers).oneProcess, fun events =>
    (exclusive_run (exclusive_withBackends serviceDefs clock answers) events).oneProcess⟩

/-- **No process is forgotten**: after any events, the process ids of the services are those of the
children started for them. -/
theorem pid_iff_mem_processes (events : List Event) (n : String) (p : Pid) :
    let w := run (withBackends serviceDefs clock answers) events
    (∃ st, w.services.get? n = some st ∧ st.pid = some p) ↔ p ∈ w.processes n := by
  intro w
  have h := exclusive_run (exclusive_withBackends serviceDefs clock answers) events
  rw [h.pid_iff, mem_processes, ← h.tracked_iff]
  simp

end Muak.Granola.World
