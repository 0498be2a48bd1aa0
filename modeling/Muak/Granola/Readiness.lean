import Muak.Granola.Exclusive
import Muak.Granola.Wire

/-!
# When a ready service has a process

A service is meant to be ready only while its process runs and has reported so itself. The
supervisor matches notifications by the service's name alone: it parses the process id of a `READY`
datagram and drops it, and a `healthy` status update of a degraded service makes it ready as well.
So what is meant holds exactly as long as no notification takes a service to ready that has no such
process.

* `Vouched w n`: applying `n` makes no service ready, or one whose process has sent `READY`.
* `readyIsLive_apply_iff`: this is what one notification needs in order to keep the property.
* `ready_is_live_of_vouched`: in a run all of whose notifications are vouched for, every ready
  service has a process that has sent `READY`, and no service was ever started on a dependency
  without a process.
* `late_ready_starts_dependent`: a `READY` that is delivered after the exit of its sender was
  handled breaks it.

A process counts as live until its exit has been reaped.
-/

namespace Muak.Granola.World

open List Option Dict

open RestartQueue (names)

/-! ## The property and the condition -/

/-- The process of `child` has sent a `READY` for the service. -/
def HasSentReady (w : World) (child : Child) (n : String) : Prop :=
  ∃ d ∈ w.sent, d.sender = child.birth ∧ notification? d.bytes = some (.ready n)

/-- The state `st` of the service `n` records a process of `n` which has sent `READY`. -/
def LiveReady (w : World) (n : String) (st : ServiceState) : Prop :=
  ∃ p child, st.pid = some p ∧ w.children.get? p = some child ∧ child.service = some n ∧
    HasSentReady w child n

/-- Every ready service records a process of its own which has sent `READY`. -/
def ReadyIsLive (w : World) : Prop :=
  ∀ n st, w.services.get? n = some st → st.status = .ready → LiveReady w n st

/-- Whether a notification takes a service in this state to ready: a `READY` always does, a status
update when it is news, healthy, and the service was degraded. -/
def makesReady (st : ServiceState) : ServiceNotification → Bool
  | .ready _ => true
  | .statusUpdate _ statusText health =>
    st.lastStatus ≠ some (statusText, health) ∧ health = .healthy ∧ st.status = .degraded
  | .stopping _ => false

/-- A notification that takes a service to ready is vouched for when the service has a process
which has sent `READY`. -/
def Vouched (w : World) (n : ServiceNotification) : Prop :=
  ∀ st, w.services.get? (target n) = some st → makesReady st n = true → LiveReady w (target n) st

/-- All notifications that a tick delivers are vouched for when they are applied. -/
def Prompt (w : World) : Event → Prop
  | .tick => Along apply Vouched { w with inbox := (poll w.inbox).2 } (poll w.inbox).1
  | _ => True

/-! ## Frames -/

variable {w w' : World} {exits : List (String × Pid)} {n : String} {st : ServiceState}

/-- `LiveReady` survives as long as the children keep their identity. -/
theorem LiveReady.mono (h : LiveReady w n st) (hsn : w.sent ⊆ w'.sent)
    (hch : ∀ p c, st.pid = some p → w.children.get? p = some c → c.service = some n →
      ∃ c', w'.children.get? p = some c' ∧ c'.service = c.service ∧ c'.birth = c.birth) :
    LiveReady w' n st := by
  obtain ⟨p, c, hp, hc, hn, d, hd, hs, hpr⟩ := h
  obtain ⟨c', hc', hsv, hb⟩ := hch p c hp hc hn
  exact ⟨p, c', hp, hc', hsv.trans hn, d, hsn hd, hs.trans hb.symm, hpr⟩

theorem LiveReady.of_eq (h : LiveReady w n st) (hs : w'.sent = w.sent)
    (hch : w'.children = w.children) : LiveReady w' n st :=
  h.mono (by rw [hs]; exact List.Subset.refl _) fun p c _ hc _ =>
    ⟨c, by rw [hch, hc], rfl, rfl⟩

theorem LiveReady.exists_process (h : LiveReady w n st) : w.processes n ≠ [] := by
  obtain ⟨p, c, -, hc, hn, -⟩ := h
  exact ne_nil_of_mem (mem_processes.2 ⟨c, hc, hn⟩)

/-! ## One notification -/

@[simp] theorem apply_children (w : World) (n : ServiceNotification) :
    (w.apply n).children = w.children := by
  rcases apply_cases w n with heq | ⟨_, _, _, heq, -⟩ <;> rw [heq]

@[simp] theorem apply_sent (w : World) (n : ServiceNotification) : (w.apply n).sent = w.sent := by
  rcases apply_cases w n with heq | ⟨_, _, _, heq, -⟩ <;> rw [heq]

theorem apply_calls (w : World) (n : ServiceNotification) : (w.apply n).calls = w.calls := by
  rcases apply_cases w n with heq | ⟨_, _, _, heq, -⟩ <;> rw [heq]

theorem apply_get?_of_ne (w : World) (note : ServiceNotification) (hn : n ≠ target note) :
    (w.apply note).services.get? n = w.services.get? n := by
  rcases apply_cases w note with heq | ⟨_, _, _, heq, -⟩ <;> rw [heq]
  exact get?_insert_of_ne _ _ hn

variable {note : ServiceNotification} (serviceDefs : List Service) (clock : ℕ → Instant)
  (answers : ℕ → SpawnAnswer)

/-- What a notification makes of the state of the service it names. -/
theorem apply_get?_target (h : w.services.get? (target note) = some st) :
    ∃ st', (w.apply note).services.get? (target note) = some st' ∧ st'.pid = st.pid ∧
      (makesReady st note = true → st'.status = .ready) ∧
      (st'.status = .ready → makesReady st note = true ∨ st.status = .ready) := by
  cases note with
  | ready name =>
    refine ⟨{ st with status := .ready, restartCount := 0 }, ?_, rfl, fun _ => rfl,
      fun _ => .inl rfl⟩
    simp only [target] at h ⊢
    simp [apply, applyReady, h]
  | stopping name =>
    refine ⟨{ st with status := .stopping }, ?_, rfl, by simp [makesReady], by simp⟩
    simp only [target] at h ⊢
    simp [apply, applyStopping, h]
  | statusUpdate name text health =>
    simp only [target] at h ⊢
    by_cases hl : st.lastStatus = some (text, health)
    · refine ⟨st, ?_, rfl, by simp [makesReady, hl], .inr⟩
      simp [apply, applyStatusUpdate, h, hl]
    · simp only [apply, applyStatusUpdate, h, if_neg hl]
      by_cases hh : health = .healthy
      · by_cases hd : st.status = .degraded
        · simp [hh, hd, makesReady, hh ▸ hl]
        · simp [hh, hd, makesReady]
      · simp [hh, makesReady]

/-- **What one notification needs in order to keep the property.** -/
theorem readyIsLive_apply_iff (h : ReadyIsLive w) (note : ServiceNotification) :
    ReadyIsLive (w.apply note) ↔ Vouched w note := by
  constructor
  · intro hl st hst hm
    obtain ⟨st', hst', hpd, hr, -⟩ := apply_get?_target hst
    obtain ⟨p, c, hp, hrest⟩ : LiveReady w (target note) st' :=
      (hl _ st' hst' (hr hm)).of_eq (by simp) (by simp)
    exact ⟨p, c, hpd ▸ hp, hrest⟩
  · intro hv n st hst hr
    refine LiveReady.of_eq (w := w) ?_ (by simp) (by simp)
    by_cases hn : n = target note
    · subst hn
      cases ho : w.services.get? (target note) with
      | none =>
        rcases apply_cases w note with heq | ⟨_, _, hs, -⟩
        · rw [heq, ho] at hst
          simp at hst
        · rw [ho] at hs
          simp at hs
      | some old =>
        obtain ⟨st', hst', hpd, -, hc⟩ := apply_get?_target ho
        rw [hst, some.injEq] at hst'
        subst hst'
        obtain ⟨p, c, hp, hrest⟩ : LiveReady w (target note) old :=
          (hc hr).elim (hv old ho) (h _ old ho)
        exact ⟨p, c, hpd.trans hp, hrest⟩
    · rw [apply_get?_of_ne w note hn] at hst
      exact h n st hst hr

/-! ## Spawning -/

/-- All dependencies of the service have a process. -/
def Grounded (w : World) (n : String) : Prop :=
  ∀ st, w.services.get? n = some st → ∀ dep ∈ st.service.dependsOn, w.processes dep ≠ []

/-- `Sound w exits`: the property in the middle of handling `exits`, with what it needs. -/
structure Sound (w : World) (exits : List (String × Pid)) : Prop where
  exclusive : Exclusive w exits
  /-- A ready service has a process that sent `READY`, unless its exit is to be handled. -/
  live : ∀ n st, w.services.get? n = some st → st.status = .ready → (∀ p, (n, p) ∉ exits) →
    LiveReady w n st
  /-- No service was started on a dependency without a process. -/
  calls : ∀ c ∈ w.calls, c.idleDeps = []

theorem Sound.readyIsLive (h : Sound w []) : ReadyIsLive w :=
  fun n st hst hr => h.live n st hst hr (by simp)

theorem Sound.publish (h : Sound w exits) : Sound (publish w) exits where
  exclusive := h.exclusive.publish
  live := fun n st hst hr he =>
    (h.live n st (by simpa using hst) hr he).of_eq (by simp) (by simp)
  calls := by simpa using h.calls

/-- A ready dependency has a process. -/
theorem Sound.grounded (h : Sound w []) {service : Service}
    (hd : areSatisfied service w.services = true) :
    ∀ dep ∈ service.dependsOn, w.processes dep ≠ [] := by
  intro dep hdp
  have hr := all_eq_true.1 hd dep hdp
  cases hst : w.services.get? dep with
  | none => simp [hst] at hr
  | some st => exact (h.readyIsLive dep st hst (by simpa [hst] using hr)).exists_process

/-- The call that `spawn` records for a grounded service. -/
theorem Sound.calls_append (h : Sound w exits) (hst : w.services.get? n = some st)
    (hg : Grounded w n) : ∀ c ∈ w.calls ++ [w.spawnCall st], c.idleDeps = [] := by
  intro c hc
  rcases mem_append.1 hc with hc | hc
  · exact h.calls c hc
  · rw [mem_singleton.1 hc]
    exact filter_eq_nil_iff.2 fun dep hd => by simpa using hg st hst dep hd

theorem Sound.spawnOrLog (h : Sound w []) (hn : Spawnable w n) (hg : Grounded w n) :
    Sound (w.spawnOrLog n) [] where
  exclusive := h.exclusive.spawnOrLog hn
  live := by
    intro m s hs hr _
    by_cases hm : m = n
    · exact absurd hr (spawnOrLog_status_ne (hm ▸ hs))
    · rw [spawnOrLog_get?_of_ne w hm] at hs
      exact (h.readyIsLive m s hs hr).mono (by simp) fun p c _ hc _ =>
        ⟨c, spawnOrLog_children hc n, rfl, rfl⟩
  calls := by
    obtain ⟨⟨st, hst, -⟩, -⟩ := hn
    rw [spawnOrLog_calls hst]
    exact h.calls_append hst hg

/-- Spawning a service takes no process away, so the others stay grounded. -/
theorem Grounded.spawnOrLog {m : String} (hm : Grounded w m) (hne : m ≠ n) :
    Grounded (w.spawnOrLog n) m := by
  intro s hs dep hd
  rw [spawnOrLog_get?_of_ne w hne] at hs
  obtain ⟨p, hp⟩ := exists_mem_of_ne_nil _ (hm s hs dep hd)
  obtain ⟨c, hc, hsv⟩ := mem_processes.1 hp
  exact ne_nil_of_mem (mem_processes.2 ⟨c, spawnOrLog_children hc n, hsv⟩)

theorem Sound.foldl_spawnOrLog (h : Sound w []) {l : List String} (hl : l.Nodup)
    (ha : ∀ n ∈ l, Spawnable w n ∧ Grounded w n) : Sound (l.foldl World.spawnOrLog w) [] :=
  runFrom_invariant_nodup (Sound · []) (fun w n => Spawnable w n ∧ Grounded w n)
    (fun _ _ h hn => h.spawnOrLog hn.1 hn.2)
    (fun _ _ _ h hn hm hne =>
      ⟨Spawnable.spawnOrLog h.exclusive hn.1 hm.1 hne, hm.2.spawnOrLog hne⟩) hl h ha

theorem Sound.startReadyServices (h : Sound w []) : Sound (startReadyServices w) [] := by
  refine h.foldl_spawnOrLog (nodup_startable w) fun n hn =>
    ⟨h.exclusive.spawnable_of_startable hn, fun st hst => h.grounded ?_⟩
  obtain ⟨e, he, rfl⟩ := mem_map.1 (mem_filter.1 hn).1
  obtain ⟨hm, hs⟩ := mem_filter.1 he
  rw [get?_eq_some_iff.2 hm, some.injEq] at hst
  exact hst ▸ (Bool.and_eq_true_iff.1 hs).2

theorem Sound.processPendingRestarts (h : Sound w []) : Sound (processPendingRestarts w) [] := by
  obtain ⟨hd, hnd, hsp⟩ := h.exclusive.dequeue
  have hsn : Sound (dequeued w) [] :=
    ⟨hd, fun n st hst hr _ => (h.readyIsLive n st hst hr).of_eq rfl rfl, h.calls⟩
  refine hsn.foldl_spawnOrLog hnd fun n hn => ⟨hsp n hn, fun st hst => ?_⟩
  have hdp : depsReady w.services n = true := RestartQueue.depsReady_of_mem_takeDue hn
  have hst' : w.services.get? n = some st := hst
  have hs : areSatisfied st.service w.services = true := by
    simpa [depsReady, hst'] using hdp
  exact hsn.grounded hs

/-! ## Notifications -/

theorem Sound.apply (h : Sound w []) (hn : Vouched w note) : Sound (w.apply note) [] where
  exclusive := h.exclusive.apply note
  live := fun n st hst hr _ =>
    (readyIsLive_apply_iff h.readyIsLive note).2 hn n st hst hr
  calls := by
    rw [apply_calls]
    exact h.calls

theorem Sound.withInbox (h : Sound w []) (inbox sent : List Datagram) (hs : w.sent ⊆ sent) :
    Sound { w with inbox, sent } [] where
  exclusive := h.exclusive.withInbox inbox sent
  live := fun n st hst hr _ =>
    (h.readyIsLive n st hst hr).mono hs fun _ c _ hc _ => ⟨c, hc, rfl, rfl⟩
  calls := h.calls

theorem Sound.processNotifications (h : Sound w []) (hp : Prompt w .tick) :
    Sound (processNotifications w) [] := by
  have hi : Sound { w with inbox := (poll w.inbox).2 } [] := h.withInbox _ _ (List.Subset.refl _)
  have hn : Sound (notified w) [] :=
    runFrom_invariant (Sound · []) (fun _ _ h hnt => h.apply hnt) hi hp
  rw [processNotifications_eq]
  split_ifs
  · exact hn.startReadyServices
  · exact hn.startReadyServices.publish

/-! ## Exits -/

variable {l : List (String × ChildExit)}

theorem Sound.handleServiceExit {e : String × ChildExit} (h : Sound w (exitPids (e :: l))) :
    Sound (w.handleServiceExit e) (exitPids l) := by
  have he := handleServiceExit_exclusive h.exclusive
  obtain ⟨st, hst, -⟩ := h.exclusive.pid_iff.2 (.inr (mem_cons_self : (e.1, e.2.pid) ∈ _))
  obtain ⟨st', queue, reads, heq, -, -, hr', -⟩ := handleServiceExit_cases hst
  refine ⟨he, fun n s hs hr hex => ?_, by rw [heq]; exact h.calls⟩
  rw [heq] at hs ⊢
  rw [get?_insert] at hs
  split_ifs at hs with hn
  · rw [← some.inj hs] at hr
    exact absurd hr hr'
  · refine (h.live n s hs hr fun p hm => ?_).of_eq rfl rfl
    rcases mem_cons.1 hm with hh | ht
    · exact hn (Prod.mk.inj hh).1
    · exact hex p ht

theorem Sound.processExits (h : Sound w (exitPids l)) : Sound (processExits w l) [] := by
  refine Sound.publish ?_
  induction l generalizing w with
  | nil => exact h
  | cons e l ih => exact ih h.handleServiceExit

theorem Sound.reapChild {acc : World × List (String × ChildExit)} (h : Sound acc.1 (exitPids acc.2))
    (pid : Pid) : Sound (reapChild acc pid).1 (exitPids (reapChild acc pid).2) := by
  have he := reapChild_exclusive h.exclusive pid
  rcases reapChild_cases acc pid with heq | ⟨c, hc, ⟨name, exit, hk, hpd, heq⟩ | ⟨hk, heq⟩⟩
  · rwa [heq]
  · rw [heq] at he ⊢
    refine ⟨he, fun n st hst hr hex => ?_, h.calls⟩
    simp only [exitPids, map_append, mem_append, map_cons, map_nil, mem_singleton, not_or] at hex
    refine (h.live n st hst hr fun p => (hex p).1).mono (List.Subset.refl _)
      fun p c' _ hc' hs => ⟨c', ?_, rfl, rfl⟩
    -- the reaped process was that of `name`, whose exit is now to be handled
    have hp : p ≠ pid := by
      intro hp
      have hn := h.exclusive.tracked_iff.2 ⟨c', hc', hs⟩
      rw [hp, hk, some.injEq] at hn
      exact (hex p).2 (by rw [hn, hpd, hp])
    simpa [get?_erase, hp] using hc'
  · rw [heq] at he ⊢
    refine ⟨he, fun n st hst hr hex => ?_, h.calls⟩
    refine (h.live n st hst hr hex).mono (List.Subset.refl _)
      fun p c' _ hc' hs => ⟨c', ?_, rfl, rfl⟩
    have hp : p ≠ pid := by
      intro hp
      have hn := h.exclusive.tracked_iff.2 ⟨c', hc', hs⟩
      rw [hp, hk] at hn
      simp at hn
    simpa [get?_erase, hp] using hc'

theorem Sound.reapAll (h : Sound w []) (pids : List Pid) :
    Sound (reapAll w pids).1 (exitPids (reapAll w pids).2) :=
  runFrom_invariant_always
    (fun acc : World × List (String × ChildExit) => Sound acc.1 (exitPids acc.2))
    (fun _ pid ha => ha.reapChild pid) h pids

/-! ## Runs -/

/-- **Every event keeps the property**, a tick when its notifications are vouched for. -/
theorem sound_step (h : Sound w []) (event : Event) (hpr : Prompt w event) :
    Sound (w.step event) [] := by
  have he := exclusive_step h.exclusive event
  cases event with
  | exits pids => exact (h.reapAll pids).processExits
  | sweep pids =>
    have hrp := h.reapAll pids
    simp only [step]
    split_ifs with hn
    · rwa [hn] at hrp
    · exact hrp.processExits
  | tick => exact (h.processNotifications hpr).processPendingRestarts
  | signal => exact h
  | terminate pid status =>
    simp only [step] at he ⊢
    cases hc : w.children.get? pid with
    | none => exact h
    | some child =>
      simp only [hc] at he
      refine ⟨he, fun n st hst hr _ => ?_, h.calls⟩
      refine (h.readyIsLive n st hst hr).mono (List.Subset.refl _) fun p c _ hpc _ => ?_
      by_cases hp : p = pid
      · rw [hp, hc, some.injEq] at hpc
        exact ⟨{ child with ended := some status }, by simp [hp], by rw [hpc], by rw [hpc]⟩
      · exact ⟨c, (get?_insert_of_ne _ _ hp).trans hpc, rfl, rfl⟩
  | adopt pid =>
    simp only [step] at he ⊢
    split_ifs at he ⊢ with hm
    · exact h
    · refine ⟨he, fun n st hst hr _ => ?_, h.calls⟩
      refine (h.readyIsLive n st hst hr).mono (List.Subset.refl _) fun p c _ hpc _ => ?_
      have hp : p ≠ pid := fun heq => hm (mem_keys_iff.2 ⟨c, heq ▸ hpc⟩)
      exact ⟨c, (get?_insert_of_ne _ _ hp).trans hpc, rfl, rfl⟩
  | send datagram =>
    simp only [step]
    split_ifs
    · exact h.withInbox _ _ (subset_append_left _ _)
    · exact h

theorem sound_start : Sound (start (withBackends serviceDefs clock answers)) [] := by
  refine Sound.publish (Sound.startReadyServices ?_)
  refine ⟨exclusive_withBackends serviceDefs clock answers, fun n st hst hr => ?_,
    by simp [withBackends]⟩
  obtain ⟨s, -, hs⟩ := mem_map.1 (mem_of_get?_ofList hst)
  rw [← (Prod.mk.inj hs).2] at hr
  exact absurd hr (by simp [ServiceState.new])

/-- **Ready services are live** in every run whose notifications are vouched for, and no service
was started on a dependency without a process. A notification that is not vouched for breaks the
property at once. -/
theorem ready_is_live_of_vouched :
    (∀ events, Along step Prompt (start (withBackends serviceDefs clock answers)) events →
      ReadyIsLive (run (withBackends serviceDefs clock answers) events) ∧
      ∀ c ∈ (run (withBackends serviceDefs clock answers) events).calls, c.idleDeps = []) ∧
    ∀ w note, ReadyIsLive w → (ReadyIsLive (w.apply note) ↔ Vouched w note) := by
  refine ⟨fun events he => ?_, fun w note h => readyIsLive_apply_iff h note⟩
  have hs : Sound (run (withBackends serviceDefs clock answers) events) [] :=
    runFrom_invariant (Sound · []) (fun _ event h hp => sound_step h event hp)
      (sound_start serviceDefs clock answers) he
  exact ⟨hs.readyIsLive, hs.calls⟩

/-- Two services, the second depending on the first; every program starts. -/
def pair : World :=
  withBackends [⟨"a", "/bin/a", []⟩, ⟨"b", "/bin/b", ["a"]⟩] (fun _ => 0) (fun k => .forked (7 + k))

/-- The `READY` datagram of the first process. -/
def readyOfA : Datagram := ⟨some 0, (Notifier.mk "a").ready 7⟩

theorem notification?_readyOfA : notification? readyOfA.bytes = some (.ready "a") :=
  (ready_iff ⟨by decide, by decide⟩ 7).2 (by decide)

/-- The service `b` is started after `a` has reported that it is ready. -/
theorem pair_ready_is_live : ReadyIsLive (run pair [.send readyOfA, .tick]) ∧
      (run pair [.send readyOfA, .tick]).calls.map SpawnCall.name = ["a", "b"] ∧
      ∀ c ∈ (run pair [.send readyOfA, .tick]).calls, c.idleDeps = [] := by
  have hl := (ready_is_live_of_vouched [⟨"a", "/bin/a", []⟩, ⟨"b", "/bin/b", ["a"]⟩]
    (fun _ => 0) (fun k => .forked (7 + k))).1 [.send readyOfA, .tick] ?_
  · refine ⟨hl.1, ?_, hl.2⟩
    decide
  · refine ⟨trivial, ?_, trivial⟩
    refine ⟨fun st hst _ => ?_, trivial⟩
    have hp : st.pid = some 7 := (some.inj hst) ▸ rfl
    exact ⟨7, ⟨some "a", some 0, none⟩, hp, rfl, rfl, readyOfA, mem_singleton.2 rfl, rfl,
      notification?_readyOfA⟩

/-- **A late `READY`**: the datagram of `a` is delivered after the exit of its sender was handled,
so `a` is ready without a process and `b` is started. -/
theorem late_ready_starts_dependent :
    let w := run pair [.send readyOfA, .terminate 7 (.exited 1), .exits [7], .tick]
    (w.services.get? "a").map (fun st => (st.status, st.pid)) = some (.ready, none) ∧
      w.processes "a" = [] ∧
      w.calls.map (fun c => (c.name, c.idleDeps)) = [("a", []), ("b", ["a"])] := by
  decide

end Muak.Granola.World
