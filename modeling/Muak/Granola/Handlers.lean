import Muak.Granola.Supervisor

/-!
# What the handlers of the supervisor do

One lemma for each handler says everything a call of it can do to the state; the invariants of the
event loop are proved from these and do not unfold the handlers.

* `spawnOrLog_cases`: the service is unknown, was spawned (`spawned`), or failed to spawn and was
  queued again or given up (`spawnFailed`).
* `handleServiceExit_cases`, `reapChild_cases`: how an exit is recorded and reaped.
* `apply_cases`: a notification changes the state of at most one service, never its process id.
-/

namespace Muak.Granola.World

open Dict

/-! ## Publishing -/

variable (w : World)

theorem publish_eq : publish w = { w with status := snapshotOf w.services } := by
  unfold publish
  by_cases h : w.status = snapshotOf w.services
  · simp only [if_pos h]
    rw [← h]
  · simp [if_neg h]

@[simp] theorem publish_services : (publish w).services = w.services := by
  rw [publish_eq]

@[simp] theorem publish_restartQueue : (publish w).restartQueue = w.restartQueue := by
  rw [publish_eq]

@[simp] theorem publish_children : (publish w).children = w.children := by
  rw [publish_eq]

@[simp] theorem publish_calls : (publish w).calls = w.calls := by rw [publish_eq]

@[simp] theorem publish_sent : (publish w).sent = w.sent := by rw [publish_eq]

/-! ## Spawning -/

/-- The state after the program of the service was started as process `pid`. -/
def spawned (w : World) (name : String) (state : ServiceState) (pid : Pid) : World :=
  { w with
    calls := w.calls ++ [w.spawnCall state]
    children := w.children.insert pid ⟨some state.service.name, some w.calls.length, none⟩
    services := w.services.insert name { state with pid := some pid, status := .starting }
    knownPids := w.knownPids.insert pid name }

/-- The state after the service could not be started and its failure was recorded. -/
def spawnFailed (w : World) (name : String) (state : ServiceState) : World :=
  { w with
    calls := w.calls ++ [w.spawnCall state]
    services := w.services.insert name
      (RestartQueue.recordSpawnFailure (w.time 0) (w.time 1) w.restartQueue state).2
    restartQueue := (RestartQueue.recordSpawnFailure (w.time 0) (w.time 1) w.restartQueue state).1
    reads := w.reads + 2 }

variable (state : ServiceState)

/-- `spawn` records the call and either starts a process under a free process id or fails. -/
theorem spawn_cases :
    (∃ e, w.spawn state = ({ w with calls := w.calls ++ [w.spawnCall state] }, .error e)) ∨
      ∃ pid ∉ w.children.keys, w.spawn state = ({ w with
            calls := w.calls ++ [w.spawnCall state]
            children :=
              w.children.insert pid ⟨some state.service.name, some w.calls.length, none⟩ },
          .ok ({ state with pid := some pid, status := .starting }, pid)) := by
  unfold spawn
  cases state.service.argv with
  | nil => exact .inl ⟨_, rfl⟩
  | cons program args =>
    cases w.answers w.calls.length with
    | missing => exact .inl ⟨_, rfl⟩
    | failed => exact .inl ⟨_, rfl⟩
    | forked pid =>
      by_cases h : pid ∈ w.children.keys
      · exact .inl ⟨_, if_pos h⟩
      · exact .inr ⟨pid, h, if_neg h⟩

variable {name : String}

theorem spawnOrLog_of_none {w : World} (h : w.services.get? name = none) :
    w.spawnOrLog name = publish w := by
  simp [spawnOrLog, spawnService, h]

variable {state}

/-- **What `spawnOrLog` does for a known service.** -/
theorem spawnOrLog_cases {w : World} (h : w.services.get? name = some state) :
    (∃ pid ∉ w.children.keys, w.spawnOrLog name = publish (w.spawned name state pid)) ∨
      w.spawnOrLog name = publish (w.spawnFailed name state) := by
  rcases spawn_cases w state with ⟨e, he⟩ | ⟨pid, hp, hs⟩
  · refine .inr ?_
    simp only [spawnOrLog, spawnService, h, he]
    rfl
  · refine .inl ⟨pid, hp, ?_⟩
    simp only [spawnOrLog, spawnService, h, hs]
    rfl

theorem spawnOrLog_children {w : World} {p : Pid} {c : Child} (hc : w.children.get? p = some c)
    (name : String) : (w.spawnOrLog name).children.get? p = some c := by
  cases h : w.services.get? name with
  | none => rwa [spawnOrLog_of_none h, publish_children]
  | some state =>
    rcases spawnOrLog_cases h with ⟨pid, hf, heq⟩ | heq <;> rw [heq, publish_children]
    · have hp : p ≠ pid := fun heq => hf (mem_keys_iff.2 ⟨c, heq ▸ hc⟩)
      exact (get?_insert_of_ne _ _ hp).trans hc
    · exact hc

@[simp] theorem spawnOrLog_sent (name : String) : (w.spawnOrLog name).sent = w.sent := by
  cases h : w.services.get? name with
  | none => rw [spawnOrLog_of_none h, publish_sent]
  | some state =>
    rcases spawnOrLog_cases h with ⟨pid, -, heq⟩ | heq <;> rw [heq, publish_sent] <;> rfl

theorem spawnOrLog_get?_of_ne {name other : String} (hne : other ≠ name) :
    (w.spawnOrLog name).services.get? other = w.services.get? other := by
  cases h : w.services.get? name with
  | none => rw [spawnOrLog_of_none h, publish_services]
  | some state =>
    rcases spawnOrLog_cases h with ⟨pid, -, heq⟩ | heq <;> rw [heq, publish_services] <;>
      exact get?_insert_of_ne _ _ hne

variable {w}

theorem spawnOrLog_calls (h : w.services.get? name = some state) :
    (w.spawnOrLog name).calls = w.calls ++ [w.spawnCall state] := by
  rcases spawnOrLog_cases h with ⟨pid, -, heq⟩ | heq <;> rw [heq, publish_calls] <;> rfl

/-- The service itself is not ready afterwards, whatever the outcome. -/
theorem spawnOrLog_status_ne (h : (w.spawnOrLog name).services.get? name = some state) :
    state.status ≠ .ready := by
  cases ho : w.services.get? name with
  | none =>
    rw [spawnOrLog_of_none ho, publish_services, ho] at h
    simp at h
  | some old =>
    rcases spawnOrLog_cases ho with ⟨pid, -, heq⟩ | heq <;> rw [heq, publish_services] at h
    · rw [← Option.some.inj ((get?_insert_self _ _ _).symm.trans h)]
      simp
    · rw [← Option.some.inj ((get?_insert_self _ _ _).symm.trans h)]
      rcases RestartQueue.recordSpawnFailure_cases (w.time 0) (w.time 1) w.restartQueue old with
        hr | hr <;> rw [hr] <;> simp [RestartQueue.markFailed]

/-! ## Exits -/

/-- **What handling an exit does**: the service loses its process id, is not ready afterwards, and
is queued at most once more. -/
theorem handleServiceExit_cases {exit : String × ChildExit}
    (h : w.services.get? exit.1 = some state) : ∃ state' queue reads,
      w.handleServiceExit exit = { w with
        services := w.services.insert exit.1 state'
        restartQueue := queue
        reads := reads } ∧
      state'.service = state.service ∧ state'.pid = none ∧ state'.status ≠ .ready ∧
      (queue = w.restartQueue ∨
        ∃ now, queue = RestartQueue.enqueue now w.restartQueue state.service.name) := by
  unfold handleServiceExit
  simp only [h]
  split
  · exact ⟨_, _, _, rfl, rfl, rfl, by simp [RestartQueue.schedule], .inr ⟨w.time 2, rfl⟩⟩
  · split
    · exact ⟨_, _, _, rfl, rfl, rfl, by simp, .inl rfl⟩
    · exact ⟨_, _, _, rfl, rfl, rfl, by simp [RestartQueue.markFailed], .inl rfl⟩

theorem pid_of_decodeWaitStatus {pid : Pid} {status : WaitStatus} {exit : ChildExit}
    (h : decodeWaitStatus pid status = some exit) : exit.pid = pid := by
  cases status <;> simp only [decodeWaitStatus, Option.some.injEq, reduceCtorEq] at h
  all_goals exact h ▸ rfl

/-- **What one answer of `waitpid` does**: nothing, or a child leaves the kernel's table and its
exit is forwarded exactly when its process id is tracked. -/
theorem reapChild_cases (acc : World × List (String × ChildExit)) (pid : Pid) :
    reapChild acc pid = acc ∨ ∃ child, acc.1.children.get? pid = some child ∧
        ((∃ name exit, acc.1.knownPids.get? pid = some name ∧ exit.pid = pid ∧
            reapChild acc pid = ({ acc.1 with
                children := acc.1.children.erase pid
                knownPids := acc.1.knownPids.erase pid }, acc.2 ++ [(name, exit)])) ∨
          (acc.1.knownPids.get? pid = none ∧ reapChild acc pid =
              ({ acc.1 with children := acc.1.children.erase pid }, acc.2))) := by
  unfold reapChild
  cases hc : acc.1.children.get? pid with
  | none => exact .inl rfl
  | some child =>
    cases he : child.ended.bind (decodeWaitStatus pid) with
    | none => exact .inl (by simp [he])
    | some exit =>
      refine .inr ⟨child, rfl, ?_⟩
      obtain ⟨status, -, hs⟩ := Option.bind_eq_some_iff.1 he
      cases hk : acc.1.knownPids.get? pid with
      | none => exact .inr ⟨rfl, by simp [he, hk]⟩
      | some name =>
        exact .inl ⟨name, exit, rfl, pid_of_decodeWaitStatus hs, by simp [he, hk]⟩

/-! ## Notifications -/

/-- The service a notification names. -/
def target : ServiceNotification → String
  | .ready serviceName => serviceName
  | .statusUpdate serviceName _ _ => serviceName
  | .stopping serviceName => serviceName

variable (w)

/-- **What a notification does**: nothing, or it replaces the state of the service it names by one
with the same definition and process id, which is not pending unless it was. -/
theorem apply_cases (n : ServiceNotification) : w.apply n = w ∨
      ∃ state state', w.services.get? (target n) = some state ∧
        w.apply n = { w with services := w.services.insert (target n) state' } ∧
        state'.service = state.service ∧ state'.pid = state.pid ∧
        (state'.status = state.status ∨ state'.status ≠ .pending) := by
  cases n with
  | ready serviceName =>
    cases h : w.services.get? serviceName with
    | none => exact .inl (by simp [apply, applyReady, h])
    | some state =>
      exact .inr ⟨state, { state with status := .ready, restartCount := 0 }, h,
        by simp [apply, applyReady, h, target], rfl, rfl, .inr (by simp)⟩
  | stopping serviceName =>
    cases h : w.services.get? serviceName with
    | none => exact .inl (by simp [apply, applyStopping, h])
    | some state =>
      exact .inr ⟨state, { state with status := .stopping }, h,
        by simp [apply, applyStopping, h, target], rfl, rfl, .inr (by simp)⟩
  | statusUpdate serviceName statusText health =>
    cases h : w.services.get? serviceName with
    | none => exact .inl (by simp [apply, applyStatusUpdate, h])
    | some state =>
      by_cases hl : state.lastStatus = some (statusText, health)
      · exact .inl (by simp [apply, applyStatusUpdate, h, if_pos hl])
      · refine .inr ⟨state, _, h, by simp only [apply, applyStatusUpdate, h, if_neg hl]; rfl,
          ?_, ?_, ?_⟩ <;> split_ifs <;> simp

/-- The state after the notifications that are waiting were applied. -/
def notified (w : World) : World :=
  (poll w.inbox).1.foldl apply { w with inbox := (poll w.inbox).2 }

theorem processNotifications_eq : processNotifications w =
      if (poll w.inbox).1 = [] then startReadyServices (notified w)
      else publish (startReadyServices (notified w)) := rfl

/-! ## Loops -/

/-- The names `startReadyServices` spawns. -/
def startable (w : World) : List String :=
  (collectStartable w.services).filter fun name => !RestartQueue.isQueued w.restartQueue name

/-- The names `processPendingRestarts` spawns. -/
def due (w : World) : List String :=
  (RestartQueue.takeDue (w.time 0) (depsReady w.services) w.restartQueue).2

/-- The state in which `processPendingRestarts` spawns them. -/
def dequeued (w : World) : World :=
  { w with
    restartQueue := (RestartQueue.takeDue (w.time 0) (depsReady w.services) w.restartQueue).1
    reads := w.reads + 1 }

end Muak.Granola.World
