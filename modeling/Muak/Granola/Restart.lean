import Mathlib.Algebra.Group.Nat.Defs
import Muak.Granola.Service

/-!
# The restart queue

The restart policy and the queue of scheduled restarts of
`init/granola/src/supervisor/restart.rs`. The source reads the clock at each `Instant::now()`;
here every reading is an argument, so that nothing is assumed about how far apart they are.
Instants are unbounded, so the fallbacks for an overflowing `checked_add` do not occur.
-/

namespace Muak.Granola

open List

def restartDelay : ℕ := seconds 1
def maxRestartAttempts : ℕ := 5
def restartWindow : ℕ := seconds 60

/-- Delay applied when a restart is due but its dependencies are not ready. -/
def rescheduleDelay : ℕ := seconds 1

/-- A pending restart with its scheduled time. -/
structure PendingRestart where
  name : String
  dueAt : Instant
  deriving DecidableEq

/-- The scheduled restarts, oldest first. -/
abbrev RestartQueue := List PendingRestart

namespace RestartQueue

/-- The names of the services with a scheduled restart. -/
def names (queue : RestartQueue) : List String := queue.map PendingRestart.name

section

variable (now attemptAt queueAt : Instant) (queue : RestartQueue) (state : ServiceState)
  (depsReady : String → Bool)

/-- Whether a service is to be restarted after an exit, seen at time `now`. -/
def shouldRestart (exitCode : Option ℤ) : Bool :=
  if state.status = .stopping then false
  else if exitCode = some 0 then false
  else
    match state.lastRestart with
    | some last =>
      if restartWindow < now - last then true else decide (state.restartCount < maxRestartAttempts)
    | none => decide (state.restartCount < maxRestartAttempts)

/-- Increment the attempt counter (a saturating `u32`) and return the service to `pending`. -/
def beginAttempt : ServiceState :=
  { state with
    status := .pending
    restartCount := min (state.restartCount + 1) (2 ^ 32 - 1)
    lastRestart := some now }

/-- Queue a restart of the named service, due after the restart delay. -/
def enqueue (name : String) : RestartQueue :=
  queue ++ [{ name, dueAt := now + restartDelay }]

/-- Drop every pending restart of the named service. -/
def cancel (name : String) : RestartQueue :=
  queue.filter (·.name ≠ name)

/-- Whether the service has a restart scheduled. -/
def isQueued (name : String) : Bool := queue.any (·.name = name)

/-- Mark a service as permanently failed. -/
def markFailed : ServiceState := { state with status := .failed }

/-- Schedule a restart. The clock is read in `beginAttempt` and again in `enqueue`. -/
def schedule (state : ServiceState) : RestartQueue × ServiceState :=
  (enqueue queueAt queue state.service.name, beginAttempt attemptAt state)

/-- Count a failed spawn; queue a retry, or mark the service failed once the attempts are used
up. -/
def recordSpawnFailure (state : ServiceState) : RestartQueue × ServiceState :=
  let state := beginAttempt attemptAt state
  if maxRestartAttempts ≤ state.restartCount then
    (cancel queue state.service.name, markFailed state)
  else (enqueue queueAt queue state.service.name, state)

/-- Either queue a pending restart again or collect it as ready to run. -/
def resolvePending (acc : RestartQueue × List String) (restart : PendingRestart) :
    RestartQueue × List String :=
  if now < restart.dueAt then (acc.1 ++ [restart], acc.2)
  else if !depsReady restart.name then
    (acc.1 ++ [{ name := restart.name, dueAt := now + rescheduleDelay }], acc.2)
  else (acc.1, acc.2 ++ [restart.name])

/-- Take the restarts whose delay has elapsed and whose dependencies are ready: what stays
queued, and the names taken. -/
def takeDue (queue : RestartQueue) : RestartQueue × List String :=
  queue.foldl (resolvePending now depsReady) ([], [])

end

/-! ## What the operations do to the queued names -/

variable (now : Instant) (queue : RestartQueue) (name : String)

@[simp] theorem names_enqueue : names (enqueue now queue name) = names queue ++ [name] := by
  simp [enqueue, names]

theorem names_cancel : names (cancel queue name) = (names queue).filter (· ≠ name) := by
  simp [names, cancel, filter_map, Function.comp_def]

variable {queue name}

theorem isQueued_iff : isQueued queue name = true ↔ name ∈ names queue := by
  simp [isQueued, names]

variable (depsReady : String → Bool)

/-- What one entry does to the accumulated names: it joins exactly one of the two lists. -/
theorem resolvePending_cases (acc : RestartQueue × List String) (restart : PendingRestart) :
    (names (resolvePending now depsReady acc restart).1 = names acc.1 ++ [restart.name] ∧
        (resolvePending now depsReady acc restart).2 = acc.2) ∨
      ((resolvePending now depsReady acc restart).1 = acc.1 ∧ depsReady restart.name = true ∧
        (resolvePending now depsReady acc restart).2 = acc.2 ++ [restart.name]) := by
  unfold resolvePending
  split
  · exact .inl ⟨by simp [names], rfl⟩
  · split
    · exact .inl ⟨by simp [names], rfl⟩
    · next h => exact .inr ⟨rfl, by simpa using h, rfl⟩

theorem resolvePending_foldl (queue : RestartQueue) (acc : RestartQueue × List String) :
    (names (queue.foldl (resolvePending now depsReady) acc).1 ++
        (queue.foldl (resolvePending now depsReady) acc).2).Perm
      (names acc.1 ++ acc.2 ++ names queue) := by
  induction queue generalizing acc with
  | nil => simp [names]
  | cons r queue ih =>
    refine (ih (resolvePending now depsReady acc r)).trans ?_
    rcases resolvePending_cases now depsReady acc r with ⟨h₁, h₂⟩ | ⟨h₁, -, h₂⟩
    · rw [h₁, h₂]
      simp only [append_assoc, singleton_append]
      exact List.Perm.append_left _ perm_middle.symm
    · rw [h₁, h₂]
      simp [names]

/-- **`takeDue` splits the queue**: the names that stay queued and the names taken are, together,
the names that were queued. -/
theorem takeDue_perm (queue : RestartQueue) :
    (names (takeDue now depsReady queue).1 ++ (takeDue now depsReady queue).2).Perm
      (names queue) := by
  have h := resolvePending_foldl now depsReady queue ([], [])
  simpa [takeDue, names] using h

variable {depsReady}

/-- Only restarts whose dependencies are ready are taken. -/
theorem depsReady_of_mem_takeDue {now : Instant} (h : name ∈ (takeDue now depsReady queue).2) :
    depsReady name = true := by
  suffices H : ∀ acc : RestartQueue × List String, (∀ n ∈ acc.2, depsReady n = true) →
      ∀ n ∈ (queue.foldl (resolvePending now depsReady) acc).2, depsReady n = true from
    H ([], []) (by simp) name h
  clear h
  induction queue with
  | nil => exact fun acc ha => ha
  | cons r queue ih =>
    intro acc ha
    refine ih _ fun n hn => ?_
    rcases resolvePending_cases now depsReady acc r with ⟨-, h₂⟩ | ⟨-, hr, h₂⟩
    · exact ha n (h₂ ▸ hn)
    · rw [h₂, mem_append, mem_singleton] at hn
      rcases hn with hn | rfl
      exacts [ha n hn, hr]

/-! ## What the operations do to a service -/

variable (state : ServiceState)

@[simp] theorem beginAttempt_service : (beginAttempt now state).service = state.service := rfl

@[simp] theorem beginAttempt_pid : (beginAttempt now state).pid = state.pid := rfl

@[simp] theorem beginAttempt_status : (beginAttempt now state).status = .pending := rfl

theorem recordSpawnFailure_cases (attemptAt queueAt : Instant) (queue : RestartQueue)
    (state : ServiceState) :
    (recordSpawnFailure attemptAt queueAt queue state = (cancel queue state.service.name,
        markFailed (beginAttempt attemptAt state))) ∨
      (recordSpawnFailure attemptAt queueAt queue state =
        (enqueue queueAt queue state.service.name, beginAttempt attemptAt state)) := by
  by_cases h : maxRestartAttempts ≤ (beginAttempt attemptAt state).restartCount
  · exact .inl (if_pos h)
  · exact .inr (if_neg h)

end RestartQueue

end Muak.Granola
