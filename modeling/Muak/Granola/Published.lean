import Mathlib.Data.String.Basic
import Muak.Granola.Handlers

/-!
# The status channel is current

Publication is spread over the handlers and skipped where nothing was received. The invariant is
that the stored snapshot is the one `publish` would store (`Current`); a handler that changes a
service ends in `publish` or passes the changed state to one that does.

* `current_step`: every event keeps the status channel current.
* `published_run`: after every iteration of the event loop the status channel holds the reports of
  the services in the order of their names.
-/

namespace Muak.Granola.World

/-- The stored snapshot is the one of the current services. -/
def Current (w : World) : Prop := w.status = snapshotOf w.services

variable {w : World}

theorem current_publish (w : World) : Current (publish w) := by
  rw [publish_eq]
  rfl

/-! ## The handlers -/

theorem current_spawnOrLog (w : World) (name : String) : Current (w.spawnOrLog name) := by
  cases h : w.services.get? name with
  | none => rw [spawnOrLog_of_none h]; exact current_publish w
  | some state =>
    rcases spawnOrLog_cases h with ⟨pid, -, heq⟩ | heq <;> rw [heq] <;> exact current_publish _

theorem Current.foldl_spawnOrLog (h : Current w) (names : List String) :
    Current (names.foldl spawnOrLog w) :=
  runFrom_invariant_always Current (fun w name _ => current_spawnOrLog w name) h names

theorem Current.processNotifications (h : Current w) : Current (processNotifications w) := by
  rw [processNotifications_eq]
  split_ifs with hn
  · -- nothing was received, so the services are those of `w`
    refine Current.foldl_spawnOrLog ?_ _
    rw [notified, hn]
    exact h
  · exact current_publish _

theorem Current.processPendingRestarts (h : Current w) : Current (processPendingRestarts w) :=
  Current.foldl_spawnOrLog (w := dequeued w) h (due w)

/-- Reaping changes neither the services nor the status channel. -/
theorem Current.reapAll (h : Current w) (pids : List Pid) : Current (reapAll w pids).1 := by
  refine runFrom_invariant_always (fun acc : World × List (String × ChildExit) => Current acc.1)
    (fun acc pid ha => ?_) h pids
  rcases reapChild_cases acc pid with heq | ⟨c, -, ⟨name, exit, -, -, heq⟩ | ⟨-, heq⟩⟩ <;>
    rw [heq] <;> exact ha

/-- **Every event keeps the status channel current.** -/
theorem current_step (h : Current w) (event : Event) : Current (w.step event) := by
  cases event with
  | exits pids => exact current_publish _
  | sweep pids =>
    simp only [step]
    split_ifs
    · exact h.reapAll pids
    · exact current_publish _
  | tick => exact h.processNotifications.processPendingRestarts
  | signal => exact h
  | terminate pid status =>
    simp only [step]
    split
    · exact h
    · exact h
  | adopt pid =>
    simp only [step]
    split_ifs
    · exact h
    · exact h
  | send datagram =>
    simp only [step]
    split_ifs
    · exact h
    · exact h

/-! ## The sorted view -/

/-- `snapshot` lists the reports of the services in the order of their names. -/
structure IsSortedView (snapshot : Snapshot) (services : Dict String ServiceState) : Prop where
  perm : snapshot.Perm (services.entries.map fun e => ⟨e.1, e.2.status, e.2.restartCount⟩)
  sorted : snapshot.Pairwise fun left right => left.name < right.name

instance : Std.Total fun left right : View => left.name ≤ right.name :=
  ⟨fun left right => le_total left.name right.name⟩

instance : IsTrans View fun left right => left.name ≤ right.name :=
  ⟨fun _ _ _ => le_trans⟩

theorem isSortedView_snapshotOf (services : Dict String ServiceState) :
    IsSortedView (snapshotOf services) services where
  perm := List.perm_insertionSort _ _
  sorted := by
    have hnm : (views services).Pairwise fun left right => left.name ≠ right.name := by
      have hn := services.nodup
      rw [List.Nodup, List.pairwise_map] at hn
      exact List.pairwise_map.2 hn
    have hne := (List.perm_insertionSort (fun left right : View => left.name ≤ right.name)
      (views services)).symm.pairwise hnm Ne.symm
    exact ((List.pairwise_insertionSort _ _).and hne).imp fun h => lt_of_le_of_ne h.1 h.2

/-- **The status channel is current** after the start of the event loop and after every iteration
of it, whatever happened before. -/
theorem published_run (serviceDefs : List Service) (clock : ℕ → Instant)
    (answers : ℕ → SpawnAnswer) (events : List Event) :
    IsSortedView (run (withBackends serviceDefs clock answers) events).status
      (run (withBackends serviceDefs clock answers) events).services := by
  have hc : Current (run (withBackends serviceDefs clock answers) events) :=
    runFrom_invariant_always Current (fun _ event h => current_step h event) (current_publish _)
      events
  rw [hc]
  exact isSortedView_snapshotOf _

end Muak.Granola.World
