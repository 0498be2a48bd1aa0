import Muak.Granola.Supervisor

/-!
# The restart budget

A service whose process ends abnormally, again and again, without ever reporting that it is ready:
`should_restart` and `begin_attempt` of `init/granola/src/supervisor/restart.rs` over all exits.

* `handleServiceExit_get?`: what the supervisor makes of an exit, for the service alone.
* `Budgeted`: a service is given up only after as many restarts as the budget has, none of them
  later than the window after the one before.
* `budgeted_iff`: for which exits this is so. The counter is never set back, so that a late exit
  gives one restart and not a new budget.
-/

namespace Muak.Granola

open List

/-- The state of a service after its process ended, with the readings of the clock. -/
def ServiceState.exited (state : ServiceState) (seenAt attemptAt : Instant)
    (exitCode : Option ℤ) : ServiceState :=
  if RestartQueue.shouldRestart seenAt { state with pid := none } exitCode then
    RestartQueue.beginAttempt attemptAt { state with pid := none }
  else if exitCode = some 0 then { state with pid := none, status := .stopping }
  else RestartQueue.markFailed { state with pid := none }

/-- The supervisor gives a service this state when it handles the exit of its process. -/
theorem handleServiceExit_get? {w : World} {exit : String × ChildExit} {state : ServiceState}
    (h : w.services.get? exit.1 = some state) :
    (w.handleServiceExit exit).services.get? exit.1 =
      some (state.exited (w.time 0) (w.time 1) exit.2.exitCode) := by
  unfold World.handleServiceExit ServiceState.exited
  simp only [h]
  split_ifs <;> exact Dict.get?_insert_self _ _ _

/-- An abnormal exit of a process, and when it was seen and the restart was counted. -/
structure AbnormalExit where
  pid : Pid
  code : Option ℤ
  seenAt : Instant
  attemptAt : Instant
  abnormal : code ≠ some 0

/-- The process is started and ends. A service that was given up has no process. -/
def ServiceState.crash (state : ServiceState) (exit : AbnormalExit) : ServiceState :=
  if state.status = .failed then state
  else { state with pid := some exit.pid, status := .starting }.exited exit.seenAt exit.attemptAt
    exit.code

/-- The state after some exits. -/
def afterExits (service : Service) (exits : List AbnormalExit) : ServiceState :=
  runFrom ServiceState.crash (.new service) exits

/-- An exit comes more than the window after the restart before it. -/
def Late (previous exit : AbnormalExit) : Prop :=
  restartWindow < exit.seenAt - previous.attemptAt

instance decidableLate (previous exit : AbnormalExit) : Decidable (Late previous exit) :=
  inferInstanceAs (Decidable (_ < _))

/-- The exit with number `n` is late. -/
def LateAt (exits : List AbnormalExit) (n : ℕ) : Prop :=
  ∃ previous exit, exits[n - 1]? = some previous ∧ exits[n]? = some exit ∧ Late previous exit

/-- If an exit gets the service given up, then the exits before it were restarted as often as the
budget allows, one soon after the other. -/
def Budgeted (service : Service) (exits : List AbnormalExit) : Prop :=
  ∀ n < exits.length, (afterExits service (exits.take n)).status ≠ .failed →
    (afterExits service (exits.take (n + 1))).status = .failed →
      maxRestartAttempts ≤ n ∧ ∀ i, n < i + maxRestartAttempts → i ≤ n → ¬LateAt exits i

variable {service : Service} {exits : List AbnormalExit} {exit : AbnormalExit}

/-- As long as the service was not given up, every exit was counted. -/
structure Counted (state : ServiceState) (done : List AbnormalExit) : Prop where
  status : state.status = .pending
  count : state.restartCount = min done.length (2 ^ 32 - 1)
  last : state.lastRestart = done.getLast?.map (·.attemptAt)

/-- Whether the next exit gets a service given up. -/
def GivesUp (done : List AbnormalExit) (exit : AbnormalExit) : Prop :=
  maxRestartAttempts ≤ done.length ∧ ∀ previous, done.getLast? = some previous → ¬Late previous exit

variable {state : ServiceState} {done : List AbnormalExit}

theorem Counted.shouldRestart_iff (h : Counted state done) (exit : AbnormalExit) :
    RestartQueue.shouldRestart exit.seenAt { state with pid := none, status := .starting }
      exit.code = true ↔ ¬GivesUp done exit := by
  have hc : state.restartCount < maxRestartAttempts ↔ ¬maxRestartAttempts ≤ done.length := by
    rw [h.count, maxRestartAttempts]
    omega
  simp only [RestartQueue.shouldRestart, reduceCtorEq, if_false, if_neg exit.abnormal, h.last]
  cases hl : done.getLast? with
  | none => simp [GivesUp, hl, hc]
  | some previous =>
    rw [Option.map_some]
    dsimp only
    split_ifs with hla
    · exact ⟨fun _ hg => hg.2 previous hl hla, fun _ => rfl⟩
    · rw [decide_eq_true_iff, hc]
      refine not_congr ⟨fun hle => ⟨hle, fun other ho => ?_⟩, fun hg => hg.1⟩
      obtain rfl := Option.some.inj (hl.symm.trans ho)
      exact hla

theorem Counted.crash_eq (h : Counted state done) (exit : AbnormalExit) :
    state.crash exit = { state with pid := some exit.pid, status := .starting }.exited exit.seenAt
      exit.attemptAt exit.code := by
  rw [ServiceState.crash, if_neg (by rw [h.status]; nofun)]

theorem Counted.crash_of_givesUp (h : Counted state done) (hg : GivesUp done exit) :
    (state.crash exit).status = .failed := by
  have hr := (not_congr (h.shouldRestart_iff exit)).2 (not_not.2 hg)
  rw [h.crash_eq, ServiceState.exited, if_neg hr, if_neg exit.abnormal]
  rfl

theorem Counted.crash (h : Counted state done) (hg : ¬GivesUp done exit) :
    Counted (state.crash exit) (done ++ [exit]) := by
  have hr := (h.shouldRestart_iff exit).2 hg
  rw [h.crash_eq, ServiceState.exited, if_pos hr]
  refine ⟨rfl, ?_, ?_⟩
  · simp only [RestartQueue.beginAttempt, h.count, length_append, length_singleton]
    omega
  · rw [getLast?_concat]
    rfl

theorem crash_of_failed (h : state.status = .failed) (exit : AbnormalExit) :
    state.crash exit = state := if_pos h

/-! ### Over all exits -/

theorem afterExits_concat (done : List AbnormalExit) (exit : AbnormalExit) :
    afterExits service (done ++ [exit]) = (afterExits service done).crash exit := by
  rw [afterExits, runFrom_append]
  rfl

theorem counted_or_failed (service : Service) (done : List AbnormalExit) :
    Counted (afterExits service done) done ∨ (afterExits service done).status = .failed := by
  induction done using reverseRecOn with
  | nil => exact .inl ⟨rfl, rfl, rfl⟩
  | append_singleton done exit ih =>
    rw [afterExits_concat]
    rcases ih with h | h
    · by_cases hg : GivesUp done exit
      · exact .inr (h.crash_of_givesUp hg)
      · exact .inl (h.crash hg)
    · exact .inr (by rw [crash_of_failed h]; exact h)

variable {n : ℕ}

theorem take_succ_of_lt (hn : n < exits.length) : exits.take (n + 1) = exits.take n ++ [exits[n]] :=
  (take_concat_get' exits n hn).symm

theorem givesUp_take_iff (hn : n < exits.length) :
    GivesUp (exits.take n) exits[n] ↔ maxRestartAttempts ≤ n ∧ ¬LateAt exits n := by
  have hlen : (exits.take n).length = n := length_take_of_le hn.le
  rw [GivesUp, hlen]
  refine and_congr_right fun hle => ?_
  have hps : n ≠ 0 := by
    rw [maxRestartAttempts] at hle
    omega
  have hp : exits[n - 1]? = some exits[n - 1] := getElem?_eq_getElem (by omega)
  have hls : (exits.take n).getLast? = exits[n - 1]? := by
    rw [getLast?_take, if_neg hps, hp, Option.some_or]
  rw [hls]
  constructor
  · rintro h ⟨previous, exit, ho, he, hl⟩
    rw [getElem?_eq_getElem hn] at he
    cases he
    exact h previous ho hl
  · intro h previous ho hl
    exact h ⟨previous, exits[n], ho, getElem?_eq_getElem hn, hl⟩

/-- The service has been given up within the first `n` exits. -/
def GivenUp (service : Service) (exits : List AbnormalExit) (n : ℕ) : Prop :=
  (afterExits service (exits.take n)).status = .failed

theorem givenUp_succ_iff (hn : n < exits.length) (h : ¬GivenUp service exits n) :
    GivenUp service exits (n + 1) ↔ maxRestartAttempts ≤ n ∧ ¬LateAt exits n := by
  have hc := (counted_or_failed service (exits.take n)).resolve_right h
  rw [GivenUp, take_succ_of_lt hn, afterExits_concat, ← givesUp_take_iff hn]
  refine ⟨fun hf => ?_, hc.crash_of_givesUp⟩
  by_contra hg
  rw [(hc.crash hg).status] at hf
  cases hf

/-- A service that was given up stays so. -/
theorem GivenUp.mono {m : ℕ} (h : GivenUp service exits n) (hle : n ≤ m) :
    GivenUp service exits m := by
  induction m, hle using Nat.le_induction with
  | base => exact h
  | succ m _ ih =>
    by_cases hm : m < exits.length
    · rw [GivenUp, take_succ_of_lt hm, afterExits_concat, crash_of_failed ih]
      exact ih
    · rw [GivenUp, take_of_length_le (by omega)] at ih ⊢
      exact ih

/-- While all exits beyond the budget are late, the service is not given up. -/
theorem not_givenUp_of_late (hn : n ≤ exits.length)
    (h : ∀ i, maxRestartAttempts ≤ i → i < n → LateAt exits i) : ¬GivenUp service exits n := by
  induction n with
  | zero => exact nofun
  | succ n ih =>
    have hb := ih (by omega) fun i hi hlt => h i hi (by omega)
    rw [givenUp_succ_iff hn hb]
    exact fun ha => ha.2 (h n ha.1 (by omega))

/-- **The restart budget.** It is kept exactly if the first exits come one soon after the other,
until the service is given up, or all exits beyond the budget are late. -/
theorem budgeted_iff (service : Service) (exits : List AbnormalExit) : Budgeted service exits ↔
      (∀ i, 1 ≤ i → i ≤ maxRestartAttempts → ¬LateAt exits i) ∨
        ∀ i, maxRestartAttempts ≤ i → i < exits.length → LateAt exits i := by
  constructor
  · intro h
    by_contra hnei
    push Not at hnei
    obtain ⟨⟨early, hp, hle, her⟩, he⟩ := hnei
    -- the first exit beyond the budget that is not late gets the service given up
    classical
    obtain ⟨hb, hlt, hnt⟩ := Nat.find_spec he
    set n := Nat.find he
    have hbf : ∀ i, maxRestartAttempts ≤ i → i < n → LateAt exits i := fun i hi hin => by
      by_contra hla
      exact Nat.find_min he hin ⟨hi, hin.trans hlt, hla⟩
    have hno : ¬GivenUp service exits n := not_givenUp_of_late hlt.le hbf
    have hr := (h n hlt hno ((givenUp_succ_iff hlt hno).2 ⟨hb, hnt⟩)).2
    rcases Nat.eq_or_lt_of_le hb with heq | hl
    · exact hr early (by omega) (by omega) her
    · exact hr (n - 1) (by rw [maxRestartAttempts]; omega) (by omega)
        (hbf (n - 1) (by omega) (by omega))
  · rintro (hr | hla) n hn hno hg
    · obtain ⟨hb, hnt⟩ := (givenUp_succ_iff hn hno).1 hg
      refine ⟨hb, fun i hi hin => hr i ?_ ?_⟩
      · omega
      · by_contra hby
        have hfr : ¬GivenUp service exits maxRestartAttempts :=
          fun hfr => hno (hfr.mono hb)
        have hf := (givenUp_succ_iff (by omega) hfr).2 ⟨le_rfl, hr _ (by decide) le_rfl⟩
        exact hno (hf.mono (by omega))
    · obtain ⟨hb, hnt⟩ := (givenUp_succ_iff hn hno).1 hg
      exact absurd (hla n hb hn) hnt

/-- Exits at the given seconds, seen and counted at once. -/
def exitsAt (times : List ℕ) : List AbnormalExit :=
  times.map fun t => ⟨1, some 1, seconds t, seconds t, by decide⟩

/-- Five exits in a row, one after more than a minute, and the next one a second later: the service
is given up after a single restart since. -/
theorem budget_not_renewed :
    let exits := exitsAt [0, 1, 2, 3, 4, 100, 101]
    (LateAt exits 5 ∧ (afterExits ⟨"timed", "/bin/timed", []⟩ (exits.take 6)).status = .pending ∧
      (afterExits ⟨"timed", "/bin/timed", []⟩ exits).status = .failed) ∧
    ¬Budgeted ⟨"timed", "/bin/timed", []⟩ exits := by
  intro exits
  have hl : LateAt exits 5 := ⟨_, _, rfl, rfl, by decide⟩
  refine ⟨⟨hl, by decide, by decide⟩, fun h => ?_⟩
  exact (h 6 (by decide) (by decide) (by decide)).2 5 (by decide) (by decide) hl

end Muak.Granola
