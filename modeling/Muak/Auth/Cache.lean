import Muak.Auth.Permission
import Muak.Foundations.Run

/-!
# The authorization state and its cache

`libs/config/src/auth.rs` keeps the state of `auth.toml` in a cache that is valid as long as the
modification time of the file, in whole seconds, is the cached one. The operations that change the
state (`add_user_to_auth` and `revoke_user` of `services/provisiond/src/ipc/auth.rs`) start from the
cached state and replace the file.

* `Coherent`: a cache that counts as valid holds what the file holds.
* `coherent_step_iff`: an operation keeps this exactly when the second of its write differs from
  that of the file it replaces, or nothing changes.
* `no_lost_update`: in a run of such operations none is lost, and the first other one is.
* `revocation_lost`: three operations in one second lose a revocation.

The text format is a parameter (`Codec`). Operations whose I/O fails change nothing and are not part
of a run.
-/

namespace Muak.Auth

open List

/-- An authorized user. -/
structure User where
  fingerprint : String
  permissions : List Permission
  deriving DecidableEq

/-- The authorization state. -/
structure State where
  users : List User
  revoked : List String
  deriving DecidableEq

/-- The state without users. -/
def State.default : State := ⟨[], []⟩

/-- A text format for states: contents of type `κ` that are decoded to what was encoded. -/
structure Codec (κ : Type) where
  encode : State → κ
  decode : κ → Option State
  decode_encode : ∀ s, decode (encode s) = some s

/-- A file, with the time of its last change in nanoseconds. -/
structure File (κ : Type) where
  contents : κ
  modified : ℕ

/-- The cached state, and the modification time it was loaded with, in seconds. -/
structure Cached where
  data : State
  mtime : ℕ

/-- The file and the cache of a process; the cache exists once `init` has run. -/
structure Host (κ : Type) where
  file : Option (File κ)
  cache : Option Cached

/-- Whole seconds of a time. -/
def asSecs (nanoseconds : ℕ) : ℕ := nanoseconds / 1000000000

section

variable {κ : Type} (codec : Codec κ)

/-- The modification time in seconds, or zero without a file. -/
def fileMtime : Option (File κ) → ℕ
  | some file => asSecs file.modified
  | none => 0

/-- The state of the file; a missing file stands for the default. -/
def loadFromPath : Option (File κ) → Option State
  | some file => codec.decode file.contents
  | none => some State.default

/-- The state of the file, where one that cannot be parsed stands for the default as well. -/
def parsed (file : Option (File κ)) : State := (loadFromPath codec file).getD State.default

end

namespace Host

variable {κ : Type} (codec : Codec κ) (host : Host κ)

/-- Fill the cache, unless the file cannot be parsed. -/
def init : Option (Host κ) :=
  (loadFromPath codec host.file).map fun config =>
    { host with cache := some ⟨config, fileMtime host.file⟩ }

/-- The state a caller gets, after the cache was reloaded if its time is not that of the file. -/
def tryCurrent : Host κ × Option State :=
  match host.cache with
  | none => (host, none)
  | some cache =>
    if fileMtime host.file ≠ cache.mtime then
      ({ host with cache := some ⟨parsed codec host.file, fileMtime host.file⟩ },
        some (parsed codec host.file))
    else (host, some cache.data)

/-- Replace the file. -/
def writeAtomic (contents : κ) (now : ℕ) : Host κ :=
  { host with file := some ⟨contents, now⟩ }

/-- Add a user at the time `now`. -/
def addUserToAuth (fingerprint : String) (permissions : List Permission) (now : ℕ) : Host κ :=
  let (host, current) := host.tryCurrent codec
  let auth := current.getD State.default
  let auth := { auth with users := auth.users ++ [⟨fingerprint, permissions⟩] }
  host.writeAtomic (codec.encode auth) now

/-- Revoke a user at the time `now`. -/
def revokeUser (fingerprint : String) (now : ℕ) : Host κ :=
  let (host, current) := host.tryCurrent codec
  let auth := current.getD State.default
  let auth := { auth with users := auth.users.filter (·.fingerprint ≠ fingerprint) }
  let auth :=
    if fingerprint ∈ auth.revoked then auth
    else { auth with revoked := auth.revoked ++ [fingerprint] }
  host.writeAtomic (codec.encode auth) now

end Host

/-! ## Operations -/

/-- An operation on the state. -/
inductive Op
  | add (fingerprint : String) (permissions : List Permission)
  | revoke (fingerprint : String)
  deriving DecidableEq

/-- What an operation is to do to the state. -/
def Op.apply (state : State) : Op → State
  | .add fingerprint permissions =>
    { state with users := state.users ++ [⟨fingerprint, permissions⟩] }
  | .revoke fingerprint =>
    { users := state.users.filter (·.fingerprint ≠ fingerprint)
      revoked :=
        if fingerprint ∈ state.revoked then state.revoked else state.revoked ++ [fingerprint] }

/-- An operation, and the time of its write. -/
structure Timed where
  op : Op
  now : ℕ

/-- The code of an operation. -/
def Timed.step {κ : Type} (codec : Codec κ) (host : Host κ) (timed : Timed) : Host κ :=
  match timed.op with
  | .add fingerprint permissions => host.addUserToAuth codec fingerprint permissions timed.now
  | .revoke fingerprint => host.revokeUser codec fingerprint timed.now

section

variable {κ : Type} {codec : Codec κ} {host : Host κ}

/-- The state an operation starts from. -/
def Host.view (codec : Codec κ) (host : Host κ) : State :=
  (host.tryCurrent codec).2.getD State.default

variable (timed : Timed)

/-- **What the code of an operation does**: it writes what it makes of the state it sees. -/
theorem step_eq : timed.step codec host = (host.tryCurrent codec).1.writeAtomic
      (codec.encode (timed.op.apply (host.view codec))) timed.now := by
  obtain ⟨op, now⟩ := timed
  cases op with
  | add fingerprint permissions => rfl
  | revoke fingerprint =>
    by_cases h : fingerprint ∈ ((host.tryCurrent codec).2.getD State.default).revoked
    · simp [Timed.step, Host.revokeUser, Op.apply, Host.view, h]
    · simp [Timed.step, Host.revokeUser, Op.apply, Host.view, h]

theorem parsed_step :
    parsed codec (timed.step codec host).file = timed.op.apply (host.view codec) := by
  rw [step_eq]
  simp [parsed, loadFromPath, Host.writeAtomic, codec.decode_encode]

/-! ## Coherence -/

/-- A cache whose time is that of the file holds what the file holds. -/
def Coherent (codec : Codec κ) (host : Host κ) : Prop :=
  ∃ cache, host.cache = some cache ∧
    (cache.mtime = fileMtime host.file → cache.data = parsed codec host.file)

/-- The second of the write differs from that of the file it replaces, or nothing changes. -/
def Fresh (codec : Codec κ) (host : Host κ) (timed : Timed) : Prop :=
  asSecs timed.now ≠ fileMtime host.file ∨
    timed.op.apply (parsed codec host.file) = parsed codec host.file

theorem coherent_init {started : Host κ} (h : host.init codec = some started) :
    Coherent codec started ∧ started.file = host.file := by
  obtain ⟨config, hc, rfl⟩ := Option.map_eq_some_iff.1 h
  have hp : parsed codec host.file = config := by simp [parsed, hc]
  exact ⟨⟨_, rfl, fun _ => hp.symm⟩, rfl⟩

/-- A coherent cache is up to date once it has been asked for. -/
theorem tryCurrent_of_coherent (h : Coherent codec host) : host.tryCurrent codec =
      ({ host with cache := some ⟨parsed codec host.file, fileMtime host.file⟩ },
        some (parsed codec host.file)) := by
  obtain ⟨file, cache⟩ := host
  obtain ⟨⟨data, mtime⟩, rfl, hv⟩ := h
  simp only [Host.tryCurrent]
  split_ifs with hm
  · rfl
  · have hm : mtime = fileMtime file := (not_not.1 hm).symm
    have hd : data = parsed codec file := hv hm
    rw [hd, hm]

theorem view_of_coherent (h : Coherent codec host) : host.view codec = parsed codec host.file := by
  rw [Host.view, tryCurrent_of_coherent h]
  rfl

/-- One operation on a coherent cache is not lost. -/
theorem parsed_step_of_coherent (h : Coherent codec host) (timed : Timed) :
    parsed codec (timed.step codec host).file = timed.op.apply (parsed codec host.file) := by
  rw [parsed_step, view_of_coherent h]

/-- An operation on a coherent cache leaves what was cached when it started. -/
theorem cache_step_of_coherent (h : Coherent codec host) (timed : Timed) :
    (timed.step codec host).cache = some ⟨parsed codec host.file, fileMtime host.file⟩ := by
  rw [step_eq, tryCurrent_of_coherent h]
  rfl

theorem fileMtime_step : fileMtime (timed.step codec host).file = asSecs timed.now := by
  rw [step_eq]
  rfl

/-- **When an operation keeps the cache coherent.** -/
theorem coherent_step_iff (h : Coherent codec host) (timed : Timed) :
    Coherent codec (timed.step codec host) ↔ Fresh codec host timed := by
  simp only [Coherent, cache_step_of_coherent h, Option.some.injEq, exists_eq_left',
    parsed_step_of_coherent h, fileMtime_step, Fresh]
  rw [Classical.or_iff_not_imp_left, not_not]
  exact ⟨fun h heq => (h heq.symm).symm, fun h heq => (h heq.symm).symm⟩

variable {timed}

/-- An operation that is not fresh is lost with the next one, which takes the cache for valid. -/
theorem parsed_next_of_not_fresh (h : Coherent codec host) (hf : ¬ Fresh codec host timed)
    (next : Timed) : parsed codec (next.step codec (timed.step codec host)).file =
      next.op.apply (parsed codec host.file) := by
  have hm : asSecs timed.now = fileMtime host.file := by
    by_contra hne
    exact hf (.inl hne)
  have hv : (timed.step codec host).view codec = parsed codec host.file := by
    simp [Host.view, Host.tryCurrent, cache_step_of_coherent h, fileMtime_step, hm]
  rw [parsed_step, hv]

variable {timed : List Timed}

theorem coherent_run (h : Coherent codec host)
    (hf : Along (Timed.step codec) (Fresh codec) host timed) :
    Coherent codec (runFrom (Timed.step codec) host timed) :=
  runFrom_invariant (Coherent codec) (fun _ op h hop => (coherent_step_iff h op).2 hop) h hf

/-- In a run of fresh operations the file holds what the operations make of its first state. -/
theorem parsed_run (h : Coherent codec host)
    (hf : Along (Timed.step codec) (Fresh codec) host timed) :
    parsed codec (runFrom (Timed.step codec) host timed).file =
      (timed.map Timed.op).foldl Op.apply (parsed codec host.file) := by
  induction timed generalizing host with
  | nil => rfl
  | cons op timed ih =>
    obtain ⟨hop, hrest⟩ := hf
    rw [runFrom_cons, ih ((coherent_step_iff h op).2 hop) hrest, parsed_step_of_coherent h,
      map_cons, foldl_cons]

/-- `P` holds of every state that an operation may start from. -/
def Host.Every (codec : Codec κ) (P : State → Prop) (host : Host κ) : Prop :=
  P (parsed codec host.file) ∧ ∀ cache, host.cache = some cache → P cache.data

variable {P : State → Prop}

theorem Host.Every.tryCurrent (h : host.Every codec P) :
    (host.tryCurrent codec).1.Every codec P := by
  unfold Host.tryCurrent
  split
  · exact h
  · split_ifs
    · refine ⟨h.1, fun cache hc => ?_⟩
      cases hc
      exact h.1
    · exact h

theorem Host.Every.view (h : host.Every codec P) (hd : P State.default) : P (host.view codec) := by
  unfold Host.view Host.tryCurrent
  split
  · exact hd
  · split_ifs
    · exact h.1
    · exact h.2 _ ‹_›

/-- An operation keeps what it keeps of the state it starts from. -/
theorem Host.Every.step (h : host.Every codec P) {timed : Timed}
    (hop : P (timed.op.apply (host.view codec))) : (timed.step codec host).Every codec P := by
  refine ⟨?_, ?_⟩
  · rw [parsed_step]
    exact hop
  · rw [step_eq]
    exact h.tryCurrent.2

end

/-! ## What a sequence of operations is to leave -/

section

variable {state : State} {fingerprint : String}

theorem mem_revoked_apply (h : fingerprint ∈ state.revoked) (op : Op) :
    fingerprint ∈ (op.apply state).revoked := by
  cases op with
  | add => exact h
  | revoke other =>
    simp only [Op.apply]
    split_ifs
    · exact h
    · exact mem_append_left _ h

variable {ops : List Op}

theorem mem_revoked_foldl (h : fingerprint ∈ state.revoked) :
    fingerprint ∈ (ops.foldl Op.apply state).revoked :=
  runFrom_invariant_always (fun s : State => fingerprint ∈ s.revoked)
    (fun _ op h => mem_revoked_apply h op) h ops

/-- What is revoked is in the list of revoked fingerprints and has no user. -/
theorem apply_revoke (state : State) (fingerprint : String) :
    fingerprint ∈ ((Op.revoke fingerprint).apply state).revoked ∧
      ∀ u ∈ ((Op.revoke fingerprint).apply state).users, u.fingerprint ≠ fingerprint := by
  refine ⟨?_, fun u hu => by simpa using (mem_filter.1 hu).2⟩
  simp only [Op.apply]
  split_ifs with h
  · exact h
  · exact mem_append_right _ (mem_singleton.2 rfl)

/-- A user without an entry gets none, as long as none is added. -/
theorem forall_users_foldl (hops : ∀ permissions, .add fingerprint permissions ∉ ops)
    (h : ∀ u ∈ state.users, u.fingerprint ≠ fingerprint) :
    ∀ u ∈ (ops.foldl Op.apply state).users, u.fingerprint ≠ fingerprint := by
  refine runFrom_invariant_mem
    (fun s : State => ∀ u ∈ s.users, u.fingerprint ≠ fingerprint) (fun op hop s hs u hu => ?_) h
  cases op with
  | add other permissions =>
    rcases mem_append.1 hu with hu | hu
    · exact hs u hu
    · rw [mem_singleton.1 hu]
      exact fun heq => hops permissions (heq ▸ hop)
  | revoke other => exact hs u (mem_of_mem_filter hu)

/-- An entry stays, as long as its fingerprint is not revoked. -/
theorem mem_users_foldl {u : User} (hops : .revoke u.fingerprint ∉ ops) (h : u ∈ state.users) :
    u ∈ (ops.foldl Op.apply state).users := by
  refine runFrom_invariant_mem (fun s : State => u ∈ s.users) (fun op hop s hs => ?_) h
  cases op with
  | add other permissions => exact mem_append_left _ hs
  | revoke other =>
    have hne : u.fingerprint ≠ other := by
      rintro rfl
      exact hops hop
    exact mem_filter.2 ⟨hs, decide_eq_true hne⟩

end

/-- The operations are all in the state: what was revoked is listed as such and, unless it was added
again later, has no user; what was added and not revoked later is a user with its permissions. -/
structure Reflects (state : State) (ops : List Op) : Prop where
  revoked : ∀ fingerprint, .revoke fingerprint ∈ ops → fingerprint ∈ state.revoked
  removed : ∀ before after fingerprint, ops = before ++ .revoke fingerprint :: after →
    (∀ permissions, .add fingerprint permissions ∉ after) →
    ∀ u ∈ state.users, u.fingerprint ≠ fingerprint
  added : ∀ before after fingerprint permissions,
    ops = before ++ .add fingerprint permissions :: after → .revoke fingerprint ∉ after →
    ⟨fingerprint, permissions⟩ ∈ state.users

theorem reflects_foldl (state : State) (ops : List Op) :
    Reflects (ops.foldl Op.apply state) ops where
  revoked := by
    intro fingerprint hm
    obtain ⟨before, after, rfl⟩ := append_of_mem hm
    rw [foldl_append, foldl_cons]
    exact mem_revoked_foldl (apply_revoke _ fingerprint).1
  removed := by
    rintro before after fingerprint rfl ha
    rw [foldl_append, foldl_cons]
    exact forall_users_foldl ha (apply_revoke _ fingerprint).2
  added := by
    rintro before after fingerprint permissions rfl ha
    rw [foldl_append, foldl_cons]
    exact mem_users_foldl ha (mem_append_right _ (mem_singleton.2 rfl))

/-- **No lost update.** After `init`, in every run whose operations are fresh, the file holds what
the operations make of its first state, and reflects them all. The first operation that is not fresh
is lost with the next one, whatever its time. -/
theorem no_lost_update {κ : Type} (codec : Codec κ) {host started : Host κ}
    (h : host.init codec = some started) :
    (∀ timed, Along (Timed.step codec) (Fresh codec) started timed →
      parsed codec (runFrom (Timed.step codec) started timed).file =
          (timed.map Timed.op).foldl Op.apply (parsed codec host.file) ∧
        Reflects (parsed codec (runFrom (Timed.step codec) started timed).file)
          (timed.map Timed.op)) ∧
    ∀ timed stale next, Along (Timed.step codec) (Fresh codec) started timed →
      ¬ Fresh codec (runFrom (Timed.step codec) started timed) stale →
      parsed codec (runFrom (Timed.step codec) started (timed ++ [stale, next])).file =
        next.op.apply ((timed.map Timed.op).foldl Op.apply (parsed codec host.file)) := by
  obtain ⟨hc, hfl⟩ := coherent_init h
  refine ⟨fun timed hf => ?_, fun timed stale next hf hs => ?_⟩
  · rw [parsed_run hc hf, hfl]
    exact ⟨rfl, reflects_foldl _ _⟩
  · rw [runFrom_append, runFrom_cons, runFrom_cons, runFrom_nil,
      parsed_next_of_not_fresh (coherent_run hc hf) hs,
      parsed_run hc hf, hfl]

/-- A format whose contents are the states themselves. -/
def plain : Codec State := ⟨id, some, fun _ => rfl⟩

/-- The process after `init` on a system without a file. -/
def blankHost : Host State := ⟨none, some ⟨State.default, 0⟩⟩

/-- Three operations, each in a second of its own. -/
theorem no_lost_update_spaced :
    let timed : List Timed := [⟨.add "a" [.admin], 10000000000⟩, ⟨.revoke "a", 11000000000⟩,
      ⟨.add "c" [.vmRead], 12000000000⟩]
    Host.init plain ⟨none, none⟩ = some blankHost ∧
      parsed plain (runFrom (Timed.step plain) blankHost timed).file = ⟨[⟨"c", [.vmRead]⟩], ["a"]⟩ ∧
      Reflects (parsed plain (runFrom (Timed.step plain) blankHost timed).file)
        (timed.map Timed.op) := by
  have h : Host.init plain ⟨none, none⟩ = some blankHost := rfl
  refine ⟨h, by decide, ((no_lost_update plain h).1 _ ?_).2⟩
  exact ⟨.inl (by decide), .inl (by decide), .inl (by decide), trivial⟩

/-- **A lost revocation**: of three operations in the same second the second one is lost. The cache
is loaded after the first write, with the time that the second write has as well. -/
theorem revocation_lost :
    parsed plain (runFrom (Timed.step plain) blankHost [⟨.add "a" [.admin], 10100000000⟩,
      ⟨.revoke "a", 10200000000⟩, ⟨.add "c" [.vmRead], 10300000000⟩]).file =
    ⟨[⟨"a", [.admin]⟩, ⟨"c", [.vmRead]⟩], []⟩ := by decide

end Muak.Auth
