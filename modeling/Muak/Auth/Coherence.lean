import Muak.Auth.Access
import Mathlib.Logic.Function.Basic

/-!
# The cache under concurrent calls and writes

`Auth.Cache` runs `try_current` as one step. Here every access of it to the file and to the cache is
a step of its own, so that any number of calls run at the same time as each other, as `init` and as
writes of the file: a call takes the modification time of the file, compares it with the cached one,
and if they differ loads the file, takes the time again, stores both, and at last reads the cache.

* `Sound`: the invariant. What is on its way into the cache is what the file holds.
* `Orderly`: the condition on a step that keeps it. A write does not come between the load and the
  store of a call, nor in the second of the cached time, and a file that exists can be read.
* `cache_coherent`: in a run of such steps every call returns what the file held during the call,
  and any other step can be followed by a call that does not.
* `revoked_certificate_accepted`: two writes in one second.

Replacing the file is one step, because `write_atomic` renames a complete file. The lock around the
state makes the store of the state and its time one step as well.
-/

namespace Muak.Auth

open List Option

/-- Where a call of `try_current` is. -/
inductive Phase
  | statted (mtime : ℕ)
  | missed
  | loaded (config : State)
  | sampled (cached : Cached)
  | reading

/-- A call, with all states that the file held since the call began. -/
structure Call where
  phase : Phase
  seen : List State

/-- What a call returned, with what the file held during the call. -/
structure Returned where
  state : State
  seen : List State
  deriving DecidableEq

/-- Where `init` is. -/
inductive Starting
  | waiting
  | loaded (config : State)
  | sampled (cached : Cached)
  | finished

/-- The file, the cache of a process, and its calls; `returned` is a log. -/
structure World (κ : Type) extends Host κ where
  starting : Starting
  calls : ℕ → Option Call
  returned : List Returned

/-- A step of the system: the next access of `init` or of a caller, or a write of the file. A caller
may fail to read a file that exists. -/
inductive Label (κ : Type)
  | init
  | call (caller : ℕ) (readable : Bool)
  | write (contents : κ) (now : ℕ)

namespace World

variable {κ : Type} (codec : Codec κ) (w : World κ)

/-- A process that has just been started. -/
def boot (file : Option (File κ)) : World κ := ⟨⟨file, none⟩, .waiting, fun _ => none, []⟩

/-- The next access of `init`. A file that cannot be parsed ends it without a cache. -/
def initStep : World κ :=
  match w.starting with
  | .waiting =>
    match w.file with
    | none => { w with starting := .sampled ⟨State.default, 0⟩ }
    | some file =>
      match codec.decode file.contents with
      | some config => { w with starting := .loaded config }
      | none => { w with starting := .finished }
  | .loaded config => { w with starting := .sampled ⟨config, fileMtime w.file⟩ }
  | .sampled cached => { w with cache := some cached, starting := .finished }
  | .finished => w

def setCall (caller : ℕ) (call : Option Call) : World κ :=
  { w with calls := Function.update w.calls caller call }

/-- The next access of a call that has begun. -/
def advance (cache : Cached) (caller : ℕ) (readable : Bool) (seen : List State) : Phase → World κ
  | .statted mtime =>
    w.setCall caller (some ⟨if mtime ≠ cache.mtime then .missed else .reading, seen⟩)
  | .missed =>
    -- a file that cannot be read stands for the default, like one that cannot be parsed
    let config := if readable then parsed codec w.file else State.default
    w.setCall caller (some ⟨.loaded config, seen⟩)
  | .loaded config => w.setCall caller (some ⟨.sampled ⟨config, fileMtime w.file⟩, seen⟩)
  | .sampled cached => { w.setCall caller (some ⟨.reading, seen⟩) with cache := some cached }
  | .reading => { w.setCall caller none with returned := w.returned ++ [⟨cache.data, seen⟩] }

/-- The next access of a caller, which begins a call if it has none. Before `init` there is no state
to return. -/
def callStep (caller : ℕ) (readable : Bool) : World κ :=
  match w.cache with
  | none => w
  | some cache =>
    match w.calls caller with
    | none => w.setCall caller (some ⟨.statted (fileMtime w.file), [parsed codec w.file]⟩)
    | some call => w.advance codec cache caller readable call.seen call.phase

/-- Replace the file; the calls under way see its new state as well. -/
def write (contents : κ) (now : ℕ) : World κ :=
  let file : Option (File κ) := some ⟨contents, now⟩
  { w with
    file := file
    calls := fun caller =>
      (w.calls caller).map fun call => ⟨call.phase, call.seen ++ [parsed codec file]⟩ }

/-- One step of one of the parties. -/
def step : Label κ → World κ
  | .init => w.initStep codec
  | .call caller readable => w.callStep codec caller readable
  | .write contents now => w.write codec contents now

end World

/-! ## The invariant -/

section

variable {κ : Type} (codec : Codec κ) (file : Option (File κ))

/-- A cached state that counts as valid is that of the file. -/
def Cached.Valid (cached : Cached) : Prop :=
  cached.mtime = fileMtime file → cached.data = parsed codec file

/-- What `init` is about to store. -/
def Starting.Agrees : Starting → Prop
  | .loaded config => config = parsed codec file
  | .sampled cached => cached.Valid codec file
  | _ => True

/-- What a call is about to store. Its time does not matter: another call, which has already found
the cache to be valid, may read it. -/
def Phase.Agrees : Phase → Prop
  | .loaded config => config = parsed codec file
  | .sampled cached => cached.data = parsed codec file
  | _ => True

/-- Whatever is cached, or on its way into the cache, is valid for the file. -/
structure World.Agrees (w : World κ) (file : Option (File κ)) : Prop where
  cache : ∀ cache, w.cache = some cache → cache.Valid codec file
  starting : w.starting.Agrees codec file
  calls : ∀ caller call, w.calls caller = some call → call.phase.Agrees codec file

/-- What a call is about to return, if it is to read the cache next, was in the file. -/
def Call.Sees (cache : Cached) (call : Call) : Prop :=
  match call.phase with
  | .statted mtime => mtime = cache.mtime → cache.data ∈ call.seen
  | .reading => cache.data ∈ call.seen
  | _ => True

/-- What holds in every state of a run. -/
structure World.Sound (w : World κ) : Prop where
  agrees : w.Agrees codec w.file
  sees : ∀ caller call, w.calls caller = some call → ∃ cache, w.cache = some cache ∧ call.Sees cache
  current : ∀ caller call, w.calls caller = some call → parsed codec w.file ∈ call.seen
  returned : ∀ r ∈ w.returned, r.state ∈ r.seen
  once : w.cache = none ∨ w.starting = .finished
  idle : ∃ bound, ∀ caller ≥ bound, w.calls caller = none

/-- The steps that keep the invariant. -/
def World.Orderly (w : World κ) : Label κ → Prop
  | .init => True
  | .call caller readable =>
    (∃ seen, w.calls caller = some ⟨.missed, seen⟩) → readable = true ∨
      parsed codec w.file = State.default
  | .write contents now => w.Agrees codec (some ⟨contents, now⟩)

end

namespace World

variable {κ : Type} {codec : Codec κ} {w : World κ} {cache : Cached} {seen : List State}
  {cached : Cached} {readable : Bool}

theorem calls_setCall (w : World κ) (caller : ℕ) (call : Option Call) (other : ℕ) :
    (w.setCall caller call).calls other = if other = caller then call else w.calls other :=
  Function.update_apply ..

variable (file : Option (File κ))

theorem sound_boot : (boot file).Sound codec where
  agrees := ⟨nofun, trivial, nofun⟩
  sees := nofun
  current := nofun
  returned := nofun
  once := .inl rfl
  idle := ⟨0, fun _ _ => rfl⟩

variable {call : Call}

/-- A call moves on to a phase that is sound. -/
theorem Sound.setCall (h : w.Sound codec) (hcc : w.cache = some cache) (caller : ℕ)
    (ha : call.phase.Agrees codec w.file) (hs : call.Sees cache)
    (hcr : parsed codec w.file ∈ call.seen) : (w.setCall caller (some call)).Sound codec := by
  have hcl : ∀ other c, (w.setCall caller (some call)).calls other = some c →
      c = call ∨ w.calls other = some c := by
    intro other c hc
    rw [calls_setCall] at hc
    split_ifs at hc
    · exact .inl (some.inj hc).symm
    · exact .inr hc
  refine ⟨⟨h.agrees.cache, h.agrees.starting, ?_⟩, ?_, ?_, h.returned, h.once, ?_⟩
  · intro other c hc
    rcases hcl other c hc with rfl | hc
    · exact ha
    · exact h.agrees.calls other c hc
  · intro other c hc
    rcases hcl other c hc with rfl | hc
    · exact ⟨cache, hcc, hs⟩
    · exact h.sees other c hc
  · intro other c hc
    rcases hcl other c hc with rfl | hc
    · exact hcr
    · exact h.current other c hc
  · obtain ⟨bound, hb⟩ := h.idle
    refine ⟨max bound (caller + 1), fun other ho => ?_⟩
    rw [calls_setCall, if_neg (by omega)]
    exact hb other (by omega)

/-- What the file holds may be stored at any time, since every call under way has seen it. -/
theorem Sound.store (h : w.Sound codec) (ho : w.starting = .finished)
    (hcc : cached.data = parsed codec w.file) : { w with cache := some cached }.Sound codec where
  agrees := by
    refine ⟨fun c hc => ?_, h.agrees.starting, h.agrees.calls⟩
    obtain rfl : cached = c := some.inj hc
    exact fun _ => hcc
  sees := by
    intro caller call hcl
    refine ⟨cached, rfl, ?_⟩
    have hs : cached.data ∈ call.seen := hcc ▸ h.current caller call hcl
    unfold Call.Sees
    split
    · exact fun _ => hs
    · exact hs
    · trivial
  current := h.current
  returned := h.returned
  once := .inr ho
  idle := h.idle

/-- A call that ends returns what it has read. -/
theorem Sound.finish (h : w.Sound codec) (caller : ℕ) {r : Returned} (hr : r.state ∈ r.seen) :
    { w.setCall caller none with returned := w.returned ++ [r] }.Sound codec := by
  have hcl : ∀ other c, (w.setCall caller none).calls other = some c → w.calls other = some c := by
    intro other c hc
    rw [calls_setCall] at hc
    split_ifs at hc
    exact hc
  refine ⟨⟨h.agrees.cache, h.agrees.starting, ?_⟩, ?_, ?_, ?_, h.once, ?_⟩
  · exact fun other c hc => h.agrees.calls other c (hcl other c hc)
  · exact fun other c hc => h.sees other c (hcl other c hc)
  · exact fun other c hc => h.current other c (hcl other c hc)
  · intro r' hr'
    rcases mem_append.1 hr' with hr' | hr'
    · exact h.returned r' hr'
    · rw [mem_singleton.1 hr']
      exact hr
  · obtain ⟨bound, hb⟩ := h.idle
    refine ⟨bound, fun other ho => ?_⟩
    show (w.setCall caller none).calls other = none
    rw [calls_setCall, hb other ho, ite_self]

variable {caller : ℕ}

theorem Sound.advance (h : w.Sound codec) (hc : w.cache = some cache)
    (hcl : w.calls caller = some call) (hr : w.Orderly codec (.call caller readable)) :
    (w.advance codec cache caller readable call.seen call.phase).Sound codec := by
  obtain ⟨phase, seen⟩ := call
  have hcr : parsed codec w.file ∈ seen := h.current caller _ hcl
  obtain ⟨cache', hc', hs⟩ := h.sees caller _ hcl
  obtain rfl : cache = cache' := some.inj (hc.symm.trans hc')
  have ha := h.agrees.calls caller _ hcl
  cases phase with
  | statted mtime =>
    simp only [World.advance]
    split_ifs with hm
    · exact h.setCall hc caller trivial trivial hcr
    · exact h.setCall hc caller trivial (hs (not_not.1 hm)) hcr
  | missed =>
    refine h.setCall hc caller ?_ trivial hcr
    show (if readable then parsed codec w.file else State.default) = parsed codec w.file
    rcases hr ⟨seen, hcl⟩ with hr | hd
    · rw [if_pos hr]
    · rw [hd, ite_self]
  | loaded config => exact h.setCall hc caller ha trivial hcr
  | sampled cached =>
    have ho : w.starting = .finished := by
      rcases h.once with hn | ho
      · rw [hc] at hn
        cases hn
      · exact ho
    have hdt : cached.data = parsed codec w.file := ha
    have hsn : cached.data ∈ seen := hdt ▸ hcr
    exact (h.store ho hdt).setCall rfl caller trivial hsn hcr
  | reading => exact h.finish caller hs

theorem Sound.callStep (h : w.Sound codec) (hr : w.Orderly codec (.call caller readable)) :
    (w.callStep codec caller readable).Sound codec := by
  unfold World.callStep
  split
  · exact h
  · rename_i cache hc
    split
    · refine h.setCall hc caller trivial (fun hm => ?_) (mem_singleton.2 rfl)
      exact mem_singleton.2 (h.agrees.cache cache hc hm.symm)
    · rename_i call hcl
      exact h.advance hc hcl hr

theorem Sound.setStarting (h : w.Sound codec) (hn : w.cache = none) {starting : Starting}
    (ha : starting.Agrees codec w.file) : { w with starting := starting }.Sound codec :=
  ⟨⟨h.agrees.cache, ha, h.agrees.calls⟩, h.sees, h.current, h.returned, .inl hn, h.idle⟩

theorem Sound.initStep (h : w.Sound codec) : (w.initStep codec).Sound codec := by
  have hn : w.starting ≠ .finished → w.cache = none := fun hne => h.once.resolve_right hne
  have hs := h.agrees.starting
  unfold World.initStep
  split
  case h_1 hw =>
    have hn := hn (by simp [hw])
    split
    · rename_i hf
      exact h.setStarting hn fun _ => by rw [hf]; rfl
    · rename_i file hf
      split
      · rename_i config hc
        refine h.setStarting hn ?_
        show config = parsed codec w.file
        simp [parsed, loadFromPath, hf, hc]
      · exact h.setStarting hn trivial
  case h_2 config hl =>
    rw [hl] at hs
    exact h.setStarting (hn (by simp [hl])) fun _ => hs
  case h_3 cached hsm =>
    rw [hsm] at hs
    -- no call has begun yet
    have hcl : ∀ caller call, w.calls caller ≠ some call := by
      intro caller call hca
      obtain ⟨cache, hcc, -⟩ := h.sees caller call hca
      rw [hn (by simp [hsm])] at hcc
      cases hcc
    refine ⟨⟨fun cache hcc => ?_, trivial, h.agrees.calls⟩,
      fun caller call hca => absurd hca (hcl caller call), h.current, h.returned,
      .inr rfl, h.idle⟩
    obtain rfl : cached = cache := some.inj hcc
    exact hs
  case h_4 => exact h

theorem Sound.write (h : w.Sound codec) {contents : κ} {now : ℕ}
    (ha : w.Orderly codec (.write contents now)) : (w.write codec contents now).Sound codec := by
  have hcl : ∀ caller call, (w.write codec contents now).calls caller = some call →
      ∃ before, w.calls caller = some before ∧ call.phase = before.phase ∧
        call.seen = before.seen ++ [parsed codec (some ⟨contents, now⟩)] := by
    intro caller call hca
    obtain ⟨before, hb, rfl⟩ := map_eq_some_iff.1 hca
    exact ⟨before, hb, rfl, rfl⟩
  refine ⟨⟨ha.cache, ha.starting, ?_⟩, ?_, ?_, h.returned, h.once, ?_⟩
  · intro caller call hca
    obtain ⟨before, hb, hp, -⟩ := hcl caller call hca
    rw [hp]
    exact ha.calls caller before hb
  · intro caller call hca
    obtain ⟨before, hb, hp, hsn⟩ := hcl caller call hca
    obtain ⟨cache, hcc, hs⟩ := h.sees caller before hb
    refine ⟨cache, hcc, ?_⟩
    unfold Call.Sees at hs ⊢
    rw [hp, hsn]
    split at hs
    · exact fun hm => mem_append_left _ (hs hm)
    · exact mem_append_left _ hs
    · trivial
  · intro caller call hca
    obtain ⟨before, -, -, hsn⟩ := hcl caller call hca
    rw [hsn]
    exact mem_append_right _ (mem_singleton.2 rfl)
  · obtain ⟨bound, hbn⟩ := h.idle
    refine ⟨bound, fun caller hc => ?_⟩
    show (w.calls caller).map _ = none
    rw [hbn caller hc, map_none]

theorem sound_step (h : w.Sound codec) (label : Label κ) (ho : w.Orderly codec label) :
    (w.step codec label).Sound codec := by
  cases label with
  | init => exact h.initStep
  | call caller readable => exact h.callStep ho
  | write contents now => exact h.write ho

theorem sound_run {labels : List (Label κ)}
    (ho : Along (step codec) (Orderly codec) (boot file) labels) :
    (runFrom (step codec) (boot file) labels).Sound codec :=
  runFrom_invariant (Sound codec) (fun _ label h => sound_step h label) (sound_boot file) ho

/-- A call that is alone returns what the file holds, after three accesses or after six. -/
theorem Sound.returns (h : w.Sound codec) (hc : w.cache = some cache) (hi : w.calls caller = none) :
    ∃ n, (runFrom (step codec) w (replicate n (.call caller true))).returned =
      w.returned ++ [⟨parsed codec w.file, [parsed codec w.file]⟩] := by
  by_cases hm : fileMtime w.file = cache.mtime
  · have hd : cache.data = parsed codec w.file := h.agrees.cache cache hc hm.symm
    exact ⟨3, by simp [step, World.callStep, hc, hi, World.setCall, World.advance, hm, hd]⟩
  · exact ⟨6, by simp [step, World.callStep, hc, hi, World.setCall, World.advance, hm]⟩

/-! ## Stale reads -/

/-- A step of the process whose reads succeed. -/
def Undisturbed : Label κ → Prop
  | .init => True
  | .call _ readable => readable = true
  | .write _ _ => False

/-- Without a further write, a call that has not begun yet may return another state than that of the
file. -/
def Stale (codec : Codec κ) (w : World κ) : Prop :=
  ∃ labels state, (∀ label ∈ labels, Undisturbed label) ∧ state ≠ parsed codec w.file ∧
    (runFrom (step codec) w labels).returned = w.returned ++ [⟨state, [parsed codec w.file]⟩]

variable {other : ℕ}

theorem ne_of_idle (hc : w.calls caller = some call) (hi : w.calls other = none) :
    other ≠ caller := by
  rintro rfl
  rw [hc] at hi
  cases hi

theorem stale_of_cache (hc : w.cache = some cache) (hm : cache.mtime = fileMtime w.file)
    (hd : cache.data ≠ parsed codec w.file) (hi : w.calls caller = none) : Stale codec w := by
  refine ⟨[.call caller true, .call caller true, .call caller true], cache.data, ?_, hd, ?_⟩
  · simp [Undisturbed]
  · simp [step, callStep, hc, hi, setCall, advance, hm]

theorem stale_of_loaded (hcc : w.cache = some cache) {config : State}
    (hcl : w.calls caller = some ⟨.loaded config, seen⟩) (hc : config ≠ parsed codec w.file)
    (hi : w.calls other = none) : Stale codec w := by
  have hne := ne_of_idle hcl hi
  refine ⟨[.call caller true, .call caller true, .call other true, .call other true,
    .call other true], config, ?_, hc, ?_⟩
  · simp [Undisturbed]
  · simp [step, callStep, hcc, hcl, hi, setCall, advance, hne]

theorem stale_of_sampled (hc : w.cache = some cache)
    (hcl : w.calls caller = some ⟨.sampled cached, seen⟩)
    (hd : cached.data ≠ parsed codec w.file) (hi : w.calls other = none) : Stale codec w := by
  have hne := ne_of_idle hcl hi
  by_cases hm : fileMtime w.file = cache.mtime
  · refine ⟨[.call other true, .call other true, .call caller true, .call other true],
      cached.data, ?_, hd, ?_⟩
    · simp [Undisturbed]
    · simp [step, callStep, hc, hcl, hi, setCall, advance, hne, hne.symm, hm]
  · refine ⟨[.call other true, .call other true, .call other true, .call other true,
      .call other true, .call caller true, .call other true], cached.data, ?_, hd, ?_⟩
    · simp [Undisturbed]
    · simp [step, callStep, hc, hcl, hi, setCall, advance, hne, hne.symm, hm]

theorem stale_of_starting (hs : ¬ w.starting.Agrees codec w.file)
    (hi : w.calls caller = none) : Stale codec w := by
  cases hp : w.starting <;> rw [hp] at hs
  case waiting => exact absurd trivial hs
  case finished => exact absurd trivial hs
  case loaded config =>
    refine ⟨[.init, .init, .call caller true, .call caller true, .call caller true], config, ?_,
      hs, ?_⟩
    · simp [Undisturbed]
    · simp [step, initStep, callStep, hp, hi, setCall, advance]
  case sampled cached =>
    obtain ⟨hm, hd⟩ := Classical.not_imp.1 hs
    refine ⟨[.init, .call caller true, .call caller true, .call caller true], cached.data, ?_,
      hd, ?_⟩
    · simp [Undisturbed]
    · simp [step, initStep, callStep, hp, hi, setCall, advance, hm]

/-- What a call under way is about to store although the file holds something else. -/
theorem stale_of_phase (hc : w.cache = some cache) (hcl : w.calls caller = some call)
    (hp : ¬ call.phase.Agrees codec w.file) (hi : w.calls other = none) : Stale codec w := by
  obtain ⟨phase, seen⟩ := call
  cases phase with
  | loaded config => exact stale_of_loaded hc hcl hp hi
  | sampled cached => exact stale_of_sampled hc hcl hp hi
  | _ => exact absurd trivial hp

/-- **What is not orderly can go wrong**: after any other step a call may return a stale state. -/
theorem stale_step (h : w.Sound codec) {label : Label κ} (hlb : ¬ w.Orderly codec label) :
    Stale codec (w.step codec label) := by
  obtain ⟨bound, hb⟩ := h.idle
  have hi : w.calls bound = none := hb bound (Nat.le_refl bound)
  cases label with
  | init => exact absurd trivial hlb
  | call caller readable =>
    obtain ⟨⟨seen, hcl⟩, hr⟩ := Classical.not_imp.1 hlb
    obtain ⟨hr, hd⟩ := not_or.1 hr
    obtain ⟨cache, hc, -⟩ := h.sees caller _ hcl
    have hstep : w.step codec (.call caller readable) =
        w.setCall caller (some ⟨.loaded State.default, seen⟩) := by
      simp [step, callStep, hc, hcl, advance, hr]
    have hne := ne_of_idle hcl hi
    have hl : (w.setCall caller (some ⟨.loaded State.default, seen⟩)).calls caller =
        some ⟨.loaded State.default, seen⟩ := by
      rw [calls_setCall, if_pos rfl]
    have hi : (w.setCall caller (some ⟨.loaded State.default, seen⟩)).calls bound = none := by
      rw [calls_setCall, if_neg hne, hi]
    rw [hstep]
    exact stale_of_loaded hc hl (Ne.symm hd) hi
  | write contents now =>
    have hi : (w.write codec contents now).calls bound = none := by
      simp [World.write, hi]
    by_contra hst
    refine hlb ⟨fun cache hc hm => ?_, ?_, fun caller call hcl => ?_⟩
    · by_contra hdt
      exact hst (stale_of_cache hc hm hdt hi)
    · by_contra hs
      exact hst (stale_of_starting hs hi)
    · by_contra hp
      obtain ⟨cache, hc, -⟩ := h.sees caller call hcl
      have hcl : (w.write codec contents now).calls caller =
          some ⟨call.phase, call.seen ++ [parsed codec (some ⟨contents, now⟩)]⟩ := by
        simp [World.write, hcl]
      exact hst (stale_of_phase hc hcl hp hi)

end World

/-- **Coherence of the cache.** In every run of orderly steps, every call returns a state that the
file held during the call (the one it held at its start, if it was not written in between), so that
`check_access` refuses a certificate that was revoked all the time; and a call that is alone does
return. After any other step a new call may return a state that the file does not hold. -/
theorem cache_coherent {κ : Type} (codec : Codec κ) (file : Option (File κ))
    (labels : List (Label κ))
    (horderly : Along (World.step codec) (World.Orderly codec) (World.boot file) labels) :
    let w := runFrom (World.step codec) (World.boot file) labels
    (∀ r ∈ w.returned, r.state ∈ r.seen ∧ ∀ methodPermission path fingerprint,
        (MethodRequirement.permission? (methodPermission path)).isSome →
        (∀ s ∈ r.seen, fingerprint ∈ s.revoked) →
        checkAccess methodPermission (some r.state) path (some fingerprint) =
          .error .certificateRevoked) ∧
    (∀ cache caller, w.cache = some cache → w.calls caller = none →
      ∃ n, (runFrom (World.step codec) w (replicate n (.call caller true))).returned =
        w.returned ++ [⟨parsed codec w.file, [parsed codec w.file]⟩]) ∧
    ∀ label, ¬ w.Orderly codec label → (w.step codec label).Stale codec := by
  have hs := World.sound_run file horderly
  refine ⟨fun r hr => ?_, fun _ _ hc hi => hs.returns hc hi,
    fun label hl => World.stale_step hs hl⟩
  have hst := hs.returned r hr
  refine ⟨hst, fun methodPermission path fingerprint hm hrv => ?_⟩
  obtain ⟨required, hrq⟩ := isSome_iff_exists.1 hm
  exact checkAccess_of_revoked hrq (hrv r.state hst)

/-- The certificate `a` is authorized. -/
def authorizedState : State := ⟨[⟨"a", [.vmRead]⟩], []⟩

/-- The certificate `a` is revoked. -/
def revokedState : State := ⟨[], ["a"]⟩

/-- A call after a write in a second of its own. -/
theorem cache_coherent_revoked :
    let w := runFrom (World.step plain) (World.boot none) ([.init, .init,
      .write revokedState 10000000000] ++ replicate 6 (.call 0 true))
    w.returned = [⟨revokedState, [revokedState]⟩] ∧
      checkAccess (fun _ => .requiresPermission .vmRead) (some revokedState) "/List" (some "a") =
        .error .certificateRevoked := by
  intro w
  have hr : w.returned = [⟨revokedState, [revokedState]⟩] := by decide
  refine ⟨hr, ?_⟩
  have h := (cache_coherent plain none ([.init, .init, .write revokedState 10000000000] ++
    replicate 6 (.call 0 true)) ?_).1 ⟨revokedState, [revokedState]⟩ ?_
  · exact h.2 (fun _ => .requiresPermission .vmRead) "/List" "a" rfl (by decide)
  · have hrd : ∀ w : World State, w.Orderly plain (.call 0 true) := fun _ _ => .inl rfl
    refine ⟨trivial, trivial, ⟨fun cache hc hm => ?_, trivial, nofun⟩, hrd _, hrd _,
      hrd _, hrd _, hrd _, hrd _, trivial⟩
    obtain rfl : ⟨State.default, 0⟩ = cache := some.inj hc
    exact absurd hm (by decide)
  · exact mem_singleton.2 rfl

/-- **A revoked certificate is let through**: the revocation is written in the second in which the
file was last loaded, and the next call still takes the cached state for valid. -/
theorem revoked_certificate_accepted : (runFrom (World.step plain) (World.boot none) ([.init, .init,
      .write authorizedState 10100000000] ++ replicate 6 (.call 0 true) ++
      [.write revokedState 10500000000] ++ replicate 3 (.call 0 true))).returned =
        [⟨authorizedState, [authorizedState]⟩, ⟨authorizedState, [revokedState]⟩] ∧
      "a" ∈ revokedState.revoked ∧
      checkAccess (fun _ => .requiresPermission .vmRead) (some authorizedState) "/List"
        (some "a") = .ok () :=
  ⟨by decide, by decide, rfl⟩

end Muak.Auth
