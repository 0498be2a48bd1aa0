import Mathlib.Algebra.Order.Group.Nat
import Mathlib.Algebra.Ring.Nat
import Muak.Foundations.Clock
import Muak.Foundations.Run
import Muak.Foundations.U64

/-!
# Pruning the cache

`services/provisiond/src/cache/prune.rs`: entries that are old are removed first, then the ones that
nothing refers to until they fit their budget, then any until all fit.

* `enforce`: the three sweeps, with the order in which entries are visited.
* `LimitsHold`: nothing has to be removed any more.
* `minimal_iff`: which caches are swept without removing an entry when the limits hold already.

Sizes are natural numbers: their sum is taken not to overflow.
-/

namespace Muak.Provisiond.Prune

open List

/-! ## The source -/

def keepDuration : ℕ := Clock.secs (60 * 24 * 3600)

def maxReserved : ℕ := 10 * 1024 * 1024 * 1024

def maxUsed : ℕ := 100 * 1024 * 1024 * 1024

/-- How much may be used. -/
structure Limits where
  reserved : ℕ
  maxUsed : ℕ
  minFree : ℕ

/-- The limits for a disk of this size. -/
def Limits.fromTotal (total : ℕ) : Limits where
  reserved := min (total / 10) maxReserved
  maxUsed := min (U64.saturatingMul total 80 / 100) Prune.maxUsed
  minFree := U64.saturatingMul total 20 / 100

/-- A file of the cache. -/
structure Entry where
  path : String
  modified : ℤ
  size : ℕ
  uses : ℕ
  shared : Bool
  metadata : Bool
  deriving DecidableEq

/-- What is used and what was removed. -/
structure Stats where
  used : ℕ
  unsharedUsed : ℕ
  removedFiles : ℕ
  removedBytes : ℕ

/-- How much is kept. -/
def keepBytes (used free : ℕ) (limits : Limits) : ℕ :=
  let keep := if free < limits.minFree then min limits.maxUsed (used - (limits.minFree - free))
    else limits.maxUsed
  max keep limits.reserved

/-- The counters after a file was removed. -/
def remove (entry : Entry) (stats : Stats) : Stats where
  used := stats.used - entry.size
  unsharedUsed := if entry.shared then stats.unsharedUsed else stats.unsharedUsed - entry.size
  removedFiles := stats.removedFiles + 1
  removedBytes := stats.removedBytes + entry.size

/-- What is kept, and the counters. -/
structure Swept where
  kept : List Entry
  stats : Stats

/-- The loop body of `sweep`; `removes` says which files can be removed. -/
def sweepStep (removes : Entry → Bool) (shouldEvict : Entry → Stats → Bool) (s : Swept)
    (entry : Entry) : Swept :=
  if shouldEvict entry s.stats && removes entry then { s with stats := remove entry s.stats }
  else { s with kept := s.kept ++ [entry] }

/-- Remove the entries that are to be evicted, one by one. -/
def sweep (removes : Entry → Bool) (entries : List Entry) (stats : Stats)
    (shouldEvict : Entry → Stats → Bool) : Swept :=
  runFrom (sweepStep removes shouldEvict) ⟨[], stats⟩ entries

/-- The comparison of `(entry.shared, entry.metadata, entry.modified, entry.uses)`. -/
def keyLe (a b : Entry) : Bool :=
  if a.shared ≠ b.shared then b.shared
  else if a.metadata ≠ b.metadata then b.metadata
  else if a.modified ≠ b.modified then decide (a.modified < b.modified)
  else decide (a.uses ≤ b.uses)

/-- The bytes of some entries. -/
def bytes (entries : List Entry) : ℕ := (entries.map (·.size)).sum

def initialStats (entries : List Entry) : Stats where
  used := bytes entries
  unsharedUsed := bytes (entries.filter (!·.shared))
  removedFiles := 0
  removedBytes := 0

def cutoff (now : ℤ) : ℤ :=
  if -Clock.limit ≤ now - keepDuration then now - keepDuration else 0

def expired (now : ℤ) (entry : Entry) : Bool :=
  !entry.shared && decide (entry.modified < cutoff now)

def overUnshared (keep : ℕ) (entry : Entry) (stats : Stats) : Bool :=
  !entry.shared && decide (keep ≤ stats.unsharedUsed)

def overUsed (keep : ℕ) (_ : Entry) (stats : Stats) : Bool := decide (keep ≤ stats.used)

section

variable (removes : Entry → Bool) (now : ℤ) (total free : ℕ) (entries : List Entry)

/-- The sweep by age. -/
def ageSweep : Swept :=
  sweep removes entries (initialStats entries) fun entry _ => expired now entry

/-- What is left, in the order in which it is removed. -/
def ordered : List Entry := (ageSweep removes now entries).kept.mergeSort keyLe

/-- What the unshared entries may take up. -/
def unsharedKeep : ℕ :=
  keepBytes (ageSweep removes now entries).stats.unsharedUsed free (.fromTotal total)

/-- The sweep over the unshared entries. -/
def unsharedSweep : Swept :=
  let stats := (ageSweep removes now entries).stats
  let keep := unsharedKeep removes now total free entries
  if keep < stats.unsharedUsed then
    sweep removes (ordered removes now entries) stats (overUnshared keep)
  else ⟨ordered removes now entries, stats⟩

/-- What all entries may take up. -/
def usedKeep : ℕ :=
  keepBytes (unsharedSweep removes now total free entries).stats.used free (.fromTotal total)

/-- The sweep over all entries. -/
def usedSweep : Swept :=
  let swept := unsharedSweep removes now total free entries
  let keep := usedKeep removes now total free entries
  if keep < swept.stats.used then sweep removes swept.kept swept.stats (overUsed keep) else swept

/-- `enforce`: what is left, the counters and whether a sweep was made. -/
def enforce : Swept × Bool :=
  (usedSweep removes now total free entries,
    decide (0 < (ageSweep removes now entries).stats.removedFiles ∨
      unsharedKeep removes now total free entries <
        (ageSweep removes now entries).stats.unsharedUsed ∨
      usedKeep removes now total free entries <
        (unsharedSweep removes now total free entries).stats.used))

end

/-! ## Minimality -/

/-- The cache is not too large and enough space is free, or the cache is down to its reserve. -/
def LimitsHold (limits : Limits) (free : ℕ) (stats : Stats) : Prop :=
  stats.used ≤ limits.maxUsed ∧ limits.minFree ≤ free + stats.removedBytes ∨
    stats.used ≤ limits.reserved

/-- A step of a sweep that removes an entry has a reason to. -/
def Justified (limits : Limits) (free : ℕ) (shouldEvict : Entry → Stats → Bool) (s : Swept)
    (entry : Entry) : Prop :=
  shouldEvict entry s.stats = true → ¬LimitsHold limits free s.stats

/-- All files can be removed. -/
def always : Entry → Bool := fun _ => true

/-- Neither of the sweeps by size removes an entry when the limits hold. -/
structure Minimal (now : ℤ) (total free : ℕ) (entries : List Entry) : Prop where
  unshared : unsharedKeep always now total free entries <
      (ageSweep always now entries).stats.unsharedUsed →
    Along (sweepStep always (overUnshared (unsharedKeep always now total free entries)))
      (Justified (.fromTotal total) free
        (overUnshared (unsharedKeep always now total free entries)))
      ⟨[], (ageSweep always now entries).stats⟩ (ordered always now entries)
  used : usedKeep always now total free entries <
      (unsharedSweep always now total free entries).stats.used →
    Along (sweepStep always (overUsed (usedKeep always now total free entries)))
      (Justified (.fromTotal total) free (overUsed (usedKeep always now total free entries)))
      ⟨[], (unsharedSweep always now total free entries).stats⟩
      (unsharedSweep always now total free entries).kept

/-- The entries that are left when the first ones are dropped until less than `keep` bytes are. -/
def trim (keep : ℕ) : List Entry → List Entry
  | [] => []
  | entry :: entries => if keep ≤ bytes (entry :: entries) then trim keep entries
    else entry :: entries

/-- The entries that are not too old, in the order in which they are removed. -/
def candidates (now : ℤ) (entries : List Entry) : List Entry :=
  (entries.filter (!expired now ·)).mergeSort keyLe

/-- Of the sums that are left as entries are dropped, none is in between `keep` and what the limits
allow, with `others` bytes on top. -/
def Avoids (keep allowed others : ℕ) (entries : List Entry) : Prop :=
  ∀ entry rest, entry :: rest <:+ entries → keep ≤ bytes (entry :: rest) →
    allowed < bytes (entry :: rest) + others

/-- The unshared candidates. -/
def unshared (now : ℤ) (entries : List Entry) : List Entry :=
  (candidates now entries).filter (!·.shared)

/-- The shared candidates. -/
def shared (now : ℤ) (entries : List Entry) : List Entry :=
  (candidates now entries).filter (·.shared)

/-- What is left for the last sweep. -/
def remaining (now : ℤ) (total free : ℕ) (entries : List Entry) : List Entry :=
  let keep := keepBytes (bytes (unshared now entries)) free (.fromTotal total)
  (if keep < bytes (unshared now entries) then trim keep (unshared now entries)
    else unshared now entries) ++ shared now entries

/-- No sum that a sweep passes is at least its target, and still within the limits. -/
structure Clear (now : ℤ) (total free : ℕ) (entries : List Entry) : Prop where
  unshared : keepBytes (bytes (unshared now entries)) free (.fromTotal total) <
      bytes (unshared now entries) →
    Avoids (keepBytes (bytes (Prune.unshared now entries)) free (.fromTotal total))
      (keepBytes (bytes entries) free (.fromTotal total)) (bytes (shared now entries))
      (Prune.unshared now entries)
  remaining : keepBytes (bytes (remaining now total free entries)) free (.fromTotal total) <
      bytes (remaining now total free entries) →
    Avoids (keepBytes (bytes (Prune.remaining now total free entries)) free (.fromTotal total))
      (keepBytes (bytes entries) free (.fromTotal total)) 0
      (Prune.remaining now total free entries)

/-! ### The counters -/

@[simp] theorem bytes_cons (entry : Entry) (entries : List Entry) :
    bytes (entry :: entries) = entry.size + bytes entries := by
  simp [bytes]

@[simp] theorem bytes_append (a b : List Entry) : bytes (a ++ b) = bytes a + bytes b := by
  simp [bytes]

theorem bytes_le_of_suffix {a b : List Entry} (h : a <:+ b) : bytes a ≤ bytes b := by
  obtain ⟨front, rfl⟩ := h
  simp

theorem bytes_perm {a b : List Entry} (h : a.Perm b) : bytes a = bytes b := (h.map _).sum_nat

/-- The counters of a sweep are right, with `todo` still to be visited. -/
structure Accounted (start : ℕ) (s : Swept) (todo : List Entry) : Prop where
  used : s.stats.used = bytes (s.kept ++ todo)
  unshared : s.stats.unsharedUsed = bytes ((s.kept ++ todo).filter (!·.shared))
  removed : s.stats.used + s.stats.removedBytes = start

variable {start k : ℕ} {s : Swept} {entry : Entry} {todo us ss : List Entry}
  {evict : Entry → Stats → Bool}

theorem sweepStep_of_evict (h : evict entry s.stats = true) :
    sweepStep always evict s entry = { s with stats := remove entry s.stats } := by
  simp [sweepStep, always, h]

theorem sweepStep_of_not_evict (h : evict entry s.stats = false) :
    sweepStep always evict s entry = { s with kept := s.kept ++ [entry] } := by
  simp [sweepStep, h]

theorem Accounted.step (h : Accounted start s (entry :: todo)) :
    Accounted start (sweepStep always evict s entry) todo := by
  have hus := h.used
  have hu := h.unshared
  have hr := h.removed
  cases he : evict entry s.stats with
  | true =>
    rw [sweepStep_of_evict he]
    simp only [bytes_append, bytes_cons] at hus hu
    refine ⟨?_, ?_, ?_⟩
    · simp only [remove, bytes_append]
      omega
    · cases hs : entry.shared <;> simp [remove, hs] at hu ⊢ <;> omega
    · simp only [remove]
      omega
  | false =>
    rw [sweepStep_of_not_evict he]
    exact ⟨by simpa using hus, by simpa using hu, hr⟩

theorem Accounted.run (h : Accounted start s todo) :
    Accounted start (runFrom (sweepStep always evict) s todo) [] := by
  induction todo generalizing s with
  | nil => exact h
  | cons entry todo ih => exact ih h.step

/-- The next sweep starts with what was kept. -/
theorem Accounted.restart (h : Accounted start s []) : Accounted start ⟨[], s.stats⟩ s.kept :=
  ⟨by simpa using h.used, by simpa using h.unshared, h.removed⟩

/-! ### The limits -/

/-- The limits hold as soon as no more is used than can be kept of what there was at first. -/
theorem limitsHold_iff {stats : Stats} (h : stats.used + stats.removedBytes = start)
    (total free : ℕ) : LimitsHold (.fromTotal total) free stats ↔
      stats.used ≤ keepBytes start free (.fromTotal total) := by
  unfold LimitsHold keepBytes
  dsimp only
  split_ifs with hf
  · omega
  · omega

/-! ### Sweeps from the front -/

/-- Where nothing is evicted, everything is kept. -/
theorem runFrom_of_not_evict (h : ∀ entry ∈ todo, evict entry s.stats = false) :
    runFrom (sweepStep always evict) s todo = ⟨s.kept ++ todo, s.stats⟩ := by
  induction todo generalizing s with
  | nil => simp
  | cons entry todo ih =>
    rw [forall_mem_cons] at h
    have hrest := ih (s := { s with kept := s.kept ++ [entry] }) h.2
    rw [runFrom_cons, sweepStep_of_not_evict h.1, hrest]
    simp

theorem along_of_not_evict {limits : Limits} {free : ℕ}
    (h : ∀ entry ∈ todo, evict entry s.stats = false) :
    Along (sweepStep always evict) (Justified limits free evict) s todo := by
  induction todo generalizing s with
  | nil => trivial
  | cons entry todo ih =>
    rw [forall_mem_cons] at h
    refine ⟨fun he => (nomatch h.1.symm.trans he), ?_⟩
    rw [sweepStep_of_not_evict h.1]
    exact ih h.2

/-- A sweep evicts the entries of `us` from the front as long as their sum is too large, and none of
those in `ss`. -/
structure Driven (start keep : ℕ) (evict : Entry → Stats → Bool) (us ss : List Entry) : Prop where
  front : ∀ s entry rest, s.kept = [] → Accounted start s (entry :: rest ++ ss) →
    entry :: rest <:+ us → evict entry s.stats = decide (keep ≤ bytes (entry :: rest))
  stop : ∀ stats entry other, entry ∈ us → evict entry stats = false → evict other stats = false
  back : ∀ entry ∈ ss, ∀ stats, evict entry stats = false

theorem Driven.tail (h : Driven start k evict (entry :: us) ss) : Driven start k evict us ss where
  front s other rest hk ha hs := h.front s other rest hk ha (hs.trans (suffix_cons _ _))
  stop stats other third ho := h.stop stats other third (mem_cons_of_mem _ ho)
  back := h.back

/-- At the first entry: it is evicted, or nothing is. -/
theorem Driven.head (h : Driven start k evict (entry :: us) ss) (hkp : s.kept = [])
    (ha : Accounted start s (entry :: us ++ ss)) :
    (k ≤ bytes (entry :: us) ∧ evict entry s.stats = true) ∨
      (bytes (entry :: us) < k ∧ ∀ other, evict other s.stats = false) := by
  have hf := h.front s entry us hkp ha suffix_rfl
  by_cases hk : k ≤ bytes (entry :: us)
  · exact .inl ⟨hk, by rw [hf, decide_eq_true hk]⟩
  · have he : evict entry s.stats = false := by rw [hf, decide_eq_false hk]
    exact .inr ⟨Nat.lt_of_not_le hk, fun other => h.stop _ _ other mem_cons_self he⟩

theorem Driven.kept (h : Driven start k evict us ss) (hkp : s.kept = [])
    (ha : Accounted start s (us ++ ss)) :
    (runFrom (sweepStep always evict) s (us ++ ss)).kept = trim k us ++ ss := by
  induction us generalizing s with
  | nil =>
    rw [nil_append, runFrom_of_not_evict fun entry hen => h.back entry hen _, hkp]
    rfl
  | cons entry us ih =>
    rcases h.head hkp ha with ⟨hk, he⟩ | ⟨hk, he⟩
    · have hstep := sweepStep_of_evict he
      rw [trim, if_pos hk]
      exact ih h.tail (by rw [hstep]; exact hkp) ha.step
    · rw [runFrom_of_not_evict fun other _ => he other, hkp, trim, if_neg (by omega)]
      rfl

/-- The removals of a sweep are justified exactly if it passes no sum that is in between. -/
theorem Driven.along_iff (total free : ℕ) (h : Driven start k evict us ss) (hkp : s.kept = [])
    (ha : Accounted start s (us ++ ss)) :
    Along (sweepStep always evict) (Justified (.fromTotal total) free evict) s (us ++ ss) ↔
      Avoids k (keepBytes start free (.fromTotal total)) (bytes ss) us := by
  induction us generalizing s with
  | nil =>
    refine ⟨fun _ entry rest hs => (nomatch suffix_nil.1 hs), fun _ => ?_⟩
    exact along_of_not_evict fun entry hen => h.back entry hen _
  | cons entry us ih =>
    rcases h.head hkp ha with ⟨hk, he⟩ | ⟨hk, he⟩
    · have hstep : (sweepStep always evict s entry).kept = [] := by
        rw [sweepStep_of_evict he]
        exact hkp
      have hj : Justified (.fromTotal total) free evict s entry ↔
          keepBytes start free (.fromTotal total) < bytes (entry :: us) + bytes ss := by
        have hu := ha.used
        rw [hkp, nil_append, bytes_append] at hu
        rw [Justified, limitsHold_iff ha.removed, hu, Nat.not_le]
        exact ⟨fun hal => hal he, fun hal _ => hal⟩
      rw [cons_append, Along, hj, ih h.tail hstep ha.step]
      constructor
      · rintro ⟨hf, ho⟩ other rest hs hot
        rcases suffix_cons_iff.1 hs with heq | hs
        · rwa [heq]
        · exact ho other rest hs hot
      · intro hal
        exact ⟨hal entry us suffix_rfl hk, fun other rest hs =>
          hal other rest (hs.trans (suffix_cons _ _))⟩
    · refine ⟨fun _ other rest hs hot => ?_, fun _ =>
        along_of_not_evict fun other _ => he other⟩
      have hle := bytes_le_of_suffix hs
      omega

theorem filter_append_of_shared (hus : ∀ entry ∈ us, entry.shared = false)
    (hss : ∀ entry ∈ ss, entry.shared = true) : (us ++ ss).filter (!·.shared) = us := by
  rw [filter_append, filter_eq_self.2 fun entry he => by simp [hus entry he],
    filter_eq_nil_iff.2 fun entry he => by simp [hss entry he], append_nil]

theorem driven_overUnshared (hus : ∀ entry ∈ us, entry.shared = false)
    (hss : ∀ entry ∈ ss, entry.shared = true) : Driven start k (overUnshared k) us ss where
  front s entry rest hk ha hs := by
    have hrest : ∀ other ∈ entry :: rest, other.shared = false :=
      fun other ho => hus other (hs.subset ho)
    have hu := ha.unshared
    rw [hk, nil_append, filter_append_of_shared hrest hss] at hu
    rw [overUnshared, hu, hrest entry mem_cons_self]
    rfl
  stop stats entry other he hev := by
    rw [overUnshared, hus entry he, Bool.not_false, Bool.true_and] at hev
    rw [overUnshared, hev, Bool.and_false]
  back entry he stats := by rw [overUnshared, hss entry he]; rfl

theorem driven_overUsed : Driven start k (overUsed k) us [] where
  front s entry rest hk ha _ := by
    have hu := ha.used
    rw [hk, nil_append, append_nil] at hu
    rw [overUsed, hu]
  stop _ _ _ _ he := he
  back := nofun

/-! ### The sweep by age -/

theorem runFrom_filter (p : Entry → Bool) (s : Swept) (todo : List Entry) :
    (runFrom (sweepStep always fun entry _ => p entry) s todo).kept =
      s.kept ++ todo.filter (!p ·) := by
  induction todo generalizing s with
  | nil => simp
  | cons entry todo ih =>
    rw [runFrom_cons, ih]
    cases hp : p entry with
    | true => rw [sweepStep_of_evict hp, filter_cons_of_neg (by simp [hp])]
    | false =>
      rw [sweepStep_of_not_evict hp, filter_cons_of_pos (by simp [hp]), append_assoc]
      rfl

section

variable (now : ℤ) (total free : ℕ) (entries : List Entry)

theorem ageSweep_kept : (ageSweep always now entries).kept = entries.filter (!expired now ·) :=
  runFrom_filter (expired now) ⟨[], initialStats entries⟩ entries

theorem ordered_eq : ordered always now entries = candidates now entries := by
  rw [ordered, ageSweep_kept, candidates]

theorem ageSweep_accounted : Accounted (bytes entries) (ageSweep always now entries) [] :=
  Accounted.run ⟨rfl, rfl, rfl⟩

theorem keyLe_trans (a b c : Entry) (hab : keyLe a b = true) (hbc : keyLe b c = true) :
    keyLe a c = true := by
  unfold keyLe at *
  grind

theorem keyLe_total (a b : Entry) : (keyLe a b || keyLe b a) = true := by
  unfold keyLe
  grind

theorem shared_of_keyLe {a b : Entry} (h : keyLe a b = true) (ha : a.shared = true) :
    b.shared = true := by
  unfold keyLe at h
  grind

/-- Where shared entries come last, a list is its unshared entries and its shared ones. -/
theorem eq_filter_append_filter {l : List Entry}
    (h : l.Pairwise fun a b => a.shared = true → b.shared = true) :
    l = l.filter (!·.shared) ++ l.filter (·.shared) := by
  induction l with
  | nil => rfl
  | cons entry l ih =>
    obtain ⟨he, hl⟩ := pairwise_cons.1 h
    cases hs : entry.shared with
    | false =>
      rw [filter_cons_of_pos (by simp [hs]), filter_cons_of_neg (by simp [hs]),
        cons_append, ← ih hl]
    | true =>
      have ha : ∀ other ∈ l, other.shared = true :=
        fun other ho => he other ho hs
      rw [filter_eq_nil_iff.2 (by simpa [hs] using ha),
        filter_eq_self.2 (by simpa [hs] using ha), nil_append]

theorem candidates_eq : candidates now entries = unshared now entries ++ shared now entries := by
  apply eq_filter_append_filter
  exact (pairwise_mergeSort keyLe_trans keyLe_total _).imp shared_of_keyLe

theorem shared_of_mem_unshared : ∀ entry ∈ unshared now entries, entry.shared = false :=
  fun entry he => by simpa using of_mem_filter he

theorem shared_of_mem_shared : ∀ entry ∈ shared now entries, entry.shared = true :=
  fun _ he => of_mem_filter he

theorem accounted_candidates : Accounted (bytes entries) ⟨[], (ageSweep always now entries).stats⟩
    (unshared now entries ++ shared now entries) := by
  have ha := ageSweep_accounted now entries
  have hp : (unshared now entries ++ shared now entries).Perm
      (ageSweep always now entries).kept := by
    rw [← candidates_eq, ageSweep_kept]
    exact mergeSort_perm _ _
  have hus := ha.used
  have hu := ha.unshared
  rw [append_nil] at hus hu
  refine ⟨?_, ?_, ha.removed⟩
  · rw [hus, nil_append, bytes_perm hp]
  · rw [hu, nil_append, bytes_perm (hp.filter _)]

theorem unsharedUsed_ageSweep :
    (ageSweep always now entries).stats.unsharedUsed = bytes (unshared now entries) := by
  rw [(accounted_candidates now entries).unshared, nil_append,
    filter_append_of_shared (shared_of_mem_unshared now entries) (shared_of_mem_shared now entries)]

theorem unsharedKeep_eq : unsharedKeep always now total free entries =
    keepBytes (bytes (unshared now entries)) free (.fromTotal total) := by
  rw [unsharedKeep, unsharedUsed_ageSweep]

theorem unsharedSweep_spec : (unsharedSweep always now total free entries).kept =
      remaining now total free entries ∧
    Accounted (bytes entries) ⟨[], (unsharedSweep always now total free entries).stats⟩
      (remaining now total free entries) := by
  have ha := accounted_candidates now entries
  have hkp := unsharedKeep_eq now total free entries
  have hu := unsharedUsed_ageSweep now entries
  unfold unsharedSweep remaining
  dsimp only
  rw [hkp, hu, ordered_eq, candidates_eq]
  split_ifs
  · set keep := keepBytes (bytes (unshared now entries)) free (.fromTotal total)
    have hk : (sweep always (unshared now entries ++ shared now entries)
        (ageSweep always now entries).stats (overUnshared keep)).kept =
          trim keep (unshared now entries) ++ shared now entries :=
      (driven_overUnshared (shared_of_mem_unshared now entries)
        (shared_of_mem_shared now entries)).kept rfl ha
    refine ⟨hk, ?_⟩
    rw [← hk]
    exact (Accounted.run ha).restart
  · exact ⟨rfl, ha⟩

theorem bytes_trim_le (keep : ℕ) : bytes (trim keep entries) ≤ keep := by
  fun_induction trim keep entries with
  | case1 => exact Nat.zero_le keep
  | case2 entry entries _ ih => exact ih
  | case3 entry entries h => omega

/-- **The limits hold in the end**; the counters are right. -/
theorem limitsHold_enforce (entries : List Entry) :
    let swept := (enforce always now total free entries).1
    Accounted (bytes entries) swept [] ∧ LimitsHold (.fromTotal total) free swept.stats := by
  intro swept
  obtain ⟨hkp, hr⟩ := unsharedSweep_spec now total free entries
  have hke : usedKeep always now total free entries ≤
      keepBytes (bytes entries) free (.fromTotal total) := by
    have hle := hr.removed
    simp only [usedKeep, keepBytes] at hle ⊢
    split_ifs <;> omega
  suffices h : Accounted (bytes entries) swept [] ∧
      swept.stats.used ≤ usedKeep always now total free entries from
    ⟨h.1, (limitsHold_iff h.1.removed total free).2 (h.2.trans hke)⟩
  simp only [swept, enforce, usedSweep, hkp]
  split_ifs with hlt
  · have hk := Driven.kept (k := usedKeep always now total free entries) driven_overUsed rfl
      ((append_nil (remaining now total free entries)).symm ▸ hr)
    rw [append_nil, append_nil] at hk
    refine ⟨hr.run, ?_⟩
    rw [sweep, hr.run.used, hk, append_nil]
    exact bytes_trim_le ..
  · refine ⟨?_, not_lt.1 hlt⟩
    rw [← hkp] at hr
    exact ⟨by simpa using hr.used, by simpa using hr.unshared, hr.removed⟩

end

/-- **Minimal sweeps.** No entry is removed when the limits hold exactly if no sum that is passed
lies between the target of the sweep and what the limits allow. -/
theorem minimal_iff (now : ℤ) (total free : ℕ) (entries : List Entry) :
    Minimal now total free entries ↔ Clear now total free entries := by
  have hc := accounted_candidates now entries
  have hk := unsharedKeep_eq now total free entries
  have hun := unsharedUsed_ageSweep now entries
  obtain ⟨hkp, hr⟩ := unsharedSweep_spec now total free entries
  have hus : (unsharedSweep always now total free entries).stats.used =
      bytes (remaining now total free entries) := hr.used
  have hu : usedKeep always now total free entries =
      keepBytes (bytes (remaining now total free entries)) free (.fromTotal total) := by
    rw [usedKeep, hus]
  have hf := Driven.along_iff (k := keepBytes (bytes (unshared now entries)) free
      (.fromTotal total)) total free (driven_overUnshared (shared_of_mem_unshared now entries)
        (shared_of_mem_shared now entries)) rfl hc
  have hl := Driven.along_iff (k := keepBytes (bytes (remaining now total free entries)) free
      (.fromTotal total)) total free driven_overUsed rfl
        ((append_nil (remaining now total free entries)).symm ▸ hr)
  rw [append_nil] at hl
  constructor
  · intro h
    refine ⟨fun hlt => hf.1 ?_, fun hlt => hl.1 ?_⟩
    · rw [← hk, ← candidates_eq, ← ordered_eq]
      exact h.unshared (by rwa [hk, hun])
    · rw [← hu, ← hkp]
      exact h.used (by rwa [hu, hus])
  · intro h
    refine ⟨fun hlt => ?_, fun hlt => ?_⟩
    · rw [hk, ordered_eq, candidates_eq]
      exact hf.2 (h.unshared (by rwa [hk, hun] at hlt))
    · rw [hu, hkp]
      exact hl.2 (h.remaining (by rwa [hu, hus] at hlt))

/-- An unshared file of 10 bytes. -/
def small : Entry := ⟨"blobs/sha256/a", 0, 10, 0, false, false⟩

/-- A newer one of 80 bytes. -/
def large : Entry := ⟨"blobs/sha256/b", 1, 80, 0, false, false⟩

theorem ordered_small_large : ordered always 0 [small, large] = [small, large] := by
  exact mergeSort_of_pairwise (by decide)

/-- On a disk of 100 bytes the cache may use 80. Without the first file it does, and the second one
is removed as well. -/
theorem exact_fit_removed : (enforce always 0 100 50 [small, large]).1.kept = [] ∧
    LimitsHold (.fromTotal 100) 50 (remove small (initialStats [small, large])) ∧
    ¬Minimal 0 100 50 [small, large] := by
  refine ⟨?_, .inl (by decide), fun h => ?_⟩
  · simp only [enforce, usedSweep, unsharedSweep, ordered_small_large]
    decide
  · have hr := h.unshared (by decide)
    rw [ordered_small_large] at hr
    exact hr.2.1 rfl (.inl (by decide))

end Muak.Provisiond.Prune
