import Mathlib.Data.List.Nodup
import Mathlib.Data.List.Lookmap

/-!
# Dictionaries with a fixed iteration order

The maps of the modelled programs are hash maps. A `Dict` is the list of the entries in the order
the map iterates over them, with distinct keys. Inserting at a key that is present replaces the
value in place, as a hash map does; a new key goes to the end. The order is otherwise arbitrary,
so a theorem about every dictionary holds for every iteration order.
-/

namespace Muak

open List

/-- A finite map from `κ` to `ν`: entries with distinct keys. -/
structure Dict (κ ν : Type*) where
  entries : List (κ × ν)
  nodup : (entries.map Prod.fst).Nodup

namespace Dict

variable {κ ν : Type*}

/-- The map without entries. -/
def empty : Dict κ ν := ⟨[], nodup_nil⟩

instance : Inhabited (Dict κ ν) := ⟨empty⟩

/-- The keys, in iteration order. -/
def keys (d : Dict κ ν) : List κ := d.entries.map Prod.fst

variable [DecidableEq κ]

/-- The value at a key. -/
def get? (d : Dict κ ν) (k : κ) : Option ν := d.entries.lookup k

/-- Replace the value of `k` in a list of entries. -/
def setValue (k : κ) (v : ν) (l : List (κ × ν)) : List (κ × ν) :=
  l.map fun e => if e.1 = k then (k, v) else e

theorem map_fst_setValue (k : κ) (v : ν) (l : List (κ × ν)) :
    (setValue k v l).map Prod.fst = l.map Prod.fst := by
  simp only [setValue, map_map]
  refine map_congr_left fun e _ => ?_
  by_cases h : e.1 = k <;> simp [h]

/-- Set the value at `k`, in place when `k` is present. -/
def insert (d : Dict κ ν) (k : κ) (v : ν) : Dict κ ν :=
  if h : k ∈ d.keys then ⟨setValue k v d.entries, by rw [map_fst_setValue]; exact d.nodup⟩
  else ⟨d.entries ++ [(k, v)], by
    rw [map_append, nodup_append]
    refine ⟨d.nodup, by simp, ?_⟩
    rintro a ha b hb rfl
    simp only [map_cons, map_nil, mem_singleton] at hb
    exact h (hb ▸ ha)⟩

/-- Remove the entry of `k`. -/
def erase (d : Dict κ ν) (k : κ) : Dict κ ν :=
  ⟨d.entries.filter (·.1 ≠ k), (filter_sublist.map Prod.fst).nodup d.nodup⟩

/-- Collect entries into a map; a later entry replaces an earlier one of the same key. -/
def ofList (l : List (κ × ν)) : Dict κ ν := l.foldl (fun d e => d.insert e.1 e.2) empty

/-! ## Lookups -/

variable {l : List (κ × ν)} {k : κ} {v : ν}

theorem lookup_eq_some_iff (hl : (l.map Prod.fst).Nodup) : l.lookup k = some v ↔ (k, v) ∈ l := by
  induction l with
  | nil => simp
  | cons e l ih =>
    obtain ⟨k', v'⟩ := e
    rw [map_cons, nodup_cons] at hl
    by_cases h : k = k'
    · subst h
      -- the head is the only entry with this key
      have hn : (k, v) ∉ l := fun hm => hl.1 (mem_map.2 ⟨_, hm, rfl⟩)
      simp [hn, eq_comm]
    · have hne : (k == k') = false := by simpa using h
      simp [lookup_cons, hne, ih hl.2, h]

variable {d : Dict κ ν}

theorem get?_eq_some_iff : d.get? k = some v ↔ (k, v) ∈ d.entries := lookup_eq_some_iff d.nodup

theorem mem_keys_iff : k ∈ d.keys ↔ ∃ v, d.get? k = some v := by
  simp only [get?_eq_some_iff, keys, mem_map]
  constructor
  · rintro ⟨⟨k', v⟩, h, rfl⟩
    exact ⟨v, h⟩
  · rintro ⟨v, h⟩
    exact ⟨(k, v), h, rfl⟩

theorem get?_eq_none_iff : d.get? k = none ↔ k ∉ d.keys := by
  rw [mem_keys_iff, Option.eq_none_iff_forall_ne_some, not_exists]

@[simp] theorem get?_empty (k : κ) : (empty : Dict κ ν).get? k = none := rfl

theorem mem_setValue {e : κ × ν} :
    e ∈ setValue k v l ↔ (e ∈ l ∧ e.1 ≠ k) ∨ (e = (k, v) ∧ k ∈ l.map Prod.fst) := by
  simp only [setValue, mem_map]
  constructor
  · rintro ⟨e', he', rfl⟩
    by_cases h : e'.1 = k
    · exact .inr ⟨by simp [h], e', he', h⟩
    · exact .inl ⟨by simpa [h] using he', by simp [h]⟩
  · rintro (⟨he, hne⟩ | ⟨rfl, e', he', h⟩)
    · exact ⟨e, he, by simp [hne]⟩
    · exact ⟨e', he', by simp [h]⟩

variable (d)

theorem get?_insert (k : κ) (v : ν) (k' : κ) :
    (d.insert k v).get? k' = if k' = k then some v else d.get? k' := by
  apply Option.ext
  intro v'
  rw [get?_eq_some_iff, insert]
  by_cases hk : k ∈ d.keys
  · simp only [hk, dif_pos, mem_setValue]
    by_cases h : k' = k
    · subst h
      simp [show k' ∈ d.entries.map Prod.fst from hk, eq_comm]
    · simp [h, get?_eq_some_iff]
  · simp only [hk]
    by_cases h : k' = k
    · subst h
      have hn : (k', v') ∉ d.entries := fun hm => hk (mem_map.2 ⟨_, hm, rfl⟩)
      simp [hn, eq_comm]
    · simp [h, get?_eq_some_iff]

@[simp] theorem get?_insert_self (k : κ) (v : ν) :
    (d.insert k v).get? k = some v := by rw [get?_insert, if_pos rfl]

theorem get?_insert_of_ne {k k' : κ} (v : ν) (h : k' ≠ k) :
    (d.insert k v).get? k' = d.get? k' := by rw [get?_insert, if_neg h]

theorem get?_erase (k k' : κ) : (d.erase k).get? k' = if k' = k then none else d.get? k' := by
  apply Option.ext
  intro v
  rw [get?_eq_some_iff, erase]
  by_cases h : k' = k
  · simp [h]
  · simp [h, get?_eq_some_iff]

theorem length_keys_insert_le (k : κ) (v : ν) : (d.insert k v).keys.length ≤ d.keys.length + 1 := by
  unfold insert keys
  split_ifs
  · rw [map_fst_setValue]
    omega
  · simp

variable {d}

theorem erase_of_not_mem (h : k ∉ d.keys) : d.erase k = d := by
  have hf : d.entries.filter (·.1 ≠ k) = d.entries := by
    refine filter_eq_self.2 fun e he => ?_
    have hne : e.1 ≠ k := fun heq => h (mem_map.2 ⟨e, he, heq⟩)
    simpa using hne
  simp only [erase, hf]

theorem mem_keys_insert {k k' : κ} : k' ∈ (d.insert k v).keys ↔ k' = k ∨ k' ∈ d.keys := by
  rw [mem_keys_iff, mem_keys_iff, get?_insert]
  by_cases h : k' = k
  · simp [h]
  · simp [h]

theorem mem_keys_ofList : k ∈ (ofList l).keys ↔ k ∈ l.map Prod.fst := by
  suffices H : ∀ d : Dict κ ν, k ∈ (l.foldl (fun d e => d.insert e.1 e.2) d).keys ↔
      k ∈ l.map Prod.fst ∨ k ∈ d.keys by
    exact (H empty).trans (or_iff_left not_mem_nil)
  induction l with
  | nil => simp
  | cons e l ih =>
    intro d
    rw [foldl_cons, ih, mem_keys_insert, map_cons, mem_cons]
    tauto

theorem mem_of_get?_ofList (h : (ofList l).get? k = some v) : (k, v) ∈ l := by
  suffices H : ∀ d : Dict κ ν, (l.foldl (fun d e => d.insert e.1 e.2) d).get? k = some v →
      (k, v) ∈ l ∨ d.get? k = some v by
    simpa using H empty h
  clear h
  induction l with
  | nil => exact fun d hd => .inr hd
  | cons e l ih =>
    intro d hd
    rcases ih (d.insert e.1 e.2) hd with hm | hm
    · exact .inl (mem_cons_of_mem e hm)
    · rw [get?_insert] at hm
      by_cases he : k = e.1
      · rw [if_pos he, Option.some.injEq] at hm
        exact .inl (mem_cons.2 (.inl (Prod.ext he hm.symm)))
      · rw [if_neg he] at hm
        exact .inr hm

end Dict

end Muak
