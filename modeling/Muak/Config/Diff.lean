import Mathlib.Data.List.Nodup
import Mathlib.Tactic.SplitIfs
import Muak.Foundations.Result

/-!
# Differences of two configurations

`libs/config/src/system/mod.rs`: two documents are compared field by field, and what has changed is
reported with its path and the texts of the value before and after.

* `Differs`: the first place on a path where two values differ.
* `mem_places`, `nodup_places`, `diffValues_eq`: these places are reported, each of them once.
* `diff_spec`: nothing is reported of equal configurations only, no path goes on where another one
  ends, and with the reported values put into the first configuration it is the second one.

The decoder and the text of a value are parameters.
-/

namespace Muak.Config

open List

/-- A field name. -/
@[ext] structure Key where
  name : String
  ne_empty : name ≠ ""
  no_dot : '.' ∉ name.toList
  deriving DecidableEq

/-- A `toml::Value`: a scalar or an array, or a table with its keys in order. -/
inductive Value (α : Type)
  | leaf (scalar : α)
  | table (keys : List Key) (distinct : keys.Nodup) (value : Key → Value α)

variable {α : Type}

/-- A value as it is compared, without what is in a table. -/
def shape : Option (Value α) → Option (Option α)
  | none => none
  | some (.leaf scalar) => some (some scalar)
  | some (.table ..) => some none

/-- Why a document is refused. -/
inductive ConfigError
  | toml (message : String)
  | unsupportedVersion (found supported : String)

/-- The documents and their values. The text of a value is not empty and tells it from others. -/
structure Codec (κ α : Type) where
  decode : String → Except ConfigError κ
  apiVersion : κ → String
  tryFrom : κ → Except ConfigError (Value α)
  text : Value α → String
  shape_tryFrom : ∀ config v, tryFrom config = .ok v → shape (some v) = some none
  text_ne : ∀ v, text v ≠ ""
  shape_eq : ∀ v w, text v = text w → shape (some v) = shape (some w)

def apiVersion : String := "muak.dev/config/v1-beta"

def joinPath (start key : String) : String := if start = "" then key else start ++ "." ++ key

section

variable {κ : Type} [DecidableEq α] (codec : Codec κ α)

/-- A document of the supported version. -/
def decode (contents : String) : Except ConfigError κ := do
  let config ← codec.decode contents
  if codec.apiVersion config ≠ apiVersion then
    throw (.unsupportedVersion (codec.apiVersion config) apiVersion)
  return config

/-- What differs below a path: changed, removed and added values. -/
def diffValues : String → Value α → Value α → List (String × String × String)
  | start, .table keys _ value, .table keys' _ value' =>
    keys.flatMap (fun key =>
      if key ∈ keys' then diffValues (joinPath start key.name) (value key) (value' key)
      else [(joinPath start key.name, codec.text (value key), "")]) ++
    (keys'.filter (· ∉ keys)).map fun key => (joinPath start key.name, "", codec.text (value' key))
  | start, before, after =>
    if shape (some before) = shape (some after) then []
    else [(start, codec.text before, codec.text after)]

/-- The value that a document is compared by. -/
def serialized (contents : String) : Except ConfigError (Value α) := do
  codec.tryFrom (← decode codec contents)

/-- What differs between two documents. -/
def diff (before after : String) : Except ConfigError (List (String × String × String)) := do
  let before ← serialized codec before
  let after ← serialized codec after
  return diffValues codec "" before after

end

/-! ## Places -/

/-- The value of a key of a table. -/
def child : Option (Value α) → Key → Option (Value α)
  | some (.table keys _ value), key => if key ∈ keys then some (value key) else none
  | _, _ => none

def find (v : Option (Value α)) (path : List Key) : Option (Value α) := path.foldl child v

def Same (v w : Option (Value α)) : Prop := ∀ path, shape (find v path) = shape (find w path)

/-- The first place on a path where two values differ is at its end. -/
def Differs : Option (Value α) → Option (Value α) → List Key → Prop
  | v, w, [] => shape v ≠ shape w
  | v, w, key :: path => shape v = shape w ∧ Differs (child v key) (child w key) path

variable {v w : Option (Value α)} {path rest : List Key}

theorem differs_comm : Differs v w path ↔ Differs w v path := by
  induction path generalizing v w with
  | nil => exact ne_comm
  | cons key path ih => rw [Differs, Differs, ih, eq_comm]

theorem shape_ne_of_differs (h : Differs v w path) : shape (find v path) ≠ shape (find w path) := by
  induction path generalizing v w with
  | nil => exact h
  | cons key path ih => exact ih h.2

theorem exists_differs_of_ne (h : shape (find v path) ≠ shape (find w path)) :
    ∃ place, place <+: path ∧ Differs v w place := by
  induction path generalizing v w with
  | nil => exact ⟨[], prefix_rfl, h⟩
  | cons key path ih =>
    by_cases hshape : shape v = shape w
    · obtain ⟨place, hp, hd⟩ := ih h
      exact ⟨key :: place, cons_prefix_cons.2 ⟨rfl, hp⟩, hshape, hd⟩
    · exact ⟨[], nil_prefix, hshape⟩

theorem eq_nil_of_differs_append (h : Differs v w path) (h' : Differs v w (path ++ rest)) :
    rest = [] := by
  induction path generalizing v w with
  | nil =>
    cases rest with
    | nil => rfl
    | cons key rest => exact absurd h'.1 h
  | cons key path ih => exact ih h.2 h'.2

theorem not_differs_self (v : Option (Value α)) : ¬Differs v v path :=
  fun h => shape_ne_of_differs h rfl

theorem differs_iff_of_ne (h : shape v ≠ shape w) : Differs v w path ↔ path = [] := by
  cases path with
  | nil => exact iff_of_true h rfl
  | cons key path => exact iff_of_false (fun hp => h hp.1) (by simp)

theorem differs_none {v : Value α} :
    (Differs (some v) none path ↔ path = []) ∧ (Differs none (some v) path ↔ path = []) := by
  have h : shape (some v) ≠ shape none := by cases v <;> simp [shape]
  exact ⟨differs_iff_of_ne h, differs_iff_of_ne h.symm⟩

/-! ## Paths -/

def pathFrom (start : String) (path : List Key) : String :=
  path.foldl (fun start key => joinPath start key.name) start

theorem splitOn_pathFrom {start : String} (h : start ≠ "") (path : List Key) :
    (pathFrom start path).toList.splitOn '.' =
      start.toList.splitOn '.' ++ path.map (·.name.toList) := by
  induction path generalizing start with
  | nil => simp [pathFrom]
  | cons key path ih =>
    have hj : joinPath start key.name = start ++ "." ++ key.name := if_neg h
    have hs : (start ++ "." ++ key.name).toList.splitOn '.' =
        start.toList.splitOn '.' ++ [key.name.toList] := by
      rw [← splitOn_eq_singleton key.no_dot, ← splitOn_append_cons_self]
      simp
    rw [pathFrom, foldl_cons, hj, ← pathFrom, ih (by simp), hs, map_cons]
    simp

/-- Split at the dots, neither path begins with the other one. -/
def Apart (s t : String) : Prop :=
  ¬s.toList.splitOn '.' <+: t.toList.splitOn '.' ∧ ¬t.toList.splitOn '.' <+: s.toList.splitOn '.'

/-- The keys of a path are read off its text. -/
theorem splitOn_of_differs (hv : shape v = shape w) (h : Differs v w path) :
    (pathFrom "" path).toList.splitOn '.' = path.map (·.name.toList) := by
  cases path with
  | nil => exact absurd hv h
  | cons key path =>
    refine (splitOn_pathFrom key.ne_empty path).trans ?_
    rw [splitOn_eq_singleton key.no_dot]
    rfl

theorem apart_of_differs (hv : shape v = shape w) (h : Differs v w path) (h' : Differs v w rest)
    (hne : path ≠ rest) : Apart (pathFrom "" path) (pathFrom "" rest) := by
  have hi : Function.Injective fun key : Key => key.name.toList := fun key key' heq =>
    Key.ext (String.toList_inj.1 heq)
  have heq {p q : List Key} (hp : Differs v w p) (hq : Differs v w q)
      (hpq : p.map (·.name.toList) <+: q.map (·.name.toList)) : p = q := by
    obtain ⟨front, back, rfl, hf, -⟩ := map_eq_append_iff.1 hpq.choose_spec.symm
    obtain rfl := map_injective_iff.2 hi hf
    rw [eq_nil_of_differs_append hp hq, append_nil]
  rw [Apart, splitOn_of_differs hv h, splitOn_of_differs hv h']
  exact ⟨fun hpq => hne (heq h h' hpq), fun hpq => hne (heq h' h hpq).symm⟩

/-! ## Reports -/

variable {κ : Type} (codec : Codec κ α)

def shown (v : Option (Value α)) : String := (v.map codec.text).getD ""

def report (v w : Option (Value α)) (start : String) (path : List Key) : String × String × String :=
  (pathFrom start path, shown codec (find v path), shown codec (find w path))

theorem shown_eq_empty_iff : shown codec v = "" ↔ v = none := by
  cases v with
  | none => exact iff_of_true rfl rfl
  | some v => simpa [shown] using codec.text_ne v

theorem shown_ne (h : shape v ≠ shape w) : shown codec v ≠ shown codec w := by
  intro heq
  cases v with
  | none => exact h (congrArg shape ((shown_eq_empty_iff codec).1 heq.symm).symm)
  | some v =>
    cases w with
    | none => exact h (congrArg shape ((shown_eq_empty_iff codec).1 heq))
    | some w => exact h (codec.shape_eq v w heq)

/-- What is at a path once the values at some places are replaced. -/
def patched (v : Option (Value α)) (changes : List (List Key × Option (Value α)))
    (path : List Key) : Option (Value α) :=
  match changes.find? (·.1.isPrefixOf path) with
  | some (place, new) => find new (path.drop place.length)
  | none => find v path

variable [DecidableEq α]

/-- The places that are reported. -/
def places : Value α → Value α → List (List Key)
  | .table keys _ value, .table keys' _ value' =>
    (keys ++ keys'.filter (· ∉ keys)).flatMap fun key =>
      (if key ∈ keys ∧ key ∈ keys' then places (value key) (value' key) else [[]]).map (key :: ·)
  | v, w => if shape (some v) = shape (some w) then [] else [[]]

theorem mem_places (v w : Value α) : path ∈ places v w ↔ Differs (some v) (some w) path := by
  induction v generalizing w path with
  | leaf a =>
    cases w with
    | leaf b => cases path <;> simp [places, Differs, child, not_differs_self]
    | table => cases path <;> simp [places, Differs, shape]
  | table keys distinct value ih =>
    cases w with
    | leaf b => cases path <;> simp [places, Differs, shape]
    | table keys' distinct' value' =>
      cases path with
      | nil => simp [places, Differs, shape]
      | cons key path =>
        have hn : ¬Differs (none : Option (Value α)) none path := not_differs_self none
        by_cases hk : key ∈ keys <;> by_cases hk' : key ∈ keys' <;>
          simp [places, Differs, shape, child, hk, hk', hn, ih, differs_none]

theorem nodup_places (v w : Value α) : (places v w).Nodup := by
  induction v generalizing w with
  | leaf a =>
    rw [places]
    split_ifs <;> simp
    simp
  | table keys distinct value ih =>
    cases w with
    | leaf b => simp [places, shape]
    | table keys' distinct' value' =>
      have hk : (keys ++ keys'.filter (· ∉ keys)).Nodup :=
        distinct.append (distinct'.filter _) fun key hky hky' => by simp_all
      refine nodup_flatMap.2 ⟨fun key _ => Nodup.map cons_injective ?_, hk.imp ?_⟩
      · split_ifs
        · exact ih key (value' key)
        · exact nodup_singleton []
      · intro key key' hne path hp hp'
        obtain ⟨rest, -, rfl⟩ := mem_map.1 hp
        obtain ⟨rest', -, heq⟩ := mem_map.1 hp'
        exact hne (cons.inj heq).1.symm

/-- **The places where two values differ are reported**, from the path where they stand on. -/
theorem diffValues_eq (v w : Value α) (start : String) :
    diffValues codec start v w = (places v w).map (report codec (some v) (some w) start) := by
  induction v generalizing w start with
  | leaf a =>
    rw [diffValues, places]
    · split_ifs <;> rfl
    · simp
    · simp
  | table keys distinct value ih =>
    cases w with
    | leaf b => rfl
    | table keys' distinct' value' =>
      rw [diffValues, places, map_flatMap, flatMap_append, map_eq_flatMap]
      congr 1
      · refine flatMap_congr fun key hk => ?_
        by_cases hk' : key ∈ keys'
        · rw [if_pos hk', if_pos ⟨hk, hk'⟩, ih, map_map]
          refine map_congr_left fun path _ => ?_
          simp [report, pathFrom, find, child, hk, hk']
        · simp [report, pathFrom, find, child, shown, hk, hk']
      · refine flatMap_congr fun key hk => ?_
        rw [mem_filter, decide_eq_true_eq] at hk
        simp [report, pathFrom, find, child, shown, hk]

theorem shape_patched (v w : Value α) (path : List Key) :
    shape (patched (some v) ((places v w).map fun place => (place, find (some w) place)) path) =
      shape (find (some w) path) := by
  rw [patched]
  split
  · rename_i place new hf
    obtain ⟨place, -, rfl, rfl⟩ := mem_map.1 (mem_of_find?_eq_some hf)
    have hp : place.isPrefixOf path = true := by simpa using find?_some hf
    obtain ⟨rest, rfl⟩ := isPrefixOf_iff_prefix.1 hp
    rw [drop_left, find, find, find, foldl_append]
  · rename_i hf
    by_contra hne
    obtain ⟨place, hp, hd⟩ := exists_differs_of_ne hne
    have hb := isPrefixOf_iff_prefix.2 hp
    exact absurd hb (find?_eq_none.1 hf _ (mem_map_of_mem ((mem_places v w).2 hd)))

/-- **Differences of two configurations.** What is reported are the places where they differ, with
the same ones the other way round. There are none between equal configurations only, no path begins
with another one, the texts differ and are empty for missing values, and with the values after in
these places the first configuration is the second one. -/
theorem diff_spec {before after : String} {b a : Value α} (hb : serialized codec before = .ok b)
    (ha : serialized codec after = .ok a) :
    diff codec before after = .ok ((places b a).map (report codec (some b) (some a) "")) ∧
    diff codec after before = .ok ((places a b).map (report codec (some a) (some b) "")) ∧
    (places a b).Perm (places b a) ∧
    (places b a = [] ↔ Same (some b) (some a)) ∧
    ((places b a).map (pathFrom "")).Pairwise Apart ∧
    (∀ path ∈ places b a, shown codec (find (some b) path) ≠ shown codec (find (some a) path)) ∧
    (∀ v : Option (Value α), shown codec v = "" ↔ v = none) ∧
    ∀ path, shape (patched (some b) ((places b a).map fun place => (place, find (some a) place))
      path) = shape (find (some a) path) := by
  have ht {contents : String} {v : Value α} (h : serialized codec contents = .ok v) :
      shape (some v) = some none := by
    obtain ⟨config, -, hc⟩ := of_bind h
    exact codec.shape_tryFrom config v hc
  have hd {before after : String} {b a : Value α} (hb : serialized codec before = .ok b)
      (ha : serialized codec after = .ok a) : diff codec before after =
        .ok ((places b a).map (report codec (some b) (some a) "")) := by
    rw [diff, hb, ha, ← diffValues_eq]
    rfl
  refine ⟨hd hb ha, hd ha hb, ?_, ?_, ?_, fun path hp => ?_,
    fun v => shown_eq_empty_iff codec, shape_patched b a⟩
  · refine (perm_ext_iff_of_nodup (nodup_places a b) (nodup_places b a)).2 fun path => ?_
    rw [mem_places, mem_places, differs_comm]
  · rw [eq_nil_iff_forall_not_mem]
    simp only [mem_places]
    refine ⟨fun h path => ?_, fun h path hp => shape_ne_of_differs hp (h path)⟩
    by_contra hne
    obtain ⟨place, -, hpl⟩ := exists_differs_of_ne hne
    exact h place hpl
  · refine pairwise_map.2 ((nodup_places b a).imp_of_mem fun hp hrest hne => ?_)
    rw [mem_places] at hp hrest
    exact apart_of_differs ((ht hb).trans (ht ha).symm) hp hrest hne
  · exact shown_ne codec (shape_ne_of_differs ((mem_places b a).1 hp))

/-- **Changes in steps**: what differs in the end was reported on the way, at its path or above. -/
theorem places_subset (v w u : Value α) : {path | path ∈ places v u} ⊆
    {path | ∃ place, place <+: path ∧ (place ∈ places v w ∨ place ∈ places w u)} := by
  simp only [mem_places]
  intro path hp
  have hne := shape_ne_of_differs hp
  by_cases h : shape (find (some v) path) = shape (find (some w) path)
  · exact (exists_differs_of_ne (h ▸ hne)).imp fun _ hd => hd.imp_right .inr
  · exact (exists_differs_of_ne h).imp fun _ hd => hd.imp_right .inl

/-- A document of two fields, the first one a table, and what becomes of it. -/
def document (after : Bool) : Value Bool :=
  .table [⟨"host", by decide, by decide⟩,
      if after then ⟨"vm", by decide, by decide⟩ else ⟨"dns", by decide, by decide⟩]
    (by cases after <;> decide) fun key =>
      if key.name = "host" then
        .table [⟨"secureboot", by decide, by decide⟩] (nodup_singleton _) fun _ => .leaf after
      else .leaf true

def documentCodec : Codec Bool Bool where
  decode contents := .ok (contents = "after")
  apiVersion _ := apiVersion
  tryFrom after := .ok (document after)
  text
    | .leaf true => "true"
    | .leaf false => "false"
    | .table .. => "{}"
  shape_tryFrom config v h := by
    cases h
    rfl
  text_ne v := by
    rcases v with (_ | _) | _ <;> simp
  shape_eq v w := by
    rcases v with (_ | _) | _ <;> rcases w with (_ | _) | _ <;> simp [shape]

/-- A value in the table changes, one field goes and another one comes. -/
theorem diff_spec_fields : diff documentCodec "before" "after" =
      .ok [("host.secureboot", "false", "true"), ("dns", "true", ""), ("vm", "", "true")] ∧
    diff documentCodec "after" "before" =
      .ok [("host.secureboot", "true", "false"), ("vm", "true", ""), ("dns", "", "true")] := by
  obtain ⟨hd, hb, -⟩ := @diff_spec _ _ documentCodec _ "before" "after" _ _ rfl rfl
  exact ⟨hd.trans rfl, hb.trans rfl⟩

end Muak.Config
