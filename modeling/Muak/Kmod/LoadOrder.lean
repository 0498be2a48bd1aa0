import Muak.Foundations.DepthFirst
import Muak.Kmod.Deps

/-!
# The load order of modules

`DepDb::resolve_load_order` of `libs/kmod/src/deps.rs`: a depth-first search over the indexes of the
database that collects the paths in post-order.

* `Simulates`, `simulates_visit`: the search over indexes is one over the modules of the text.
* `load_order_correct`: it ends, and its result is the order in which modules are to be loaded.
-/

namespace Muak.Kmod

open Relation List Option

/-! ## The search -/

/-- The modules in order, and which were visited. -/
structure State where
  order : List (List Char)
  visited : List Bool

namespace DepDb

variable (db : DepDb)

/-- `none` when the fuel does not suffice. -/
def visit : ℕ → ℕ → State → Option State
  | 0, _, _ => none
  | fuel + 1, index, s =>
    match s.visited[index]? with
    | none => some s
    | some true => some s
    | some false =>
      let s := { s with visited := s.visited.set index true }
      match db.modules[index]? with
      | none => some s
      | some entry => do
        let s ← ((db.depsOf entry).filterMap db.find).foldlM (fun s dep => visit fuel dep s) s
        some { s with order := s.order ++ [slice db.text entry.path] }

/-- The result, when the fuel suffices. -/
def resolveLoadOrder (fuel : ℕ) (moduleName : List Char) : Option (Option (List (List Char))) :=
  match db.find moduleName with
  | none => some none
  | some start =>
    (db.visit fuel start ⟨[], List.replicate db.modules.length false⟩).map fun s => some s.order

end DepDb

/-! ## The modules of a text as a graph -/

/-- `d` is in the database, and `m` names it as a dependency. -/
def DependsOn (text : List Char) (m d : Module) : Prop :=
  d ∈ modulesOf text ∧ ∃ dep ∈ m.deps, canonical d.name = canonical dep

/-- The module of a name. -/
def lookup (text name : List Char) : Option Module :=
  (modulesOf text).find? fun m => canonical m.name = canonical name

/-- The dependencies of a module that are in the database. -/
def dependencies (text : List Char) (m : Module) : List Module := m.deps.filterMap (lookup text)

variable {text : List Char} {m : Module}

theorem eq_of_canonical_eq (h : DistinctNames text) {m m' : Module} (hm : m ∈ modulesOf text)
    (hm' : m' ∈ modulesOf text) (hn : canonical m.name = canonical m'.name) : m = m' :=
  inj_on_of_nodup_map h hm hm' hn

theorem lookup_eq_some_iff (h : DistinctNames text) {name : List Char} :
    lookup text name = some m ↔ m ∈ modulesOf text ∧ canonical m.name = canonical name := by
  unfold lookup
  constructor
  · intro hf
    exact ⟨mem_of_find?_eq_some hf, by simpa using find?_some hf⟩
  · rintro ⟨hm, hn⟩
    cases hf : (modulesOf text).find? fun m => canonical m.name = canonical name with
    | none =>
      have := find?_eq_none.1 hf m hm
      exact absurd hn (by simpa using this)
    | some m' =>
      have hn' : canonical m'.name = canonical name := by simpa using find?_some hf
      rw [eq_of_canonical_eq h (mem_of_find?_eq_some hf) hm (hn'.trans hn.symm)]

theorem edge_dependencies (h : DistinctNames text) :
    DepthFirst.Edge (dependencies text) = DependsOn text := by
  funext m d
  refine propext ?_
  simp only [DepthFirst.Edge, dependencies, mem_filterMap, lookup_eq_some_iff h]
  exact ⟨fun ⟨dep, hdp, hd, hn⟩ => ⟨hd, dep, hdp, hn⟩,
    fun ⟨hd, dep, hdp, hn⟩ => ⟨dep, hdp, hd, hn⟩⟩

/-- The search by name finds the index of the module. -/
theorem find_eq (h : DistinctNames text) (name : List Char) :
    match lookup text name with
    | some m => ∃ index, (load text).find name = some index ∧ (load text).moduleAt index = some m
    | none => (load text).find name = none := by
  cases hl : lookup text name with
  | some m =>
    obtain ⟨hm, hn⟩ := (lookup_eq_some_iff h).1 hl
    obtain ⟨index, hi⟩ := exists_moduleAt_iff.2 hm
    exact ⟨index, (find_eq_some_iff h).2 ⟨m, hi, hn⟩, hi⟩
  | none =>
    refine eq_none_iff_forall_ne_some.2 fun index hf => ?_
    obtain ⟨m, hm, hn⟩ := (find_eq_some_iff h).1 hf
    have := (lookup_eq_some_iff h).2 ⟨exists_moduleAt_iff.1 ⟨index, hm⟩, hn⟩
    rw [hl] at this
    exact absurd this (by simp)

/-! ## The search over indexes is one over modules -/

/-- The states of the two searches belong together. -/
structure Simulates (text : List Char) (s : State) (t : DepthFirst.State Module) : Prop where
  length : s.visited.length = (load text).modules.length
  visited : ∀ index m, (load text).moduleAt index = some m →
    (s.visited[index]? = some true ↔ m ∈ t.visited)
  order : s.order = t.order.map Module.path

theorem simulates_init (text : List Char) :
    Simulates text ⟨[], List.replicate (load text).modules.length false⟩ .init where
  length := length_replicate
  visited index m _ := by
    simp [getElem?_replicate, DepthFirst.State.init]
  order := rfl

theorem Simulates.mark (h : DistinctNames text) {s : State} {t : DepthFirst.State Module}
    (hs : Simulates text s t) {index : ℕ} (hm : (load text).moduleAt index = some m) :
    Simulates text { s with visited := s.visited.set index true } (t.mark m) where
  length := by rw [length_set, hs.length]
  visited index' m' hm' := by
    obtain ⟨entry, he, -⟩ := map_eq_some_iff.1 hm
    obtain ⟨hi, -⟩ := List.getElem?_eq_some_iff.1 he
    rw [DepthFirst.State.mark, Finset.mem_insert, ← hs.visited index' m' hm']
    by_cases heq : index = index'
    · subst heq
      rw [hm, some.injEq] at hm'
      rw [getElem?_set_self (by rw [hs.length]; exact hi)]
      simp [hm']
    · rw [getElem?_set_ne heq]
      refine (or_iff_right fun hmm => heq ?_).symm
      exact moduleAt_inj h hm (hmm ▸ hm')
  order := hs.order

/-- **The search over indexes does what the search over modules does.** -/
theorem simulates_visit (h : DistinctNames text) {fuel index : ℕ} {s : State}
    {t t' : DepthFirst.State Module} (hs : Simulates text s t)
    (hm : (load text).moduleAt index = some m)
    (hv : DepthFirst.visit (dependencies text) fuel m t = some t') :
    ∃ s', (load text).visit fuel index s = some s' ∧ Simulates text s' t' := by
  induction fuel generalizing index m s t t' with
  | zero => exact absurd hv (by simp [DepthFirst.visit])
  | succ fuel ih =>
    have hfo : ∀ (deps : List (List Char)) (s : State) (t t' : DepthFirst.State Module),
        Simulates text s t → (deps.filterMap (lookup text)).foldlM
          (fun t d => DepthFirst.visit (dependencies text) fuel d t) t = some t' →
        ∃ s', (deps.filterMap (load text).find).foldlM
          (fun s dep => (load text).visit fuel dep s) s = some s' ∧ Simulates text s' t' := by
      intro deps
      induction deps with
      | nil =>
        intro s t t' hs ht
        exact ⟨s, rfl, by rwa [← some.inj ht]⟩
      | cons dep deps ihdeps =>
        intro s t t' hs ht
        have hf := find_eq h dep
        rw [filterMap_cons] at ht ⊢
        cases hl : lookup text dep with
        | none =>
          rw [hl] at ht hf
          rw [show (load text).find dep = none from hf]
          exact ihdeps s t t' hs ht
        | some d =>
          rw [hl] at ht hf
          obtain ⟨j, hj, hmd⟩ := hf
          obtain ⟨t₁, ht₁, ht⟩ := bind_eq_some_iff.1 ht
          obtain ⟨s₁, hs₁, hsm⟩ := ih hs hmd ht₁
          obtain ⟨s', hs', hsm'⟩ := ihdeps s₁ t₁ t' hsm ht
          rw [hj]
          exact ⟨s', bind_eq_some_iff.2 ⟨s₁, hs₁, hs'⟩, hsm'⟩
    obtain ⟨entry, he, hvw⟩ := map_eq_some_iff.1 hm
    obtain ⟨hi, -⟩ := List.getElem?_eq_some_iff.1 he
    rw [DepthFirst.visit] at hv
    unfold DepDb.visit
    split_ifs at hv with hsn
    · rw [(hs.visited index m hm).2 hsn]
      exact ⟨s, rfl, by rwa [← some.inj hv]⟩
    · have hu : s.visited[index]? = some false := by
        have hfl := getElem?_eq_getElem (hi.trans_eq hs.length.symm)
        have hne := mt (hs.visited index m hm).1 hsn
        rw [hfl, some.injEq, Bool.not_eq_true] at hne
        rw [hfl, hne]
      obtain ⟨t₁, ht₁, rfl⟩ := map_eq_some_iff.1 hv
      subst hvw
      obtain ⟨s₁, hs₁, hsm⟩ := hfo _ _ _ _ (hs.mark h hm) ht₁
      rw [hu]
      simp only [he]
      refine ⟨_, bind_eq_some_iff.2 ⟨s₁, hs₁, rfl⟩, hsm.length, hsm.visited, ?_⟩
      rw [DepthFirst.State.finish, map_append, hsm.order]
      rfl

/-! ## The load order -/

/-- Paths of modules in the order in which they are to be loaded, for the module of a name. -/
structure IsLoadOrder (text name : List Char) (order : List (List Char)) : Prop where
  /-- No path comes twice. -/
  nodup : order.Nodup
  /-- The modules that are needed for the one that is asked for, which comes last; without cycles
  each comes after its dependencies. -/
  modules : ∃ root ∈ modulesOf text, canonical root.name = canonical name ∧
    ∃ ms : List Module, order = ms.map Module.path ∧ ms.getLast? = some root ∧
      (∀ m, m ∈ ms ↔ ReflTransGen (DependsOn text) root m) ∧
      ((∀ m, ReflTransGen (DependsOn text) root m → ¬TransGen (DependsOn text) m m) →
        ∀ before m after, ms = before ++ m :: after → ∀ d, DependsOn text m d → d ∈ before)

theorem moduleName_path (hm : m ∈ modulesOf text) : moduleName m.path = some m.name := by
  obtain ⟨line, -, hl⟩ := mem_filterMap.1 hm
  obtain ⟨⟨rawPath, deps⟩, -, hl⟩ := bind_eq_some_iff.1 hl
  obtain ⟨name, hn, hl⟩ := bind_eq_some_iff.1 hl
  rw [← some.inj hl]
  exact hn

theorem eq_of_path_eq (h : DistinctNames text) {m m' : Module} (hm : m ∈ modulesOf text)
    (hm' : m' ∈ modulesOf text) (hp : m.path = m'.path) : m = m' := by
  have hn := moduleName_path hm
  rw [hp, moduleName_path hm', some.injEq] at hn
  exact eq_of_canonical_eq h hm hm' (by rw [hn])

/-- **The load order is correct.** For every text whose modules have distinct names and every name
the search ends, whatever the cycles: without a result exactly if there is no such module, and
otherwise with a load order. -/
theorem load_order_correct (text name : List Char) (h : DistinctNames text) :
    ∃ result, (∀ fuel, (modulesOf text).length < fuel →
      (load text).resolveLoadOrder fuel name = some result) ∧
      (result = none ↔ ∀ m ∈ modulesOf text, canonical m.name ≠ canonical name) ∧
      ∀ order, result = some order → IsLoadOrder text name order := by
  have hf := find_eq h name
  cases hl : lookup text name with
  | none =>
    rw [hl] at hf
    refine ⟨none, fun fuel _ => ?_, ?_, by simp⟩
    · rw [DepDb.resolveLoadOrder, show (load text).find name = none from hf]
    · simp only [true_iff]
      intro m hm hnm
      have := (lookup_eq_some_iff h).2 ⟨hm, hnm⟩
      rw [hl] at this
      exact absurd this (by simp)
  | some root =>
    rw [hl] at hf
    obtain ⟨index, hi, hmd⟩ := hf
    obtain ⟨hroot, hnm⟩ := (lookup_eq_some_iff h).1 hl
    -- the search over the modules of the text ends
    have hc : ∀ m ∈ (modulesOf text).toFinset, ∀ d ∈ dependencies text m,
        d ∈ (modulesOf text).toFinset := by
      intro m _ d hd
      obtain ⟨dep, -, hdp⟩ := mem_filterMap.1 hd
      exact mem_toFinset.2 ((lookup_eq_some_iff h).1 hdp).1
    have hfl : ((modulesOf text).toFinset \ DepthFirst.State.init.visited).card <
        (modulesOf text).length + 1 :=
      Nat.lt_succ_of_le ((Finset.card_le_card Finset.sdiff_subset).trans
        (toFinset_card_le (modulesOf text)))
    obtain ⟨t, ht⟩ := DepthFirst.exists_visit hc (mem_toFinset.2 hroot) hfl
    obtain ⟨hn, hr, hls, htp⟩ := DepthFirst.postorder ht
    rw [edge_dependencies h] at hr
    refine ⟨some (t.order.map Module.path), fun fuel hfl => ?_, ?_, ?_⟩
    · obtain ⟨s, hs, hsm⟩ := simulates_visit h (simulates_init text) hmd
        (DepthFirst.visit_of_le hfl ht)
      rw [DepDb.resolveLoadOrder, hi]
      simp [hs, hsm.order]
    · simp only [reduceCtorEq, false_iff, not_forall, not_not]
      exact ⟨root, hroot, hnm⟩
    · rintro order ⟨⟩
      have hmm : ∀ m ∈ t.order, m ∈ modulesOf text := by
        intro m hm
        cases (hr m).1 hm with
        | refl => exact hroot
        | tail _ hd => exact hd.1
      refine ⟨?_, root, hroot, hnm, t.order, rfl, hls, hr, fun ha => ?_⟩
      · exact hn.map_on fun m hm m' hm' => eq_of_path_eq h (hmm m hm) (hmm m' hm')
      · intro before m after heq d hd
        refine htp ?_ before m after heq d ?_
        · intro m hm
          rw [edge_dependencies h] at hm ⊢
          exact ha m hm
        · rwa [← edge_dependencies h] at hd

/-- Two modules that need each other, one of them under two spellings. -/
def cyclicText : List Char := "a/x-y.ko.zst: b.ko\nb.ko: x_y.ko gone.ko".toList

theorem load_order_correct_cyclic :
    let order := ["b.ko".toList, "a/x-y.ko.zst".toList]
    (load cyclicText).resolveLoadOrder 3 "x_y".toList = some (some order) ∧
      IsLoadOrder cyclicText "x_y".toList order := by
  intro order
  have hrn : (load cyclicText).resolveLoadOrder 3 "x_y".toList = some (some order) := by
    decide +kernel
  obtain ⟨result, hr, -, ho⟩ :=
    load_order_correct cyclicText "x_y".toList (by unfold DistinctNames; decide +kernel)
  have hlen : (modulesOf cyclicText).length < 3 := by decide +kernel
  rw [hr 3 hlen, some.injEq] at hrn
  exact ⟨by rw [hr 3 hlen, hrn], ho order hrn⟩

end Muak.Kmod
