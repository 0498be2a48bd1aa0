import Mathlib.Data.Finset.Card
import Mathlib.Data.List.Chain
import Mathlib.Logic.Relation

/-!
# Searching for a cycle

The depth-first search that keeps the path it is on and the nodes it is done with, and stops when it
comes back to a node of its path. Only finitely many nodes have successors, so the paths are bounded
and the search ends.

* `search`, `searchAll`: the search from a node, and from each of a list of nodes in turn.
* `cyclic_of_search`: where it stops, the path has the last node twice.
* `extends_of_search`: what is done is closed under successors and has no node on a cycle.
* `detect_isOk_iff`: so the search from all nodes succeeds exactly if there is no cycle.
-/

namespace Muak.CycleSearch

open Relation List

/-- The nodes that have successors, and their successors. -/
structure Graph (ν : Type*) where
  nodes : Finset ν
  succ : ν → Option (List ν)
  mem_nodes : ∀ v ws, succ v = some ws → v ∈ nodes

variable {ν : Type*} [DecidableEq ν] (g : Graph ν) {stack : List ν} {v : ν}

/-- How many nodes are not on the path. -/
def Graph.ahead (stack : List ν) : ℕ := (g.nodes.filter (· ∉ stack)).card

theorem Graph.ahead_concat_lt (hv : v ∈ g.nodes) (hs : v ∉ stack) :
    g.ahead (stack ++ [v]) < g.ahead stack := by
  apply Finset.card_lt_card
  refine Finset.ssubset_iff_of_subset (fun w hw => ?_) |>.2 ⟨v, ?_, ?_⟩
  · rw [Finset.mem_filter] at hw ⊢
    exact ⟨hw.1, fun hm => hw.2 (mem_append_left _ hm)⟩
  · exact Finset.mem_filter.2 ⟨hv, hs⟩
  · simp

mutual

/-- The search from a node; the error is the path with a node that is on it already. -/
def search (v : ν) (visited : Finset ν) (stack : List ν) : Except (List ν) (Finset ν) :=
  if _ : v ∈ stack then .error (stack ++ [v])
  else if v ∈ visited then .ok visited
  else
    match _ : g.succ v with
    | none => .ok (insert v visited)
    | some ws =>
      match searchAll ws visited (stack ++ [v]) with
      | .error path => .error path
      | .ok visited => .ok (insert v visited)
termination_by (g.ahead stack, 0)
decreasing_by
  exact Prod.Lex.left _ _ (g.ahead_concat_lt (g.mem_nodes v ws (by assumption)) (by assumption))

/-- The search from the successors of the last node of the path. -/
def searchAll (ws : List ν) (visited : Finset ν) (stack : List ν) : Except (List ν) (Finset ν) :=
  match ws with
  | [] => .ok visited
  | w :: ws =>
    match search w visited stack with
    | .error path => .error path
    | .ok visited => searchAll ws visited stack
termination_by (g.ahead stack, ws.length + 1)
decreasing_by
  · exact Prod.Lex.right _ (Nat.succ_pos _)
  · exact Prod.Lex.right _ (Nat.lt_succ_self _)

end

/-- The search from all nodes that are not done. -/
def detect : List ν → Finset ν → Except (List ν) (Finset ν)
  | [], visited => .ok visited
  | v :: vs, visited =>
    if v ∈ visited then detect vs visited
    else
      match search g v visited [] with
      | .error path => .error path
      | .ok visited => detect vs visited

/-- There is an edge from a node to each of its successors. -/
def Graph.Edge (v w : ν) : Prop := ∃ ws, g.succ v = some ws ∧ w ∈ ws

variable {g}

/-- **Induction over a search**, with its result. -/
theorem search_induction {P : ν → Finset ν → List ν → Except (List ν) (Finset ν) → Prop}
    {Q : List ν → Finset ν → List ν → Except (List ν) (Finset ν) → Prop}
    (back : ∀ v visited stack, v ∈ stack → P v visited stack (.error (stack ++ [v])))
    (done : ∀ v visited stack, v ∉ stack → v ∈ visited → P v visited stack (.ok visited))
    (leaf : ∀ v visited stack, v ∉ stack → v ∉ visited → g.succ v = none →
      P v visited stack (.ok (insert v visited)))
    (node : ∀ v visited stack ws result, v ∉ stack → v ∉ visited → g.succ v = some ws →
      Q ws visited (stack ++ [v]) result → P v visited stack (result.map (insert v)))
    (nil : ∀ visited stack, Q [] visited stack (.ok visited))
    (fail : ∀ w ws visited stack path, P w visited stack (.error path) →
      Q (w :: ws) visited stack (.error path))
    (cons : ∀ w ws visited visited' stack result, P w visited stack (.ok visited') →
      Q ws visited' stack result → Q (w :: ws) visited stack result) :
    (∀ v visited stack, P v visited stack (search g v visited stack)) ∧
      ∀ ws visited stack, Q ws visited stack (searchAll g ws visited stack) := by
  have hm : ∀ {v visited stack ws}, v ∉ stack → v ∉ visited → g.succ v = some ws →
      search g v visited stack = (searchAll g ws visited (stack ++ [v])).map (insert v) := by
    intro v visited stack ws hs hv hsc
    rw [search, dif_neg hs, if_neg hv]
    split <;> rename_i ho <;> cases hsc.symm.trans ho
    cases searchAll g ws visited (stack ++ [v]) <;> rfl
  apply search.mutual_induct g (fun v visited stack => P v visited stack (search g v visited stack))
    (fun ws visited stack => Q ws visited stack (searchAll g ws visited stack))
  · intro v visited stack hs
    rw [search, dif_pos hs]
    exact back v visited stack hs
  · intro v visited stack hs hv
    rw [search, dif_neg hs, if_pos hv]
    exact done v visited stack hs hv
  · intro v visited stack hs hv hsc
    rw [search, dif_neg hs, if_neg hv]
    split
    · exact leaf v visited stack hs hv hsc
    · rename_i ho
      cases hsc.symm.trans ho
  · intro v visited stack hs hv ws hsc path _ ih
    exact hm hs hv hsc ▸ node v visited stack ws _ hs hv hsc ih
  · intro v visited stack hs hv ws hsc visited' _ ih
    exact hm hs hv hsc ▸ node v visited stack ws _ hs hv hsc ih
  · intro visited stack
    rw [searchAll]
    exact nil visited stack
  · intro visited stack w ws path hp ih
    rw [hp] at ih
    rw [searchAll, hp]
    exact fail w ws visited stack path ih
  · intro visited stack w ws visited' hv' ih ihs
    rw [hv'] at ih
    rw [searchAll, hv']
    exact cons w ws visited visited' stack _ ih ihs

/-! ## Cycles that are found -/

/-- A path whose last node is on it twice. -/
def Graph.Cyclic (g : Graph ν) (path : List ν) : Prop :=
  ∃ front v, path = front ++ [v] ∧ v ∈ front ∧ path.IsChain g.Edge

omit [DecidableEq ν] in
theorem Graph.Cyclic.exists_transGen {path : List ν} (h : g.Cyclic path) :
    ∃ v, TransGen g.Edge v v := by
  obtain ⟨front, v, rfl, hv, hchain⟩ := h
  have hpairwise : (front ++ [v]).Pairwise (TransGen g.Edge) :=
    (hchain.imp fun _ _ => TransGen.single).pairwise
  exact ⟨v, (List.pairwise_append.1 hpairwise).2.2 v hv v (List.mem_singleton_self v)⟩

variable {visited : Finset ν}

theorem cyclic_of_search {stack path : List ν} (h : search g v visited stack = .error path)
    (hc : (stack ++ [v]).IsChain g.Edge) : g.Cyclic path := by
  refine (search_induction
    (P := fun v _ stack result => ∀ path, result = .error path →
      (stack ++ [v]).IsChain g.Edge → g.Cyclic path)
    (Q := fun ws _ stack result => ∀ path, result = .error path →
      (∀ w ∈ ws, (stack ++ [w]).IsChain g.Edge) → g.Cyclic path)
    ?_ ?_ ?_ ?_ ?_ ?_ ?_).1 v visited stack path h hc
  · rintro v _ stack hs path ⟨⟩ hc
    exact ⟨stack, v, rfl, hs, hc⟩
  · exact fun _ _ _ _ _ _ hp => nomatch hp
  · exact fun _ _ _ _ _ _ _ hp => nomatch hp
  · intro v _ stack ws result _ _ hsc ih path hp hc
    cases result with
    | ok visited => cases hp
    | error other =>
      cases hp
      refine ih path rfl fun w hw => ?_
      rw [append_assoc, singleton_append, isChain_split]
      exact ⟨hc, isChain_pair.2 ⟨ws, hsc, hw⟩⟩
  · exact fun _ _ _ hp => nomatch hp
  · intro w ws _ stack path ih other ho hws
    exact ih other ho (hws w mem_cons_self)
  · intro w ws _ _ stack result _ ih path hp hws
    exact ih path hp fun other ho => hws other (mem_cons_of_mem _ ho)

/-! ## Nodes that are done -/

/-- All successors of these nodes are among them, and none is on a cycle. -/
structure Graph.Settled (g : Graph ν) (visited : Finset ν) : Prop where
  closed : ∀ v ∈ visited, ∀ w, g.Edge v w → w ∈ visited
  acyclic : ∀ v ∈ visited, ¬TransGen g.Edge v v

omit [DecidableEq ν] in
theorem Graph.settled_empty : g.Settled ∅ := ⟨nofun, nofun⟩

omit [DecidableEq ν] in
theorem Graph.Settled.mem_of_transGen (h : g.Settled visited) {v w : ν} (hv : v ∈ visited)
    (hpath : TransGen g.Edge v w) : w ∈ visited := by
  induction hpath with
  | single hedge => exact h.closed v hv _ hedge
  | tail _ hedge ih => exact h.closed _ ih _ hedge

/-- A node is done when all its successors are, and it was not before. -/
theorem Graph.Settled.insert (h : g.Settled visited) {v : ν} (hv : v ∉ visited)
    (hs : ∀ w, g.Edge v w → w ∈ visited) : g.Settled (insert v visited) := by
  constructor
  · intro u hu w he
    rcases Finset.mem_insert.1 hu with rfl | hu
    · exact Finset.mem_insert_of_mem (hs w he)
    · exact Finset.mem_insert_of_mem (h.closed u hu w he)
  · intro u hu hc
    rcases Finset.mem_insert.1 hu with rfl | hu
    · -- the cycle leaves the node to one that is done, and comes back
      obtain ⟨w, he, hp⟩ := TransGen.head'_iff.1 hc
      rcases reflTransGen_iff_eq_or_transGen.1 hp with rfl | hp
      · exact hv (hs _ he)
      · exact hv (h.mem_of_transGen (hs w he) hp)
    · exact h.acyclic u hu hc

/-- What a search does to the nodes that are done, with `starts` where it starts. -/
structure Extends (g : Graph ν) (starts : List ν) (visited : Finset ν) (stack : List ν)
    (visited' : Finset ν) : Prop where
  settled : g.Settled visited'
  subset : visited ⊆ visited'
  starts : ∀ v ∈ starts, v ∈ visited'
  stack : ∀ v ∈ stack, v ∉ visited'

theorem extends_of_search {visited visited' : Finset ν}
    (h : search g v visited stack = .ok visited') (hs : g.Settled visited)
    (hst : ∀ u ∈ stack, u ∉ visited) : Extends g [v] visited stack visited' := by
  refine (search_induction
    (P := fun v visited stack result => ∀ visited', result = .ok visited' → g.Settled visited →
      (∀ u ∈ stack, u ∉ visited) → Extends g [v] visited stack visited')
    (Q := fun ws visited stack result => ∀ visited', result = .ok visited' → g.Settled visited →
      (∀ u ∈ stack, u ∉ visited) → Extends g ws visited stack visited')
    ?_ ?_ ?_ ?_ ?_ ?_ ?_).1 v visited stack visited' h hs hst
  · exact fun _ _ _ _ _ h => nomatch h
  · rintro v visited stack _ hv _ ⟨⟩ hs hst
    exact ⟨hs, fun _ => id, by simpa using hv, hst⟩
  · rintro v visited stack hn hv hsc _ ⟨⟩ hs hst
    refine ⟨hs.insert hv ?_, Finset.subset_insert v visited, by simp, fun u hu => ?_⟩
    · rintro w ⟨ws, hws, -⟩
      cases hsc.symm.trans hws
    · rw [Finset.mem_insert, not_or]
      exact ⟨fun heq => hn (heq ▸ hu), hst u hu⟩
  · intro v visited stack ws result hn hv hsc ih visited' hr hs hst
    cases result with
    | error path => cases hr
    | ok before =>
      cases hr
      have he := ih before rfl hs fun u hu => by
        rcases mem_append.1 hu with hu | hu
        · exact hst u hu
        · exact mem_singleton.1 hu ▸ hv
      have hvb : v ∉ before := he.stack v (by simp)
      refine ⟨he.settled.insert hvb ?_,
        he.subset.trans (Finset.subset_insert v before), by simp, fun u hu => ?_⟩
      · rintro w ⟨others, ho, hw⟩
        cases hsc.symm.trans ho
        exact he.starts w hw
      · rw [Finset.mem_insert, not_or]
        exact ⟨fun heq => hn (heq ▸ hu), he.stack u (mem_append_left _ hu)⟩
  · rintro visited stack _ ⟨⟩ hs hst
    exact ⟨hs, fun _ => id, nofun, hst⟩
  · exact fun _ _ _ _ _ _ _ h => nomatch h
  · intro w ws visited visited₁ stack result ih ihs visited' hr hs hst
    have hf := ih visited₁ rfl hs hst
    have hrest := ihs visited' hr hf.settled hf.stack
    refine ⟨hrest.settled, hf.subset.trans hrest.subset, fun u hu => ?_, hrest.stack⟩
    rcases mem_cons.1 hu with rfl | hu
    · exact hrest.subset (hf.starts u (by simp))
    · exact hrest.starts u hu

/-! ## The whole search -/

/-- What was done before stays done, and all given nodes are. -/
theorem settled_of_detect {vs : List ν} {visited visited' : Finset ν}
    (h : detect g vs visited = .ok visited') (hst : g.Settled visited) :
    g.Settled visited' ∧ visited ⊆ visited' ∧ ∀ v ∈ vs, v ∈ visited' := by
  induction vs generalizing visited with
  | nil =>
    cases h
    exact ⟨hst, fun _ => id, nofun⟩
  | cons v vs ih =>
    rw [detect] at h
    split_ifs at h with hv
    · obtain ⟨hd, hs, hvs⟩ := ih h hst
      exact ⟨hd, hs, forall_mem_cons.2 ⟨hs hv, hvs⟩⟩
    · split at h
      · cases h
      · rename_i hsr
        have he := extends_of_search hsr hst nofun
        obtain ⟨hd, hs, hvs⟩ := ih h he.settled
        exact ⟨hd, he.subset.trans hs, forall_mem_cons.2 ⟨hs (he.starts v (by simp)), hvs⟩⟩

theorem cyclic_of_detect {vs path : List ν} (h : detect g vs visited = .error path) :
    g.Cyclic path := by
  induction vs generalizing visited with
  | nil => cases h
  | cons v vs ih =>
    rw [detect] at h
    split_ifs at h
    · exact ih h
    · split at h
      · rename_i hs
        cases h
        exact cyclic_of_search hs (isChain_singleton v)
      · exact ih h

/-- **Cycles.** The search from all nodes with successors succeeds exactly if no node is on a
cycle. -/
theorem detect_isOk_iff {vs : List ν} (hvs : ∀ v ∈ g.nodes, v ∈ vs) :
    (∃ visited, detect g vs ∅ = .ok visited) ↔ ∀ v, ¬TransGen g.Edge v v := by
  constructor
  · rintro ⟨visited, h⟩ v hc
    obtain ⟨hdn, -, ha⟩ := settled_of_detect h Graph.settled_empty
    obtain ⟨w, ⟨ws, hws, -⟩, -⟩ := TransGen.head'_iff.1 hc
    exact hdn.acyclic v (ha v (hvs v (g.mem_nodes v ws hws))) hc
  · intro h
    cases hd : detect g vs ∅ with
    | ok visited => exact ⟨visited, rfl⟩
    | error path =>
      obtain ⟨v, hc⟩ := (cyclic_of_detect hd).exists_transGen
      exact absurd hc (h v)

end Muak.CycleSearch
