import Mathlib.Data.Finset.Card
import Mathlib.Logic.Relation

/-!
# Depth-first search in post-order

The recursive search that marks a node, visits its successors one after another, and then appends
the node to the order.

* `visit_induction` is the induction principle: what holds of a visit to a marked node, and of a
  visit to a new node when it holds of the visits to its successors, holds of every visit.
* `exists_visit`: fuel for the nodes that are not yet marked is enough; `visit_of_le`: more does not
  change the result.
* `postorder`: the order consists of the nodes reachable from the root, each once and the root last,
  and when none of these lies on a cycle every node comes after its successors.
-/

namespace Muak.DepthFirst

open Relation List

variable {ν : Type*}

/-- The marked nodes, and the finished ones in the order in which they were finished. -/
structure State (ν : Type*) where
  visited : Finset ν
  order : List ν

namespace State

def init : State ν := ⟨∅, []⟩

def mark [DecidableEq ν] (s : State ν) (v : ν) : State ν := { s with visited := insert v s.visited }

def finish (s : State ν) (v : ν) : State ν := { s with order := s.order ++ [v] }

end State

variable (succ : ν → List ν)

/-- Visit a node; `none` when the fuel does not suffice. -/
def visit [DecidableEq ν] : ℕ → ν → State ν → Option (State ν)
  | 0, _, _ => none
  | fuel + 1, v, s =>
    if v ∈ s.visited then some s
    else ((succ v).foldlM (fun s w => visit fuel w s) (s.mark v)).map (·.finish v)

/-- There is an edge from `v` to each of its successors. -/
def Edge (v w : ν) : Prop := w ∈ succ v

/-! ## Induction over visits -/

/-- A sequence of visits, each of which is a `P`. -/
inductive Calls (P : ν → State ν → State ν → Prop) : List ν → State ν → State ν → Prop
  | nil (s) : Calls P [] s s
  | cons {w ws s s₁ s₂} : P w s s₁ → Calls P ws s₁ s₂ → Calls P (w :: ws) s s₂

theorem calls_of_foldlM {P : ν → State ν → State ν → Prop} {f : ν → State ν → Option (State ν)}
    (hf : ∀ w s s', f w s = some s' → P w s s') {ws : List ν} {s s' : State ν}
    (h : ws.foldlM (fun s w => f w s) s = some s') : Calls P ws s s' := by
  induction ws generalizing s with
  | nil =>
    obtain rfl : s = s' := by simpa using h
    exact .nil s
  | cons w ws ih =>
    obtain ⟨s₁, hw, hws⟩ := Option.bind_eq_some_iff.1 h
    exact .cons (hf w s s₁ hw) (ih hws)

theorem Calls.imp {P Q : ν → State ν → State ν → Prop} (hPQ : ∀ w s s', P w s s' → Q w s s')
    {ws : List ν} {s s' : State ν} (h : Calls P ws s s') : Calls Q ws s s' := by
  induction h with
  | nil s => exact .nil s
  | cons hw _ ih => exact .cons (hPQ _ _ _ hw) ih

variable {succ}

/-- **Induction over visits.** -/
theorem visit_induction [DecidableEq ν] {P : ν → State ν → State ν → Prop}
    (seen : ∀ v s, v ∈ s.visited → P v s s)
    (node : ∀ v s s', v ∉ s.visited → Calls P (succ v) (s.mark v) s' → P v s (s'.finish v))
    {fuel : ℕ} {v : ν} {s s' : State ν} (h : visit succ fuel v s = some s') : P v s s' := by
  induction fuel generalizing v s s' with
  | zero => exact absurd h (by simp [visit])
  | succ fuel ih =>
    rw [visit] at h
    split_ifs at h with hv
    · rw [← Option.some.inj h]
      exact seen v s hv
    · obtain ⟨s₁, hf, rfl⟩ := Option.map_eq_some_iff.1 h
      exact node v s s₁ hv (calls_of_foldlM (f := visit succ fuel) (fun w s s' hw => ih hw) hf)

/-! ## What a search finds -/

variable (succ) in
/-- A search from `starts` has finished the `new` nodes. -/
structure Explores (starts : List ν) (s s' : State ν) (new : List ν) : Prop where
  order : s'.order = s.order ++ new
  visited : ∀ w, w ∈ s'.visited ↔ w ∈ s.visited ∨ w ∈ new
  fresh : ∀ w ∈ new, w ∉ s.visited
  nodup : new.Nodup
  begun : ∀ v ∈ starts, v ∈ s'.visited
  reached : ∀ w ∈ new, ∃ v ∈ starts, ReflTransGen (Edge succ) v w
  closed : ∀ w ∈ new, ∀ u ∈ succ w, u ∈ s'.visited

namespace Explores

variable {starts starts' new new' : List ν} {s s₁ s' : State ν} {v : ν}

theorem nil (s : State ν) (h : ∀ v ∈ starts, v ∈ s.visited) : Explores succ starts s s [] where
  order := (append_nil _).symm
  visited w := by simp
  fresh w hw := absurd hw not_mem_nil
  nodup := nodup_nil
  begun := h
  reached w hw := absurd hw not_mem_nil
  closed w hw := absurd hw not_mem_nil

/-- Searches one after another. -/
theorem append (h : Explores succ starts s s₁ new) (h' : Explores succ starts' s₁ s' new') :
    Explores succ (starts ++ starts') s s' (new ++ new') := by
  have hsb : ∀ w, w ∈ s₁.visited → w ∈ s'.visited := fun w hw => (h'.visited w).2 (.inl hw)
  constructor
  · rw [h'.order, h.order, append_assoc]
  · intro w
    rw [h'.visited, h.visited, mem_append, or_assoc]
  · intro w hw hs
    rcases mem_append.1 hw with hw | hw
    · exact h.fresh w hw hs
    · exact h'.fresh w hw ((h.visited w).2 (.inl hs))
  · refine nodup_append.2 ⟨h.nodup, h'.nodup, ?_⟩
    rintro a ha b hb rfl
    exact h'.fresh a hb ((h.visited a).2 (.inr ha))
  · intro v hv
    rcases mem_append.1 hv with hv | hv
    · exact hsb v (h.begun v hv)
    · exact h'.begun v hv
  · intro w hw
    rcases mem_append.1 hw with hw | hw
    · obtain ⟨v, hv, hr⟩ := h.reached w hw
      exact ⟨v, mem_append_left _ hv, hr⟩
    · obtain ⟨v, hv, hr⟩ := h'.reached w hw
      exact ⟨v, mem_append_right _ hv, hr⟩
  · intro w hw u hu
    rcases mem_append.1 hw with hw | hw
    · exact hsb u (h.closed w hw u hu)
    · exact h'.closed w hw u hu

/-- A new node, and then its successors. -/
theorem node [DecidableEq ν] (hv : v ∉ s.visited) (h : Explores succ (succ v) (s.mark v) s' new) :
    Explores succ [v] s (s'.finish v) (new ++ [v]) := by
  have hvs : ∀ w, w ∈ s'.visited ↔ w ∈ s.visited ∨ w ∈ new ++ [v] := by
    intro w
    rw [h.visited, State.mark, Finset.mem_insert, mem_append, mem_singleton]
    tauto
  have hn : v ∉ new := fun hn => h.fresh v hn (Finset.mem_insert_self v s.visited)
  constructor
  · rw [State.finish, h.order, State.mark, append_assoc]
  · exact hvs
  · intro w hw hs
    rcases mem_append.1 hw with hw | hw
    · exact h.fresh w hw (Finset.mem_insert_of_mem hs)
    · exact hv (mem_singleton.1 hw ▸ hs)
  · refine nodup_append.2 ⟨h.nodup, nodup_singleton v, ?_⟩
    rintro a ha b hb rfl
    exact hn (mem_singleton.1 hb ▸ ha)
  · intro w hw
    rw [mem_singleton.1 hw]
    exact (hvs v).2 (.inr (by simp))
  · intro w hw
    refine ⟨v, mem_singleton_self v, ?_⟩
    rcases mem_append.1 hw with hw | hw
    · obtain ⟨u, hu, hr⟩ := h.reached w hw
      exact .head hu hr
    · rw [mem_singleton.1 hw]
  · intro w hw u hu
    rcases mem_append.1 hw with hw | hw
    · exact h.closed w hw u hu
    · rw [mem_singleton.1 hw] at hu
      exact h.begun u hu

/-- The nodes that are marked but not finished stay the same. -/
theorem unfinished (h : Explores succ starts s s' new) {g : ν} (hg : g ∈ s'.visited)
    (hg' : g ∉ s'.order) : g ∈ s.visited ∧ g ∉ s.order := by
  rw [h.order, mem_append, not_or] at hg'
  exact ⟨((h.visited g).1 hg).resolve_right hg'.2, hg'.1⟩

end Explores

theorem explores_of_calls {ws : List ν} {s s' : State ν}
    (h : Calls (fun v s s' => ∃ new, Explores succ [v] s s' new) ws s s') :
    ∃ new, Explores succ ws s s' new := by
  induction h with
  | nil s => exact ⟨[], .nil s fun _ hv => absurd hv not_mem_nil⟩
  | cons hw _ ih =>
    obtain ⟨new, hw⟩ := hw
    obtain ⟨new', hws⟩ := ih
    exact ⟨new ++ new', hw.append hws⟩

theorem explores_of_visit [DecidableEq ν] {fuel : ℕ} {v : ν} {s s' : State ν}
    (h : visit succ fuel v s = some s') : ∃ new, Explores succ [v] s s' new := by
  refine visit_induction (P := fun v s s' => ∃ new, Explores succ [v] s s' new) ?_ ?_ h
  · intro v s hv
    exact ⟨[], .nil s fun w hw => mem_singleton.1 hw ▸ hv⟩
  · intro v s s' hv hc
    obtain ⟨new, hn⟩ := explores_of_calls hc
    exact ⟨new ++ [v], hn.node hv⟩

/-! ## The order is topological -/

variable (succ) in
/-- Every node of the list comes after its successors. -/
def Topological (order : List ν) : Prop :=
  ∀ before w after, order = before ++ w :: after → ∀ u ∈ succ w, u ∈ before

theorem Topological.concat {order : List ν} {v : ν} (h : Topological succ order)
    (hv : ∀ u ∈ succ v, u ∈ order) : Topological succ (order ++ [v]) := by
  intro before w after heq u hu
  rcases eq_nil_or_concat after with rfl | ⟨after, z, rfl⟩
  · obtain ⟨rfl, hw⟩ := append_inj' heq rfl
    rw [← singleton_inj.1 hw] at hu
    exact hv u hu
  · have heq : order ++ [v] = (before ++ w :: after) ++ [z] := by simpa using heq
    exact h before w after (append_inj' heq rfl).1 u hu

variable (succ) in
/-- No node that can be reached from `v` lies on a cycle. -/
def AcyclicFrom (v : ν) : Prop :=
  ∀ x, ReflTransGen (Edge succ) v x → ¬TransGen (Edge succ) x x

variable (succ) in
/-- All nodes that are being visited lead to `v`. -/
def LeadTo (s : State ν) (v : ν) : Prop :=
  ∀ g ∈ s.visited, g ∉ s.order → TransGen (Edge succ) g v

variable (succ) in
/-- A visit to `v` that keeps the order topological. -/
def KeepsTopological (v : ν) (s s' : State ν) : Prop :=
  (∃ new, Explores succ [v] s s' new) ∧
    (AcyclicFrom succ v → LeadTo succ s v → Topological succ s.order → Topological succ s'.order)

theorem topological_of_calls {ws : List ν} {s s' : State ν}
    (h : Calls (KeepsTopological succ) ws s s') (ha : ∀ w ∈ ws, AcyclicFrom succ w)
    (hld : ∀ w ∈ ws, LeadTo succ s w) (hs : Topological succ s.order) :
    Topological succ s'.order := by
  induction h with
  | nil => exact hs
  | cons hw _ ih =>
    obtain ⟨⟨new, hn⟩, hk⟩ := hw
    obtain ⟨hac, ha⟩ := forall_mem_cons.1 ha
    obtain ⟨hl, hld⟩ := forall_mem_cons.1 hld
    refine ih ha (fun u hu g hg hg' => ?_) (hk hac hl hs)
    obtain ⟨hg, hg'⟩ := hn.unfinished hg hg'
    exact hld u hu g hg hg'

theorem keepsTopological_of_visit [DecidableEq ν] {fuel : ℕ} {v : ν} {s s' : State ν}
    (h : visit succ fuel v s = some s') : KeepsTopological succ v s s' := by
  refine visit_induction ?_ ?_ h
  · intro v s hv
    exact ⟨⟨[], .nil s fun w hw => mem_singleton.1 hw ▸ hv⟩, fun _ _ hs => hs⟩
  · intro v s s' hv hc
    obtain ⟨new, hn⟩ := explores_of_calls (hc.imp fun _ _ _ hw => hw.1)
    refine ⟨⟨new ++ [v], hn.node hv⟩, fun ha hld hs => ?_⟩
    have hl : ∀ g ∈ (s.mark v).visited, g ∉ (s.mark v).order → ReflTransGen (Edge succ) g v := by
      intro g hg hg'
      rcases Finset.mem_insert.1 hg with rfl | hg
      · exact .refl
      · exact (hld g hg hg').to_reflTransGen
    have hs' : Topological succ s'.order := by
      refine topological_of_calls hc (fun w hw x hx => ?_) (fun w hw g hg hg' => ?_) hs
      · exact ha x (.head hw hx)
      · exact .tail' (hl g hg hg') hw
    -- a successor that is not finished is still being visited, and closes a cycle
    refine hs'.concat fun u hu => ?_
    by_contra hun
    obtain ⟨hg, hg'⟩ := hn.unfinished (hn.begun u hu) hun
    exact ha v .refl (.head' hu (hl u hg hg'))

/-! ## Fuel -/

theorem exists_visit [DecidableEq ν] {nodes : Finset ν} (hc : ∀ v ∈ nodes, ∀ w ∈ succ v, w ∈ nodes)
    {fuel : ℕ} {v : ν} {s : State ν} (hv : v ∈ nodes) (hfl : (nodes \ s.visited).card < fuel) :
    ∃ s', visit succ fuel v s = some s' := by
  induction fuel generalizing v s with
  | zero => omega
  | succ fuel ih =>
    rw [visit]
    split_ifs with hs
    · exact ⟨s, rfl⟩
    · have hm : (nodes \ (s.mark v).visited).card < fuel := by
        have hlt : (nodes \ (s.mark v).visited).card < (nodes \ s.visited).card := by
          refine Finset.card_lt_card ⟨Finset.sdiff_subset_sdiff subset_rfl
            (Finset.subset_insert v s.visited), fun hsb => ?_⟩
          have := hsb (Finset.mem_sdiff.2 ⟨hv, hs⟩)
          exact (Finset.mem_sdiff.1 this).2 (Finset.mem_insert_self v s.visited)
        omega
      have hf : ∀ (ws : List ν) (t : State ν), (∀ w ∈ ws, w ∈ nodes) →
          (nodes \ t.visited).card < fuel →
          ∃ t', ws.foldlM (fun s w => visit succ fuel w s) t = some t' := by
        intro ws
        induction ws with
        | nil => exact fun t _ _ => ⟨t, rfl⟩
        | cons w ws ihws =>
          intro t hws ht
          obtain ⟨hw, hws⟩ := forall_mem_cons.1 hws
          obtain ⟨t₁, ht₁⟩ := ih hw ht
          obtain ⟨new, hn⟩ := explores_of_visit ht₁
          have hle : (nodes \ t₁.visited).card ≤ (nodes \ t.visited).card :=
            Finset.card_le_card (Finset.sdiff_subset_sdiff subset_rfl
              fun u hu => (hn.visited u).2 (.inl hu))
          obtain ⟨t', ht'⟩ := ihws t₁ hws (by omega)
          exact ⟨t', by rw [foldlM_cons, ht₁]; exact ht'⟩
      obtain ⟨t', ht'⟩ := hf (succ v) (s.mark v) (hc v hv) hm
      exact ⟨t'.finish v, by rw [ht']; rfl⟩

/-- More fuel does not change the result. -/
theorem visit_of_le [DecidableEq ν] {fuel fuel' : ℕ} (hle : fuel ≤ fuel') {v : ν} {s s' : State ν}
    (h : visit succ fuel v s = some s') : visit succ fuel' v s = some s' := by
  induction fuel generalizing fuel' v s s' with
  | zero => exact absurd h (by simp [visit])
  | succ fuel ih =>
    obtain ⟨fuel', rfl⟩ : ∃ k, fuel' = k + 1 := ⟨fuel' - 1, by omega⟩
    have hf : ∀ (ws : List ν) (t t' : State ν),
        ws.foldlM (fun s w => visit succ fuel w s) t = some t' →
        ws.foldlM (fun s w => visit succ fuel' w s) t = some t' := by
      intro ws
      induction ws with
      | nil => exact fun t t' ht => ht
      | cons w ws ihws =>
        intro t t' ht
        obtain ⟨t₁, hw, hws⟩ := Option.bind_eq_some_iff.1 ht
        exact Option.bind_eq_some_iff.2 ⟨t₁, ih (by omega) hw, ihws t₁ t' hws⟩
    rw [visit] at h ⊢
    split_ifs at h ⊢ with hs
    · exact h
    · obtain ⟨t, ht, rfl⟩ := Option.map_eq_some_iff.1 h
      exact Option.map_eq_some_iff.2 ⟨t, hf _ _ _ ht, rfl⟩

/-! ## The search from a root -/

/-- **The post-order of a search**: the nodes that can be reached, each once, the root last, and
without cycles every node after its successors. -/
theorem postorder [DecidableEq ν] {fuel : ℕ} {root : ν} {s : State ν}
    (h : visit succ fuel root State.init = some s) :
    s.order.Nodup ∧ (∀ w, w ∈ s.order ↔ ReflTransGen (Edge succ) root w) ∧
      s.order.getLast? = some root ∧
      (AcyclicFrom succ root → Topological succ s.order) := by
  obtain ⟨⟨new, hn⟩, ht⟩ := keepsTopological_of_visit h
  have ho : s.order = new := hn.order
  have hvs : ∀ w, w ∈ s.visited ↔ w ∈ new := fun w =>
    (hn.visited w).trans (or_iff_right (Finset.notMem_empty w))
  refine ⟨ho ▸ hn.nodup, fun w => ⟨fun hw => ?_, fun hw => ?_⟩, ?_, fun ha => ?_⟩
  · obtain ⟨v, hv, hr⟩ := hn.reached w (ho ▸ hw)
    exact mem_singleton.1 hv ▸ hr
  · induction hw with
    | refl =>
      rw [ho]
      exact (hvs root).1 (hn.begun root (mem_singleton_self root))
    | tail _ he ih =>
      rw [ho] at ih ⊢
      exact (hvs _).1 (hn.closed _ ih _ he)
  · -- the root is finished by the outermost call
    cases fuel with
    | zero => exact absurd h (by simp [visit])
    | succ fuel =>
      obtain ⟨t, -, rfl⟩ := Option.map_eq_some_iff.1 h
      simp [State.finish]
  · refine ht ha (fun g hg => absurd hg (Finset.notMem_empty g)) ?_
    intro before w after heq
    exact absurd heq (by simp [State.init])

end Muak.DepthFirst
