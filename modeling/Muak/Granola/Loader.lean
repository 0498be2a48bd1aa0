import Muak.Foundations.CycleSearch
import Muak.Foundations.Dict
import Muak.Foundations.Result
import Muak.Granola.Service

/-!
# Loading service definitions

`init/granola/src/loader.rs`: the definitions are indexed by name, the dependencies are searched for
a cycle, and variables are substituted in the commands.

* `get?_index`: of several definitions with one name the last one counts.
* `prepare_ok_iff`: the definitions are accepted exactly if no service depends on itself, and then
  only the commands change.
-/

namespace Muak.Granola

open List Dict

/-! ## Variables -/

/-- A character of the name of a variable. -/
def isNameChar (c : Char) : Bool := c.isAlphanum || c = '_'

/-- The value of a variable, or the reference itself when it is not known. -/
def variableText (env : Dict String String) (name : List Char) : List Char :=
  match env.get? (String.ofList name) with
  | some value => value.toList
  | none => '$' :: name

/-- Substitute `$VAR` in a text. -/
def substituteChars (env : Dict String String) : List Char → List Char
  | [] => []
  | c :: cs =>
    if c = '$' then
      variableText env (cs.takeWhile isNameChar) ++ substituteChars env (cs.dropWhile isNameChar)
    else c :: substituteChars env cs
termination_by cs => cs.length
decreasing_by
  · exact Nat.lt_succ_of_le (dropWhile_sublist _).length_le
  · exact Nat.lt_succ_self _

def substituteVars (text : String) (env : Dict String String) : String :=
  String.ofList (substituteChars env text.toList)

/-! ## Cycles -/

variable (defs : List Service)

/-- The index of the definitions; a later definition replaces an earlier one. -/
def index : Dict String Service :=
  ofList (defs.map fun svc => (svc.name, svc))

/-- The graph of an index: a service that is not in it has no dependencies. -/
def graph (index : Dict String Service) : CycleSearch.Graph String where
  nodes := index.keys.toFinset
  succ name := (index.get? name).map (·.dependsOn)
  mem_nodes name deps h := by
    obtain ⟨svc, hsvc, -⟩ := Option.map_eq_some_iff.1 h
    exact mem_toFinset.2 (mem_keys_iff.2 ⟨svc, hsvc⟩)

def cycleMessage (path : List String) : String :=
  "Dependency cycle detected: " ++ " -> ".intercalate path

/-- The search from all services by name. -/
def detectCycles (index : Dict String Service) : Except String Unit :=
  let names := index.keys.mergeSort fun a b => decide (a ≤ b)
  ((CycleSearch.detect (graph index) names ∅).mapError cycleMessage).map fun _ => ()

/-- The services of the definitions, unless there is a cycle. -/
def prepare (env : Dict String String) : Except String (List Service) := do
  detectCycles (index defs)
  .ok (defs.map fun svc => { svc with command := substituteVars svc.command env })

/-! ## What is accepted -/

/-- The last definition with a name. -/
def lastDefinition (name : String) : Option Service :=
  defs.reverse.find? (·.name = name)

/-- A service has a dependency. -/
def DependsOn (name dep : String) : Prop :=
  ∃ svc, lastDefinition defs name = some svc ∧ dep ∈ svc.dependsOn

theorem get?_index (name : String) : (index defs).get? name = lastDefinition defs name := by
  induction defs using reverseRecOn with
  | nil => rfl
  | append_singleton defs svc ih =>
    have hi : index (defs ++ [svc]) = (index defs).insert svc.name svc := by
      rw [index, map_append, ofList, foldl_append]
      rfl
    rw [hi, get?_insert, ih]
    by_cases hn : name = svc.name
    · simp [lastDefinition, hn]
    · simp [lastDefinition, hn, Ne.symm hn]

theorem edge_graph : (graph (index defs)).Edge = DependsOn defs := by
  funext name dep
  simp only [CycleSearch.Graph.Edge, graph, get?_index, Option.map_eq_some_iff]
  refine propext ⟨?_, ?_⟩
  · rintro ⟨_, ⟨svc, hs, rfl⟩, hd⟩
    exact ⟨svc, hs, hd⟩
  · rintro ⟨svc, hs, hd⟩
    exact ⟨svc.dependsOn, ⟨svc, hs, rfl⟩, hd⟩

theorem detectCycles_ok_iff : detectCycles (index defs) = .ok () ↔
      ∀ name, ¬Relation.TransGen (DependsOn defs) name name := by
  have hn : ∀ name ∈ (graph (index defs)).nodes,
      name ∈ (index defs).keys.mergeSort fun a b => decide (a ≤ b) :=
    fun name hnm => mem_mergeSort.2 (mem_toFinset.1 hnm)
  rw [← edge_graph, ← CycleSearch.detect_isOk_iff hn, detectCycles]
  cases CycleSearch.detect (graph (index defs)) _ ∅ with
  | error path => exact ⟨nofun, nofun⟩
  | ok visited => exact ⟨fun _ => ⟨visited, rfl⟩, fun _ => rfl⟩

/-- **Preparing definitions.** They are accepted exactly if there is no cycle of dependencies, and
then names and dependencies stay as they are. -/
theorem prepare_ok_iff (env : Dict String String) : ((∃ prepared, prepare defs env = .ok prepared) ↔
        ¬∃ name, Relation.TransGen (DependsOn defs) name name) ∧
      ∀ prepared, prepare defs env = .ok prepared →
        prepared.map (fun svc => (svc.name, svc.dependsOn)) =
          defs.map fun svc => (svc.name, svc.dependsOn) := by
  constructor
  · rw [not_exists, ← detectCycles_ok_iff, prepare]
    cases detectCycles (index defs) with
    | error message => exact ⟨nofun, nofun⟩
    | ok done => exact ⟨fun _ => rfl, fun _ => ⟨_, rfl⟩⟩
  · intro prepared hp
    obtain ⟨-, -, hm⟩ := of_bind hp
    rw [← Except.ok.inj hm, map_map]
    rfl

end Muak.Granola
