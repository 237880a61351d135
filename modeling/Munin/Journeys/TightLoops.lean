import Munin.Foundations.LoopSearch
import Munin.Journeys.Validator

/-!
# Loops without a wait

The validator refuses a spec with a loop that no waiting node breaks. `tightCycles` looks for such
loops from every node.

* **`TightEdge`** — an edge of the graph restricted to the nodes that do not wait.
* **`visitTight_eq`** — the search of `tightCycles` is the search for loops in that graph.
* **`tight_loops_exact`** — it reports a loop if and only if there is a cycle, and every node that it
  reports lies on one.
* **`no_tight_loop_of_valid`** — a valid spec has no such cycle.
-/

namespace Munin

open Foundations Relation

variable (spec : JourneySpec)

/-! ### The graph of the nodes that do not wait -/

/-- An edge between nodes neither of which waits. -/
def JourneySpec.TightEdge (a b : NodeId) : Prop :=
  ∃ m n, spec.byId a = some m ∧ spec.byId b = some n ∧
    m.type.waits = false ∧ n.type.waits = false ∧ ∃ e ∈ journeyNodeEdges m, e.to' = b

/-- Where a node that does not wait leads. -/
def JourneySpec.tightTargets (id : NodeId) : Option (List NodeId) :=
  ((spec.byId id).filter fun node => !node.type.waits).map fun node =>
    (journeyNodeEdges node).map (·.to')

variable {spec}

theorem tightTargets_eq_some {id : NodeId} {targets : List NodeId} :
    spec.tightTargets id = some targets ↔ ∃ node, spec.byId id = some node ∧
      node.type.waits = false ∧ (journeyNodeEdges node).map (·.to') = targets := by
  simp only [JourneySpec.tightTargets, Option.map_eq_some_iff, Option.filter_eq_some_iff,
    Bool.not_eq_true', and_assoc]

theorem step_tightTargets {a b : NodeId} :
    LoopSearch.Step spec.tightTargets a b ↔ spec.TightEdge a b := by
  constructor
  · rintro ⟨targets, ha, hb, hsome⟩
    obtain ⟨m, hm, hmwaits, rfl⟩ := tightTargets_eq_some.1 ha
    obtain ⟨targets', hb'⟩ := Option.isSome_iff_exists.1 hsome
    obtain ⟨n, hn, hnwaits, -⟩ := tightTargets_eq_some.1 hb'
    obtain ⟨e, he, hto⟩ := List.mem_map.1 hb
    exact ⟨m, n, hm, hn, hmwaits, hnwaits, e, he, hto⟩
  · rintro ⟨m, n, hm, hn, hmwaits, hnwaits, e, he, hto⟩
    refine ⟨_, tightTargets_eq_some.2 ⟨m, hm, hmwaits, rfl⟩, List.mem_map.2 ⟨e, he, hto⟩, ?_⟩
    exact Option.isSome_iff_exists.2 ⟨_, tightTargets_eq_some.2 ⟨n, hn, hnwaits, rfl⟩⟩

/-- What leads anywhere is a node of the spec. -/
theorem mem_ids_of_tightTargets {id : NodeId} (h : (spec.tightTargets id).isSome = true) :
    id ∈ spec.nodes.map (·.id) := by
  obtain ⟨targets, htargets⟩ := Option.isSome_iff_exists.1 h
  obtain ⟨node, hnode, -, -⟩ := tightTargets_eq_some.1 htargets
  have hid : node.id = id := by
    have hfound := List.find?_some hnode
    exact of_decide_eq_true hfound
  exact List.mem_map.2 ⟨node, List.mem_reverse.1 (List.mem_of_find?_eq_some hnode), hid⟩

/-! ### The search -/

/-- The state of the search, as one of a search for loops. -/
def CycleSearch.toLoopSearch (s : CycleSearch) : LoopSearch NodeId :=
  ⟨s.cycles, s.done, s.path⟩

/-- **The search goes through the nodes that do not wait**: by induction on the fuel. -/
theorem visitTight_eq (k : ℕ) (id : NodeId) (s : CycleSearch) :
    (visitTight spec k id s).toLoopSearch =
      LoopSearch.visit spec.tightTargets k id s.toLoopSearch := by
  induction k generalizing id s with
  | zero => rfl
  | succ k ih =>
    rw [visitTight, LoopSearch.visit, JourneySpec.tightTargets]
    cases hnode : spec.byId id with
    | none => rfl
    | some node =>
      cases hwaits : node.type.waits with
      | true => simp [Option.filter, hwaits]
      | false =>
        by_cases hdone : id ∈ s.done
        · simp [Option.filter, hwaits, hdone, CycleSearch.toLoopSearch]
        by_cases hpath : id ∈ s.path
        · simp [Option.filter, hwaits, hdone, hpath, CycleSearch.toLoopSearch]
        have hinner : ((journeyNodeEdges node).foldl (fun s e => visitTight spec k e.to' s)
              { s with path := s.path ++ [id] }).toLoopSearch =
            ((journeyNodeEdges node).map (·.to')).foldl
              (fun s w => LoopSearch.visit spec.tightTargets k w s)
              { s.toLoopSearch with path := s.path ++ [id] } := by
          rw [List.foldl_map]
          exact (List.foldl_hom CycleSearch.toLoopSearch fun t e => (ih e.to' t).symm).symm
        simp only [CycleSearch.toLoopSearch] at hinner
        simp only [Option.filter, hwaits, hdone, hpath, Bool.not_false, if_true, Option.map_some,
          Bool.false_or, decide_false, Bool.false_eq_true, if_false, CycleSearch.toLoopSearch]
        rw [← hinner]

theorem tightCycles_eq :
    tightCycles spec = LoopSearch.allLoops spec.tightTargets (spec.nodes.map (·.id)) := by
  have hfold (ids : List NodeId) (k : ℕ) (s : CycleSearch) :
      (ids.foldl (fun s id => visitTight spec k id s) s).toLoopSearch =
        ids.foldl (fun s id => LoopSearch.visit spec.tightTargets k id s) s.toLoopSearch :=
    (List.foldl_hom CycleSearch.toLoopSearch fun s id => (visitTight_eq k id s).symm).symm
  rw [LoopSearch.allLoops, List.length_map]
  exact congrArg LoopSearch.loops (hfold _ _ {})

/-- The steps of the search are the edges of the restricted graph. -/
theorem step_tightTargets_eq : LoopSearch.Step spec.tightTargets = spec.TightEdge := by
  funext a b
  exact propext step_tightTargets

/-- Nothing is found exactly where there is no cycle. -/
theorem tightCycles_eq_nil_iff :
    tightCycles spec = [] ↔ ∀ id, ¬ TransGen spec.TightEdge id id := by
  rw [tightCycles_eq, LoopSearch.allLoops_eq_nil_iff fun _ h => mem_ids_of_tightTargets h,
    step_tightTargets_eq]

/-- What is found are cycles. -/
theorem cycle_of_mem_tightCycles {cycle : List NodeId} (h : cycle ∈ tightCycles spec) :
    cycle ≠ [] ∧ ∀ id ∈ cycle, TransGen spec.TightEdge id id := by
  rw [tightCycles_eq] at h
  rw [← step_tightTargets_eq]
  exact LoopSearch.cycle_of_mem_allLoops (fun _ h => mem_ids_of_tightTargets h) h

/-- **Tight loops are found exactly**: the search reports one if and only if the nodes that do not
wait have a cycle, and every node that it reports lies on one. -/
theorem tight_loops_exact (spec : JourneySpec) :
    (tightCycles spec ≠ [] ↔ ∃ id, TransGen spec.TightEdge id id) ∧
      ∀ cycle ∈ tightCycles spec, cycle ≠ [] ∧ ∀ id ∈ cycle, TransGen spec.TightEdge id id := by
  constructor
  · rw [Ne, tightCycles_eq_nil_iff, not_forall_not]
  · exact fun cycle hcycle => cycle_of_mem_tightCycles hcycle

/-- **A valid spec has no loop without a wait**. -/
theorem no_tight_loop_of_valid {checkMessageMergeFields : MessageNode → Issues}
    {refs : JourneyReferences}
    (h : (validateJourneySpec checkMessageMergeFields spec refs).valid = true) (id : NodeId) :
    ¬ TransGen spec.TightEdge id id := by
  have herrors := errors_of_valid h
  simp only [journeyIssues, Issues.errors_append, List.append_eq_nil_iff, and_assoc,
    Issues.errors_concat, List.flatMap_map] at herrors
  obtain ⟨-, -, -, -, htight, -⟩ := herrors
  have hnil : tightCycles spec = [] := by
    refine List.eq_nil_iff_forall_not_mem.2 fun cycle hcycle => ?_
    have hnone := List.flatMap_eq_nil_iff.1 htight cycle hcycle
    cases hnone
  exact tightCycles_eq_nil_iff.1 hnil id

end Munin
