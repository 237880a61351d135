import Munin.Foundations.Digraph
import Mathlib.Data.List.Chain
import Mathlib.Data.List.Nodup
import Mathlib.Data.List.Perm.Subperm
import Mathlib.Data.List.TakeWhile

/-!
# Searching a graph for loops

A depth-first search keeps the path to where it is, and marks a vertex as done once all its
successors have been visited. A successor that is on the path closes a loop.

* **`LoopSearch.visit`** — the search from a vertex, with fuel that bounds its depth.
* **`Topological`** — the vertices that are done, the last one first: each leads only to ones that
  were done before it. There is no cycle among such vertices (`Topological.not_cycle`).
* **`visit_spec`** — a visit keeps the path; the loops that it finds are loops; and if there is none
  then the vertices that are done are topological, the visited one among them.
* **`allLoops_eq_nil_iff`**, **`cycle_of_mem_allLoops`** — the search finds no loop if and only if
  there is no cycle, and every vertex of a loop that it finds lies on a cycle.
-/

namespace Foundations

open Relation

variable {κ : Type*}

/-- The state of a search: the loops that were found, the vertices that are done, and the path. -/
structure LoopSearch (κ : Type*) where
  loops : List (List κ) := []
  done : List κ := []
  path : List κ := []

namespace LoopSearch

variable (succ : κ → Option (List κ))

/-- A visit; what has no successors, not even none, is no vertex. -/
def visit [DecidableEq κ] : ℕ → κ → LoopSearch κ → LoopSearch κ
  | 0, _, s => s
  | k + 1, v, s =>
    match succ v with
    | none => s
    | some ws =>
      if v ∈ s.done then s
      else if v ∈ s.path then { s with loops := s.loops ++ [s.path.dropWhile (· ≠ v)] }
      else
        let visited := ws.foldl (fun s w => visit k w s) { s with path := s.path ++ [v] }
        { visited with done := v :: visited.done, path := visited.path.dropLast }

/-- An edge between two vertices. -/
def Step (v w : κ) : Prop :=
  ∃ ws, succ v = some ws ∧ w ∈ ws ∧ (succ w).isSome = true

/-- All that the search of vertices finds. -/
def allLoops [DecidableEq κ] (vertices : List κ) : List (List κ) :=
  (vertices.foldl (fun s v => visit succ (vertices.length + 1) v s) {}).loops

/-! ### Vertices in topological order -/

/-- Each vertex of the list leads only to later ones. -/
def Topological : List κ → Prop
  | [] => True
  | v :: rest => (∀ w, Step succ v w → w ∈ rest) ∧ Topological rest

variable {succ}

variable {l : List κ} {v : κ}

theorem Topological.closed (h : Topological succ l) {w : κ} (hv : v ∈ l)
    (hstep : Step succ v w) : w ∈ l := by
  induction l with
  | nil => cases hv
  | cons u l ih =>
    rcases List.mem_cons.1 hv with rfl | hv
    · exact List.mem_cons_of_mem _ (h.1 w hstep)
    · exact List.mem_cons_of_mem _ (ih h.2 hv)

theorem Topological.closed_path (h : Topological succ l) {w : κ} (hv : v ∈ l)
    (hpath : ReflTransGen (Step succ) v w) : w ∈ l := by
  induction hpath with
  | refl => exact hv
  | tail _ hstep ih => exact h.closed ih hstep

/-- **There is no cycle among vertices in topological order.** -/
theorem Topological.not_cycle (h : Topological succ l) (hv : v ∈ l) :
    ¬ TransGen (Step succ) v v := by
  induction l generalizing v with
  | nil => cases hv
  | cons u l ih =>
    intro hcycle
    by_cases hl : v ∈ l
    · exact ih h.2 hl hcycle
    · -- the head leads into the rest, which does not lead back
      obtain rfl := (List.mem_cons.1 hv).resolve_right hl
      obtain ⟨w, hstep, hback⟩ := TransGen.head'_iff.1 hcycle
      exact hl (h.2.closed_path (h.1 w hstep) hback)

/-! ### Paths -/

variable {r : κ → κ → Prop}

/-- Along a path, its first vertex leads to each, and each to its last. -/
theorem reaches_of_isChain {a : κ} (h : (a :: l).IsChain r) {x : κ} (hx : x ∈ a :: l) :
    ReflTransGen r a x ∧ ∀ z ∈ (a :: l).getLast?, ReflTransGen r x z := by
  induction l generalizing a x with
  | nil =>
    obtain rfl := List.mem_singleton.1 hx
    refine ⟨.refl, fun z hz => ?_⟩
    obtain rfl : x = z := by simpa using hz
    exact .refl
  | cons b l ih =>
    obtain ⟨hab, htail⟩ := List.isChain_cons_cons.1 h
    have hlast : (a :: b :: l).getLast? = (b :: l).getLast? := List.getLast?_cons_cons
    rw [hlast]
    rcases List.mem_cons.1 hx with rfl | hx
    · exact ⟨.refl, fun z hz => .head hab ((ih htail List.mem_cons_self).2 z hz)⟩
    · obtain ⟨hto, hfrom⟩ := ih htail hx
      exact ⟨.head hab hto, hfrom⟩

/-- **What closes a path is a loop**, every vertex of which lies on a cycle. -/
theorem cycle_of_dropWhile [DecidableEq κ] {path : List κ}
    (hchain : path.IsChain r) (hlast : ∀ u ∈ path.getLast?, r u v) (hv : v ∈ path) :
    path.dropWhile (· ≠ v) ≠ [] ∧ ∀ x ∈ path.dropWhile (· ≠ v), TransGen r x x := by
  have hne : path.dropWhile (· ≠ v) ≠ [] := fun hnil => by
    simpa using List.dropWhile_eq_nil_iff.1 hnil v hv
  refine ⟨hne, fun x hx => ?_⟩
  obtain ⟨u, rest, hrest⟩ := List.exists_cons_of_ne_nil hne
  obtain rfl : u = v := by
    have hhead : decide ((path.dropWhile (· ≠ v)).head hne ≠ v) = false :=
      List.head_dropWhile_not _ hne
    simpa only [hrest, List.head_cons, decide_eq_false_iff_not, not_not] using hhead
  have hsplit : path = path.takeWhile (· ≠ u) ++ u :: rest := by
    rw [← hrest, List.takeWhile_append_dropWhile]
  have hloop : (u :: rest).IsChain r := by
    rw [hsplit] at hchain
    exact hchain.right_of_append
  rw [hrest] at hx
  obtain ⟨hto, hfrom⟩ := reaches_of_isChain hloop hx
  -- from the vertex to the last of the path, from there to the first of the loop, and back
  obtain ⟨z, hz⟩ := Option.isSome_iff_exists.1 (List.getLast?_isSome.2 (List.cons_ne_nil u rest))
  have hclose : r z u := hlast z (by rw [hsplit, List.getLast?_append_cons, hz]; rfl)
  exact (TransGen.tail' (hfrom z hz) hclose).trans_left hto

/-! ### What a visit does -/

section Spec

variable (succ)

/-- What may be visited from a path: the path is one of the graph, without repetition, its last
vertex leads to the one to visit, and the fuel is enough for the vertices that are left. -/
structure Ready (vertices : List κ) (fuel : ℕ) (path : List κ) (v : κ) : Prop where
  chain : path.IsChain (Step succ)
  nodup : path.Nodup
  listed : ∀ u ∈ path, u ∈ vertices
  room : vertices.length < fuel + path.length
  edge : (succ v).isSome = true → ∀ u ∈ path.getLast?, Step succ u v

/-- What visits of vertices do. -/
structure Visits (vs : List κ) (s s' : LoopSearch κ) : Prop where
  path : s'.path = s.path
  loops : ∃ new, s'.loops = s.loops ++ new ∧
    ∀ l ∈ new, l ≠ [] ∧ ∀ x ∈ l, TransGen (Step succ) x x
  done : ∀ v ∈ s.done, v ∈ s'.done
  topological : s'.loops = [] → Topological succ s.done → Topological succ s'.done
  visited : s'.loops = [] → ∀ v ∈ vs, (succ v).isSome = true → v ∈ s'.done

variable {succ}

variable {s : LoopSearch κ} {vertices : List κ}

theorem Visits.loops_eq_nil {vs : List κ} {s' : LoopSearch κ} (h : Visits succ vs s s')
    (hnil : s'.loops = []) : s.loops = [] := by
  obtain ⟨new, hnew, -⟩ := h.loops
  exact (List.append_eq_nil_iff.1 (hnew ▸ hnil)).1

theorem Visits.nil (s : LoopSearch κ) : Visits succ [] s s :=
  ⟨rfl, ⟨[], (List.append_nil _).symm, fun _ hl => (List.not_mem_nil hl).elim⟩, fun _ hv => hv,
    fun _ h => h, fun _ _ hv => (List.not_mem_nil hv).elim⟩

theorem Visits.trans {vs us : List κ} {t u : LoopSearch κ} (h : Visits succ vs s t)
    (h' : Visits succ us t u) : Visits succ (vs ++ us) s u := by
  refine ⟨h'.path.trans h.path, ?_, fun v hv => h'.done v (h.done v hv), fun hnil hs => ?_,
    fun hnil v hv hsome => ?_⟩
  · obtain ⟨new, hnew, hcycle⟩ := h.loops
    obtain ⟨new', hnew', hcycle'⟩ := h'.loops
    refine ⟨new ++ new', by rw [hnew', hnew, List.append_assoc], fun l hl => ?_⟩
    exact (List.mem_append.1 hl).elim (hcycle l) (hcycle' l)
  · exact h'.topological hnil (h.topological (h'.loops_eq_nil hnil) hs)
  · rcases List.mem_append.1 hv with hv | hv
    · exact h'.done v (h.visited (h'.loops_eq_nil hnil) v hv hsome)
    · exact h'.visited hnil v hv hsome

/-- Visits one after the other, when each does what a visit does. -/
theorem Visits.foldl (vertices : List κ) (k : ℕ) (path : List κ)
    {f : κ → LoopSearch κ → LoopSearch κ} {ws : List κ}
    (hf : ∀ w s, s.path = path → Ready succ vertices k path w → Visits succ [w] s (f w s))
    (hws : ∀ w ∈ ws, Ready succ vertices k path w) (hs : s.path = path) :
    Visits succ ws s (ws.foldl (fun s w => f w s) s) := by
  induction ws generalizing s with
  | nil => exact .nil s
  | cons w ws ih =>
    have hw : Visits succ [w] s (f w s) := hf w s hs (hws w List.mem_cons_self)
    exact hw.trans (ih (fun u hu => hws u (List.mem_cons_of_mem _ hu)) (hw.path.trans hs))

variable [DecidableEq κ]

section Listed

variable (hlisted : ∀ v, (succ v).isSome = true → v ∈ vertices)

include hlisted

/-- **What a visit does**: by induction on the fuel. -/
theorem visit_spec (k : ℕ) (v : κ) (s : LoopSearch κ) (hready : Ready succ vertices k s.path v) :
    Visits succ [v] s (visit succ k v s) := by
  induction k generalizing v s with
  | zero =>
    -- the path has no more vertices than there are
    have hle : s.path.length ≤ vertices.length :=
      (List.subperm_of_subset hready.nodup hready.listed).length_le
    have hlt := hready.room
    omega
  | succ k ih =>
    rw [visit]
    cases hsucc : succ v with
    | none =>
      refine ⟨rfl, ⟨[], (List.append_nil _).symm, fun _ hl => (List.not_mem_nil hl).elim⟩,
        fun _ hu => hu, fun _ h => h, fun _ u hu hsome => ?_⟩
      rw [List.mem_singleton.1 hu, hsucc] at hsome
      cases hsome
    | some ws =>
      dsimp only
      have hv : (succ v).isSome = true := by rw [hsucc]; rfl
      by_cases hdone : v ∈ s.done
      · rw [if_pos hdone]
        exact ⟨rfl, ⟨[], (List.append_nil _).symm, fun _ hl => (List.not_mem_nil hl).elim⟩,
          fun _ hu => hu, fun _ h => h, fun _ u hu _ => List.mem_singleton.1 hu ▸ hdone⟩
      rw [if_neg hdone]
      by_cases hpath : v ∈ s.path
      · -- a loop is found
        rw [if_pos hpath]
        refine ⟨rfl, ⟨_, rfl, fun l hl => ?_⟩, fun _ hu => hu, fun _ h => h, fun hnil => ?_⟩
        · obtain rfl := List.mem_singleton.1 hl
          exact cycle_of_dropWhile hready.chain (hready.edge hv) hpath
        · exact absurd (List.append_eq_nil_iff.1 hnil).2 (List.cons_ne_nil _ _)
      · rw [if_neg hpath]
        have hinner : Visits succ ws { s with path := s.path ++ [v] }
            (ws.foldl (fun s w => visit succ k w s) { s with path := s.path ++ [v] }) := by
          refine Visits.foldl vertices k (s.path ++ [v])
            (fun w t ht hw => ih w t (ht ▸ hw)) (fun w hw => ⟨?_, ?_, ?_, ?_, ?_⟩) rfl
          · exact hready.chain.append (.singleton v) (by simpa using hready.edge hv)
          · refine List.nodup_append.2 ⟨hready.nodup, List.nodup_singleton v, fun a ha b hb => ?_⟩
            exact fun hab => hpath (List.mem_singleton.1 hb ▸ hab ▸ ha)
          · intro u hu
            rcases List.mem_append.1 hu with hu | hu
            · exact hready.listed u hu
            · exact hlisted u (List.mem_singleton.1 hu ▸ hv)
          · have hroom := hready.room
            rw [List.length_append, List.length_singleton]
            omega
          · intro hwsome u hu
            obtain rfl : v = u := by simpa using hu
            exact ⟨ws, hsucc, hw, hwsome⟩
        refine ⟨?_, hinner.loops, fun u hu => List.mem_cons_of_mem _ (hinner.done u hu),
          fun hnil hs => ⟨fun w hstep => ?_, hinner.topological hnil hs⟩,
          fun _ u hu _ => List.mem_singleton.1 hu ▸ List.mem_cons_self⟩
        · exact (congrArg List.dropLast hinner.path).trans List.dropLast_concat
        · obtain ⟨ws', hws', hw, hwsome⟩ := hstep
          obtain rfl : ws = ws' := Option.some.inj (hsucc.symm.trans hws')
          exact hinner.visited hnil w hw hwsome

/-! ### What the search finds -/

/-- The whole search, from no path. -/
theorem allLoops_spec :
    Visits succ vertices {} (vertices.foldl
      (fun s v => visit succ (vertices.length + 1) v s) {}) := by
  refine Visits.foldl vertices (vertices.length + 1) []
    (fun v s hs hv => visit_spec hlisted _ v s (hs ▸ hv)) (fun v _ => ?_) rfl
  exact ⟨.nil, .nil, fun _ hu => (List.not_mem_nil hu).elim, by simp, by simp⟩

/-- **Every vertex of a loop that the search finds lies on a cycle.** -/
theorem cycle_of_mem_allLoops {l : List κ}
    (hl : l ∈ allLoops succ vertices) : l ≠ [] ∧ ∀ x ∈ l, TransGen (Step succ) x x := by
  obtain ⟨new, hnew, hcycle⟩ := (allLoops_spec hlisted).loops
  rw [allLoops, hnew] at hl
  exact hcycle l hl

/-- **The search finds no loop if and only if there is no cycle.** -/
theorem allLoops_eq_nil_iff :
    allLoops succ vertices = [] ↔ ∀ v, ¬ TransGen (Step succ) v v := by
  constructor
  · intro hnil v hcycle
    obtain ⟨w, ⟨ws, hws, -⟩, -⟩ := TransGen.head'_iff.1 hcycle
    have hsome : (succ v).isSome = true := by rw [hws]; rfl
    have hspec := allLoops_spec hlisted
    exact (hspec.topological hnil trivial).not_cycle
      (hspec.visited hnil v (hlisted v hsome) hsome) hcycle
  · intro hacyclic
    refine List.eq_nil_iff_forall_not_mem.2 fun l hl => ?_
    obtain ⟨hne, hcycle⟩ := cycle_of_mem_allLoops hlisted hl
    obtain ⟨x, hx⟩ := List.exists_mem_of_ne_nil l hne
    exact hacyclic x (hcycle x hx)

end Listed

end Spec

end LoopSearch

end Foundations
