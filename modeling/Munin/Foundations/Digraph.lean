import Mathlib.Algebra.GroupWithZero.Nat
import Mathlib.Data.List.Basic
import Mathlib.Data.Nat.Notation
import Mathlib.Logic.Relation

/-!
# Finite directed graphs: searching them, and keeping them acyclic

A graph is a list of vertices with their successors, as a `Map` from keys to lists is.

* **`search`, `reaches`** — the depth-first search with a stack and a set of seen vertices.
* **`acyclic_of_extend`** — giving one vertex new successors keeps a relation acyclic, if none of
  them had a path back to that vertex.
-/

namespace Foundations

/-- A finite directed graph: vertices with their successors. -/
abbrev SuccGraph (κ : Type*) := List (κ × List κ)

namespace SuccGraph

variable {κ : Type*} [DecidableEq κ]

/-- The successors of a vertex; the first entry of a vertex counts. -/
def succ (G : SuccGraph κ) (v : κ) : List κ :=
  (G.lookup v).getD []

/-- There is an edge from `v` to `w`. -/
def Edge (G : SuccGraph κ) (v w : κ) : Prop :=
  w ∈ G.succ v

/-- There is a path from `v` to `w`. -/
abbrev Path (G : SuccGraph κ) : κ → κ → Prop :=
  Relation.ReflTransGen G.Edge

/-! ### Depth-first search -/

/-- The search for `target` from a stack of vertices, leaving out those already seen; `none` if the
fuel does not last. The last successor of a vertex is visited first. -/
def search (G : SuccGraph κ) (target : κ) : ℕ → List κ → List κ → Option Bool
  | 0, _, _ => none
  | _ + 1, _, [] => some false
  | n + 1, seen, v :: stack =>
    if v = target then some true
    else if v ∈ seen then search G target n seen stack
    else search G target n (v :: seen) ((G.succ v).reverse ++ stack)

/-- The number of edges out of vertices that are not seen yet: what the search can still push. -/
def pending (G : SuccGraph κ) (seen : List κ) : ℕ :=
  ((G.filter (·.1 ∉ seen)).map (·.2.length)).sum

/-- Whether a search from `v` finds `target`. -/
def reaches (G : SuccGraph κ) (v target : κ) : Bool :=
  (G.search target (G.pending [] + 2) [] [v]).getD false

end SuccGraph

/-! ### Acyclic relations -/

section Acyclic

variable {κ : Type*} {r r' : κ → κ → Prop} {v : κ} {targets : κ → Prop}

/-- No vertex has a path of at least one edge to itself. -/
def Acyclic (r : κ → κ → Prop) : Prop :=
  ∀ a, ¬ Relation.TransGen r a a

/-- A path to `v` needs none of the new edges out of `v`. -/
theorem path_of_extend (hr : ∀ a b, r' a b → r a b ∨ (a = v ∧ targets b)) {a : κ}
    (h : Relation.ReflTransGen r' a v) : Relation.ReflTransGen r a v := by
  induction h using Relation.ReflTransGen.head_induction_on with
  | refl => exact .refl
  | head hedge _ ih =>
    rcases hr _ _ hedge with hedge | ⟨rfl, -⟩
    · exact .head hedge ih
    · exact .refl

/-- A path with new edges out of `v` is an old one, or it passes through `v` and one of its new
successors. -/
theorem cut_of_extend (hr : ∀ a b, r' a b → r a b ∨ (a = v ∧ targets b)) {a b : κ}
    (h : Relation.TransGen r' a b) :
    Relation.TransGen r a b ∨
      (Relation.ReflTransGen r' a v ∧ ∃ t, targets t ∧ Relation.ReflTransGen r' t b) := by
  induction h with
  | single hedge =>
    rcases hr _ _ hedge with hedge | ⟨rfl, ht⟩
    · exact .inl (.single hedge)
    · exact .inr ⟨.refl, _, ht, .refl⟩
  | tail hpath hedge ih =>
    rcases hr _ _ hedge with hold | ⟨rfl, ht⟩
    · rcases ih with hpath' | ⟨hto, t, ht, hfrom⟩
      · exact .inl (.tail hpath' hold)
      · exact .inr ⟨hto, t, ht, hfrom.tail hedge⟩
    · exact .inr ⟨hpath.to_reflTransGen, _, ht, .refl⟩

/-- **New edges out of one vertex keep a relation acyclic**, if none of its new successors had a
path to it. -/
theorem acyclic_of_extend (targets : κ → Prop) (hr : ∀ a b, r' a b → r a b ∨ (a = v ∧ targets b))
    (hacyclic : Acyclic r) (htargets : ∀ t, targets t → ¬ Relation.ReflTransGen r t v) :
    Acyclic r' := by
  intro a hcycle
  rcases cut_of_extend hr hcycle with hold | ⟨hto, t, ht, hfrom⟩
  · exact hacyclic a hold
  · exact htargets t ht (path_of_extend hr (hfrom.trans hto))

/-- Fewer edges make no cycle. -/
theorem Acyclic.mono (hacyclic : Acyclic r) (hr : ∀ a b, r' a b → r a b) : Acyclic r' :=
  fun a hcycle => hacyclic a (Relation.TransGen.mono hr a a hcycle)

end Acyclic

end Foundations
