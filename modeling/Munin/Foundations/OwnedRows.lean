import Mathlib.Data.List.Basic

/-!
# Rows that belong to owners

A table whose rows each belong to an owner, and which is written owner by owner: all rows of one are
deleted, and new ones inserted. Such a table is an index if the rows of every owner are what some
function derives from it.

* **`rowsOf`** — the rows of one owner.
* **`replaceRows`** — the table with the rows of one owner replaced.
-/

namespace Foundations

variable {ρ κ : Type*} [DecidableEq κ] (owner : ρ → κ)

/-- The rows of an owner. -/
def rowsOf (k : κ) (rows : List ρ) : List ρ := rows.filter (owner · = k)

/-- The table with the rows of an owner replaced. -/
def replaceRows (k : κ) (new rows : List ρ) : List ρ := rows.filter (owner · ≠ k) ++ new

variable {owner} {k l : κ} {new rows : List ρ}

theorem mem_rowsOf {r : ρ} : r ∈ rowsOf owner k rows ↔ r ∈ rows ∧ owner r = k := by
  simp [rowsOf]

/-- The new rows are those of their owner. -/
theorem rowsOf_replaceRows_self (hnew : ∀ r ∈ new, owner r = k) :
    rowsOf owner k (replaceRows owner k new rows) = new := by
  have hold : (rows.filter (owner · ≠ k)).filter (owner · = k) = [] := by
    rw [List.filter_filter, List.filter_eq_nil_iff]
    intro r _
    simp
  have hall : new.filter (owner · = k) = new :=
    List.filter_eq_self.2 fun r hr => decide_eq_true (hnew r hr)
  rw [rowsOf, replaceRows, List.filter_append, hold, hall, List.nil_append]

/-- The rows of the others stay. -/
theorem rowsOf_replaceRows_of_ne (hnew : ∀ r ∈ new, owner r = k) (hl : l ≠ k) :
    rowsOf owner l (replaceRows owner k new rows) = rowsOf owner l rows := by
  have hnone : new.filter (owner · = l) = [] := by
    rw [List.filter_eq_nil_iff]
    intro r hr
    rw [hnew r hr, decide_eq_true_iff]
    exact hl.symm
  rw [rowsOf, replaceRows, List.filter_append, hnone, List.append_nil, List.filter_filter, rowsOf]
  refine List.filter_congr fun r _ => ?_
  by_cases h : owner r = l
  · simp [h, hl]
  · simp [h]

theorem mem_replaceRows {r : ρ} (h : r ∈ replaceRows owner k new rows) :
    (r ∈ rows ∧ owner r ≠ k) ∨ r ∈ new := by
  rw [replaceRows, List.mem_append, List.mem_filter, decide_eq_true_iff] at h
  exact h

end Foundations
