import Mathlib.Data.List.Dedup
import Mathlib.Data.Fintype.Card
import Mathlib.Tactic.Common

/-!
# The stops of a traveller without memory

Where a traveller goes from a stop depends on the stop alone, and at some stops the way ends. Among
finitely many stops, it ends exactly if no stop is ever reached again.

* **`stop`** — the stops in order, none after the end.
* **`Returns`** — a stop is reached again.
* **`stop_length_eq_none`** — a way that does not return ends, within the number of its stops.
-/

namespace Foundations

variable {α : Type*} (next : α → Option α) (first : α)

/-- The stop after so many moves. -/
def stop : ℕ → Option α
  | 0 => some first
  | i + 1 => (stop i).bind next

/-- Some stop is reached again. -/
def Returns : Prop :=
  ∃ i j a, i < j ∧ stop next first i = some a ∧ stop next first j = some a

variable {next first}

/-- The stops after the first are those of a way that sets out from the second. -/
theorem stop_succ (i : ℕ) :
    stop next first (i + 1) = (next first).bind fun second => stop next second i := by
  induction i with
  | zero => cases h : next first <;> simp [stop, h]
  | succ i ih => rw [stop, ih, Option.bind_assoc]; rfl

variable {i j : ℕ}

/-- There are no stops after the end. -/
theorem stop_eq_none_of_le (hij : i ≤ j) (h : stop next first i = none) :
    stop next first j = none := by
  induction j, hij using Nat.le_induction with
  | base => exact h
  | succ j hij ih => rw [stop, ih, Option.bind_none]

/-- Before a stop there are stops. -/
theorem exists_stop_of_le (hij : i ≤ j) {a : α} (h : stop next first j = some a) :
    ∃ b, stop next first i = some b := by
  rw [← Option.isSome_iff_exists, Option.isSome_iff_ne_none]
  intro hnone
  have hend := stop_eq_none_of_le hij hnone
  rw [hend] at h
  cases h

/-- From equal stops the ways are equal. -/
theorem stop_add_congr (h : stop next first i = stop next first j) (k : ℕ) :
    stop next first (i + k) = stop next first (j + k) := by
  induction k with
  | zero => exact h
  | succ k ih => rw [← Nat.add_assoc, ← Nat.add_assoc, stop, stop, ih]

/-- A way that returns goes on. -/
theorem Returns.stop_ne_none (h : Returns next first) (n : ℕ) : stop next first n ≠ none := by
  obtain ⟨i, j, a, hij, hi, hj⟩ := h
  have hsame : stop next first i = stop next first j := hi.trans hj.symm
  -- one more round never changes where the way is
  have hround : ∀ m, stop next first (i + m * (j - i)) = some a := by
    intro m
    induction m with
    | zero => rw [Nat.zero_mul, Nat.add_zero, hi]
    | succ m ih =>
      have hshift := stop_add_congr hsame (m * (j - i))
      have heq : i + (m + 1) * (j - i) = j + m * (j - i) := by
        have hj' : i + (j - i) = j := by omega
        rw [Nat.add_mul, Nat.one_mul, Nat.add_comm (m * (j - i)), ← Nat.add_assoc, hj']
      rw [heq, ← hshift, ih]
  intro hnone
  have hle : n ≤ i + n * (j - i) := by
    have hmul : n * 1 ≤ n * (j - i) := Nat.mul_le_mul_left n (by omega)
    omega
  have hend := stop_eq_none_of_le hle hnone
  rw [hround n] at hend
  cases hend

/-- A way that does not return ends before it has made more stops than there are. -/
theorem stop_length_eq_none {stops : List α} (h : ¬ Returns next first)
    (hmem : ∀ i a, stop next first i = some a → a ∈ stops) :
    stop next first stops.length = none := by
  by_contra hne
  obtain ⟨last, hlast⟩ := Option.ne_none_iff_exists'.1 hne
  have hstop : ∀ i : Fin (stops.length + 1), ∃ a, stop next first i = some a :=
    fun i => exists_stop_of_le (Nat.lt_succ_iff.1 i.2) hlast
  choose at' hat using hstop
  -- more moments than stops: two of them are at the same one
  classical
  have hcard : stops.toFinset.card < (Finset.univ : Finset (Fin (stops.length + 1))).card := by
    have hle := List.toFinset_card_le stops
    rw [Finset.card_univ, Fintype.card_fin]
    omega
  obtain ⟨i, -, j, -, hij, heq⟩ := Finset.exists_ne_map_eq_of_card_lt_of_maps_to hcard
    (f := at') fun i _ => List.mem_toFinset.2 (hmem i _ (hat i))
  rcases Nat.lt_or_gt_of_ne (Fin.val_ne_of_ne hij) with hlt | hlt
  · exact h ⟨i, j, at' i, hlt, hat i, heq ▸ hat j⟩
  · exact h ⟨j, i, at' j, hlt, hat j, heq ▸ hat i⟩

end Foundations
