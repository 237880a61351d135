import Mathlib.Data.List.Basic

/-!
# Longest common subsequences

The length of a longest common subsequence of two lists, as a relation, and the three facts that a
table of such lengths is filled by: an empty list has nothing in common with another
(`longestCommon_nil_left`, `longestCommon_nil_right`), an equal first entry belongs to some longest
common subsequence (`LongestCommon.cons_cons`), and of two different first entries one does not
belong to it (`LongestCommon.max_of_ne`).
-/

open scoped List

namespace Foundations

variable {α : Type*}

/-- The longest common subsequences of the two lists have length `n`. -/
structure LongestCommon (a b : List α) (n : ℕ) : Prop where
  /-- There is one of that length. -/
  attained : ∃ s, s <+ a ∧ s <+ b ∧ s.length = n
  /-- None is longer. -/
  bound : ∀ s, s <+ a → s <+ b → s.length ≤ n

variable {a b : List α} {n : ℕ}

/-- There is one such length. -/
theorem LongestCommon.unique {m : ℕ} (hm : LongestCommon a b m)
    (hn : LongestCommon a b n) : m = n := by
  obtain ⟨s, hsa, hsb, rfl⟩ := hm.attained
  obtain ⟨t, hta, htb, rfl⟩ := hn.attained
  exact Nat.le_antisymm (hn.bound s hsa hsb) (hm.bound t hta htb)

theorem longestCommon_nil_left (b : List α) : LongestCommon [] b 0 :=
  ⟨⟨[], .slnil, List.nil_sublist b, rfl⟩, fun _ hs _ => hs.length_le⟩

theorem longestCommon_nil_right (a : List α) : LongestCommon a [] 0 :=
  ⟨⟨[], List.nil_sublist a, .slnil, rfl⟩, fun _ _ hs => hs.length_le⟩

/-- An equal first entry is common. -/
theorem LongestCommon.cons_cons (h : LongestCommon a b n) (x : α) :
    LongestCommon (x :: a) (x :: b) (n + 1) := by
  obtain ⟨s, hsa, hsb, hlength⟩ := h.attained
  refine ⟨⟨x :: s, hsa.cons_cons x, hsb.cons_cons x, by rw [List.length_cons, hlength]⟩,
    fun t hta htb => ?_⟩
  have htail := h.bound t.tail hta.tail htb.tail
  rw [List.length_tail] at htail
  omega

/-- Of two different first entries, a common subsequence misses one. -/
theorem LongestCommon.max_of_ne {x y : α} {m : ℕ} (hne : x ≠ y)
    (hm : LongestCommon a (y :: b) m) (hn : LongestCommon (x :: a) b n) :
    LongestCommon (x :: a) (y :: b) (max m n) := by
  refine ⟨?_, fun s hsa hsb => ?_⟩
  · rcases Nat.le_total n m with hle | hle
    · obtain ⟨s, hsa, hsb, hlength⟩ := hm.attained
      exact ⟨s, hsa.cons x, hsb, by rw [hlength, Nat.max_eq_left hle]⟩
    · obtain ⟨s, hsa, hsb, hlength⟩ := hn.attained
      exact ⟨s, hsa, hsb.cons y, by rw [hlength, Nat.max_eq_right hle]⟩
  · cases s with
    | nil => exact Nat.zero_le _
    | cons z s =>
      by_cases hz : z = x
      · -- the sequence begins with `x`, so it does without `y`
        have hzy : z ≠ y := fun h => hne (hz ▸ h)
        exact Nat.le_trans (hn.bound _ hsa (hsb.of_cons_of_ne hzy)) (Nat.le_max_right m n)
      · exact Nat.le_trans (hm.bound _ (hsa.of_cons_of_ne hz) hsb) (Nat.le_max_left m n)

end Foundations
