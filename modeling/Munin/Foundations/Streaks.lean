import Mathlib.Data.List.Chain
import Mathlib.Data.List.Infix
import Mathlib.Data.Nat.Notation

/-!
# Runs in a list

A run of a list is a stretch of it in which each element is related to the next one. Whoever goes
through a list from its end, and counts how long the run is that it is in, knows in the end whether
there was a run of any given length.

* **`streak`** — how long the run is that a list starts with.
* **`HasRun`** — whether there is a run of some length anywhere.
* **`hasRun_cons`**, **`hasRun_concat`** — one is there if the list starts or ends with it, or if the
  rest has it.
-/

namespace Foundations

variable {α : Type*} (r : α → α → Prop)

/-- Somewhere in the list is a run of at least `n` elements. -/
def HasRun (n : ℕ) (l : List α) : Prop :=
  ∃ run, run <:+: l ∧ n ≤ run.length ∧ run.IsChain r

/-- The length of the longest run that the list starts with. -/
def streak [DecidableRel r] : List α → ℕ
  | [] => 0
  | [_] => 1
  | a :: b :: l => if r a b then streak (b :: l) + 1 else 1

variable {r}

variable {n : ℕ} {l : List α}

/-- The list starts with runs of every length up to its streak, and of no other. -/
theorem le_streak_iff [DecidableRel r] :
    n ≤ streak r l ↔ ∃ run, run <+: l ∧ n ≤ run.length ∧ run.IsChain r := by
  induction l generalizing n with
  | nil =>
    refine ⟨fun h => ⟨[], List.prefix_rfl, h, .nil⟩, ?_⟩
    rintro ⟨run, hrun, hn, -⟩
    exact hn.trans hrun.length_le
  | cons a l ih =>
    cases l with
    | nil =>
      refine ⟨fun h => ⟨[a], List.prefix_rfl, h, .singleton a⟩, ?_⟩
      rintro ⟨run, hrun, hn, -⟩
      exact hn.trans hrun.length_le
    | cons b l =>
      by_cases hab : r a b
      · rw [streak, if_pos hab]
        constructor
        · intro h
          obtain ⟨run, hrun, hlength, hchain⟩ := ih.1 (Nat.sub_le_iff_le_add.2 h)
          refine ⟨a :: run, List.cons_prefix_cons.2 ⟨rfl, hrun⟩, Nat.sub_le_iff_le_add.1 hlength, ?_⟩
          cases run with
          | nil => exact .singleton a
          | cons c run =>
            obtain rfl := (List.cons_prefix_cons.1 hrun).1
            exact List.isChain_cons_cons.2 ⟨hab, hchain⟩
        · rintro ⟨run, hrun, hlength, hchain⟩
          cases run with
          | nil => exact hlength.trans (Nat.zero_le _)
          | cons c run =>
            have htail : n - 1 ≤ streak r (b :: l) := ih.2
              ⟨run, (List.cons_prefix_cons.1 hrun).2, Nat.sub_le_iff_le_add.2 hlength, hchain.tail⟩
            exact Nat.sub_le_iff_le_add.1 htail
      · rw [streak, if_neg hab]
        refine ⟨fun h => ⟨[a], by simp, h, .singleton a⟩, ?_⟩
        rintro ⟨run, hrun, hlength, hchain⟩
        match run, hrun, hchain with
        | [], _, _ => exact hlength.trans (Nat.zero_le 1)
        | [_], _, _ => exact hlength
        | c :: d :: run, hrun, hchain =>
          -- a run of two would relate the first two
          obtain ⟨rfl, htail⟩ := List.cons_prefix_cons.1 hrun
          obtain ⟨rfl, -⟩ := List.cons_prefix_cons.1 htail
          exact absurd (List.isChain_cons_cons.1 hchain).1 hab

/-- **A run is at the start of a list, or in its tail.** -/
theorem hasRun_cons [DecidableRel r] {a : α} :
    HasRun r n (a :: l) ↔ n ≤ streak r (a :: l) ∨ HasRun r n l := by
  rw [le_streak_iff]
  constructor
  · rintro ⟨run, hrun, hlength, hchain⟩
    rcases List.infix_cons_iff.1 hrun with hrun | hrun
    · exact Or.inl ⟨run, hrun, hlength, hchain⟩
    · exact Or.inr ⟨run, hrun, hlength, hchain⟩
  · rintro (⟨run, hrun, hlength, hchain⟩ | ⟨run, hrun, hlength, hchain⟩)
    · exact ⟨run, hrun.isInfix, hlength, hchain⟩
    · exact ⟨run, hrun.trans (List.suffix_cons a l).isInfix, hlength, hchain⟩

theorem hasRun_nil : HasRun r n [] ↔ n = 0 := by
  constructor
  · rintro ⟨run, hrun, hlength, -⟩
    exact Nat.le_zero.1 (hlength.trans hrun.length_le)
  · rintro rfl
    exact ⟨[], List.infix_rfl, Nat.zero_le _, .nil⟩

/-- Going through the list decides it. -/
def decideHasRun (r : α → α → Prop) [DecidableRel r] (n : ℕ) : (l : List α) → Decidable (HasRun r n l)
  | [] => decidable_of_iff _ hasRun_nil.symm
  | _ :: l =>
    have : Decidable (HasRun r n l) := decideHasRun r n l
    decidable_of_iff _ hasRun_cons.symm

instance [DecidableRel r] (n : ℕ) : DecidablePred (HasRun r n) := decideHasRun r n

/-- The runs of a list, read from its end. -/
theorem hasRun_reverse : HasRun r n l.reverse ↔ HasRun (fun a b => r b a) n l := by
  constructor
  · rintro ⟨run, hrun, hlength, hchain⟩
    refine ⟨run.reverse, ?_, by rwa [List.length_reverse], List.isChain_reverse.2 hchain⟩
    rwa [← List.reverse_infix, List.reverse_reverse]
  · rintro ⟨run, hrun, hlength, hchain⟩
    refine ⟨run.reverse, List.reverse_infix.2 hrun, by rwa [List.length_reverse], ?_⟩
    exact List.isChain_reverse.2 hchain

/-- **A run is at the end of a list, or before its last element.** -/
theorem hasRun_concat [DecidableRel r] {a : α} : HasRun r n (l ++ [a]) ↔
      n ≤ streak (fun a b => r b a) (a :: l.reverse) ∨ HasRun r n l := by
  have hback (l : List α) : HasRun r n l ↔ HasRun (fun a b => r b a) n l.reverse := by
    conv_lhs => rw [← List.reverse_reverse l, hasRun_reverse]
  rw [hback, List.reverse_concat, hasRun_cons, ← hback]

end Foundations
