import Mathlib.Data.List.Basic

/-!
# Ranges that do not overlap

From ranges in the order of their starts a loop takes each that does not begin within the range it
has taken last.

* **`takeDisjoint`** — the ranges taken, one behind the other (`takeDisjoint_pairwise`).
* **`exists_mem_takeDisjoint`** — if two ranges are the same or do not overlap, each range is taken.
-/

namespace Foundations

variable {α : Type*} (start stop : α → ℕ)

/-- The ranges that the loop takes, where the last one taken ends at `last`. -/
def takeDisjoint : ℕ → List α → List α
  | _, [] => []
  | last, a :: rest =>
    if start a < last then takeDisjoint last rest else a :: takeDisjoint (stop a) rest

/-- Two ranges are the same or do not overlap. -/
def SameOrApart (a b : α) : Prop :=
  start a = start b ∧ stop a = stop b ∨ stop a ≤ start b ∨ stop b ≤ start a

variable {start stop}

theorem takeDisjoint_sublist (last : ℕ) (list : List α) :
    (takeDisjoint start stop last list).Sublist list := by
  induction list generalizing last with
  | nil => exact List.Sublist.slnil
  | cons a rest ih =>
    rw [takeDisjoint]
    split_ifs
    · exact (ih last).cons a
    · exact (ih (stop a)).cons_cons a

variable {list : List α}

theorem le_start_of_mem_takeDisjoint {last : ℕ}
    (hproper : ∀ a ∈ list, start a ≤ stop a) {b : α} (hb : b ∈ takeDisjoint start stop last list) :
    last ≤ start b := by
  induction list generalizing last with
  | nil => cases hb
  | cons a rest ih =>
    have hrest : ∀ c ∈ rest, start c ≤ stop c := fun c hc => hproper c (List.mem_cons_of_mem a hc)
    rw [takeDisjoint] at hb
    split_ifs at hb with hlast
    · exact ih hrest hb
    · rcases List.mem_cons.1 hb with rfl | hb
      · exact Nat.not_lt.1 hlast
      · have ha := hproper a List.mem_cons_self
        have hle := ih hrest hb
        omega

/-- **The ranges taken are one behind the other**. -/
theorem takeDisjoint_pairwise (last : ℕ) (hproper : ∀ a ∈ list, start a ≤ stop a) :
    (takeDisjoint start stop last list).Pairwise fun a b => stop a ≤ start b := by
  induction list generalizing last with
  | nil => exact List.Pairwise.nil
  | cons a rest ih =>
    have hrest : ∀ c ∈ rest, start c ≤ stop c := fun c hc => hproper c (List.mem_cons_of_mem a hc)
    rw [takeDisjoint]
    split_ifs
    · exact ih last hrest
    · exact List.pairwise_cons.2
        ⟨fun b hb => le_start_of_mem_takeDisjoint hrest hb, ih (stop a) hrest⟩

/-- **Nothing is lost**: a range that is not taken is one that was. -/
theorem exists_mem_takeDisjoint {last : ℕ} (hproper : ∀ a ∈ list, start a < stop a)
    (hsorted : list.Pairwise fun a b => start a ≤ start b)
    (hsame : ∀ a ∈ list, ∀ b ∈ list, SameOrApart start stop a b) {a : α} (ha : a ∈ list)
    (hlast : last ≤ start a) :
    ∃ b ∈ takeDisjoint start stop last list, start b = start a ∧ stop b = stop a := by
  induction list generalizing last with
  | nil => cases ha
  | cons c rest ih =>
    rw [List.pairwise_cons] at hsorted
    have hrest (last : ℕ) (hmem : a ∈ rest) (hle : last ≤ start a) :=
      ih (fun d hd => hproper d (List.mem_cons_of_mem c hd)) hsorted.2
        (fun d hd e he => hsame d (List.mem_cons_of_mem c hd) e (List.mem_cons_of_mem c he))
        hmem hle
    rw [takeDisjoint]
    split_ifs with hc
    · rcases List.mem_cons.1 ha with rfl | ha
      · omega
      · exact hrest last ha hlast
    · rcases List.mem_cons.1 ha with rfl | hmem
      · exact ⟨a, List.mem_cons_self, rfl, rfl⟩
      · by_cases hlt : start a < stop c
        · -- it begins within the range taken, so it is this range
          have hle := hsorted.1 a hmem
          have hpos := hproper a ha
          rcases hsame c List.mem_cons_self a ha with heq | hapart | hapart
          · exact ⟨c, List.mem_cons_self, heq⟩
          · omega
          · omega
        · obtain ⟨b, hb, heq⟩ := hrest (stop c) hmem (Nat.not_lt.1 hlt)
          exact ⟨b, List.mem_cons_of_mem c hb, heq⟩

end Foundations
