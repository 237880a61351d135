import Mathlib.Data.Int.Notation
import Mathlib.Data.List.Basic
import Mathlib.Data.Nat.Notation
import Mathlib.Order.Basic
import Mathlib.Tactic.Linarith

/-!
# Limits over a sliding window

Events are stamped with times, and at most so many may lie in any window of a given width. Whoever
admits events counts those of the last window before it, at an instant that comes before the
events are stamped.

* **`Limited`** — at most `limit` times in each closed window of the width.
* **`Limited.stamp`** — events stamped together, of which as many were admitted as the count left
  room for.
* **`Spaced`** — each event of a log was admitted under limits of its own; `Spaced.inWindow_le` says
  what follows for a window all of whose events were admitted under one limit.
-/

namespace Foundations

/-- How many of the times lie in a closed window. -/
def inWindow (times : List ℤ) (from' to' : ℤ) : ℕ :=
  times.countP fun t => from' ≤ t ∧ t ≤ to'

/-- How many of the times are not before a moment. -/
def countSince (times : List ℤ) (from' : ℤ) : ℕ :=
  times.countP fun t => from' ≤ t

/-- In each closed window of this width lie at most `limit` of the times. -/
def Limited (width : ℤ) (limit : ℕ) (times : List ℤ) : Prop :=
  ∀ t, inWindow times t (t + width) ≤ limit

section Limited

variable {width : ℤ} {limit : ℕ} {times : List ℤ}

theorem limited_nil (width : ℤ) (limit : ℕ) : Limited width limit [] :=
  fun _ => Nat.zero_le _

theorem inWindow_cons (x : ℤ) (times : List ℤ) (from' to' : ℤ) :
    inWindow (x :: times) from' to' =
      inWindow times from' to' + if from' ≤ x ∧ x ≤ to' then 1 else 0 := by
  simp [inWindow, List.countP_cons]

/-- A window counts no more than what is not before a moment that comes before it. -/
theorem inWindow_le_countSince {from' to' since : ℤ} (h : since ≤ from') :
    inWindow times from' to' ≤ countSince times since := by
  refine List.countP_mono_left fun t _ ht => ?_
  have hin : from' ≤ t ∧ t ≤ to' := of_decide_eq_true ht
  exact decide_eq_true (h.trans hin.1)

/-- Fewer times are not before a later moment. -/
theorem countSince_anti {since later : ℤ} (h : since ≤ later) :
    countSince times later ≤ countSince times since := by
  refine List.countP_mono_left fun t _ ht => ?_
  have hin : later ≤ t := of_decide_eq_true ht
  exact decide_eq_true (h.trans hin)

/-- **Events stamped together.** The times become those that they were, with some taken away, and
`n` events more at `now`, for which the count since the window before `counted` left room. -/
theorem Limited.stamp {times' : List ℤ} {n : ℕ} {counted now : ℤ} (h : Limited width limit times)
    (hcount : ∀ p : ℤ → Bool, times'.countP p ≤ times.countP p + if p now then n else 0)
    (hroom : n = 0 ∨ countSince times (counted - width) + n ≤ limit) (hle : counted ≤ now) :
    Limited width limit times' := by
  intro t
  have hnew := hcount fun x => t ≤ x ∧ x ≤ t + width
  have hold : inWindow times t (t + width) ≤ limit := h t
  by_cases hnow : t ≤ now ∧ now ≤ t + width
  · rw [if_pos (decide_eq_true hnow)] at hnew
    rcases hroom with rfl | hroom
    · exact hnew.trans hold
    · -- The window begins after the instant from which the events were counted.
      have hsince : counted - width ≤ t := by linarith [hnow.2]
      calc inWindow times' t (t + width)
          ≤ inWindow times t (t + width) + n := hnew
        _ ≤ countSince times (counted - width) + n :=
            Nat.add_le_add_right (inWindow_le_countSince hsince) n
        _ ≤ limit := hroom
  · rw [if_neg (by simpa using hnow), Nat.add_zero] at hnew
    exact hnew.trans hold

/-- Stamping some of the elements of a list, as a count of the stamps. -/
theorem countP_restamp {α : Type*} {stamp stamp' : α → Option ℤ} {now : ℤ} (changed : α → Bool)
    {l : List α} (hsame : ∀ a ∈ l, changed a = false → stamp' a = stamp a)
    (hnow : ∀ a ∈ l, changed a = true → stamp' a = some now) (p : ℤ → Bool) :
    (l.filterMap stamp').countP p ≤
      (l.filterMap stamp).countP p + if p now then l.countP changed else 0 := by
  induction l with
  | nil => exact Nat.zero_le _
  | cons a l ih =>
    have ih := ih (fun b hb => hsame b (List.mem_cons_of_mem a hb))
      (fun b hb => hnow b (List.mem_cons_of_mem a hb))
    cases hc : changed a with
    | false =>
      have ha := hsame a List.mem_cons_self hc
      rw [List.filterMap_cons, List.filterMap_cons, ha, List.countP_cons_of_neg (by simp [hc])]
      cases stamp a with
      | none => exact ih
      | some t =>
        dsimp only
        rw [List.countP_cons, List.countP_cons]
        omega
    | true =>
      have ha := hnow a List.mem_cons_self hc
      have hfewer : (l.filterMap stamp).countP p ≤ ((a :: l).filterMap stamp).countP p := by
        rw [List.filterMap_cons]
        cases stamp a with
        | none => exact Nat.le_refl _
        | some t =>
          dsimp only
          rw [List.countP_cons]
          exact Nat.le_add_right _ _
      rw [List.filterMap_cons, ha, List.countP_cons_of_pos hc]
      dsimp only
      rw [List.countP_cons]
      split at ih <;> rename_i hp
      · rw [if_pos hp, if_pos hp]
        omega
      · rw [if_neg hp, if_neg hp]
        omega

end Limited

/-! ### Events with limits of their own -/

section Spaced

variable {α : Type*} (width : ℤ) (time : α → ℤ) (capped : α → ℕ → Prop)

/-- In a log, newest event first: before each event, fewer events lie in the window up to it than
any limit under which it was admitted. -/
def Spaced : List α → Prop
  | [] => True
  | a :: log => (∀ k, capped a k → countSince (log.map time) (time a - width) < k) ∧ Spaced log

variable {width time capped}

/-- **A window under one limit.** If all its events were admitted under the limit, they are no more
than it. -/
theorem Spaced.inWindow_le {log : List α} (h : Spaced width time capped log)
    (hsorted : log.Pairwise fun a b => time b ≤ time a) {k : ℕ} {t : ℤ}
    (hk : ∀ a ∈ log, t ≤ time a → time a ≤ t + width → capped a k) :
    inWindow (log.map time) t (t + width) ≤ k := by
  induction log with
  | nil => exact Nat.zero_le _
  | cons a log ih =>
    obtain ⟨hfirst, hrest⟩ := List.pairwise_cons.1 hsorted
    have hlater := ih h.2 hrest fun b hb => hk b (List.mem_cons_of_mem a hb)
    rw [List.map_cons, inWindow_cons]
    by_cases hin : t ≤ time a ∧ time a ≤ t + width
    · -- The earlier events of the window are not before the window up to its last event.
      have hcount := h.1 k (hk a List.mem_cons_self hin.1 hin.2)
      have hle : inWindow (log.map time) t (t + width) ≤
          countSince (log.map time) (time a - width) :=
        inWindow_le_countSince (by linarith [hin.2])
      rw [if_pos hin]
      omega
    · rw [if_neg hin]
      exact hlater

end Spaced

end Foundations
