import Munin.Journeys.Runtime.Execute
import Munin.Journeys.Schedules

/-!
# The search for a send window

A message that may not go out now waits for the next moment that its windows allow; a delay is
moved on to the next valid time in the same way. Windows begin and end at any minute. The search
tries the start, and then every quarter of an hour of the next eight days.

* **`validTime`, `nextFitting`** — the search of `nextValidTime`; that of `nextSendableTime` is with
  the send policy.
* **`FindsWindow`** — the law: a moment that is allowed, not before the start, if a whole minute of
  the span is, and none otherwise.
* **`Sampled`** — a whole minute of the span is allowed if and only if the start or a quarter of an
  hour is.
* **`window_search_exact`** — the law holds if and only if that does.
-/

namespace Munin

open Foundations

/-! ### The search of `nextValidTime` -/

section

variable (localClock : LocalClock) (timezone : String)

/-- Whether a moment is on a valid day and in the valid hours. -/
def validTime (validDays : Option (List Weekday)) (validHours : Option String) (at' : Instant) :
    Bool :=
  let clock := localClock at' timezone
  (validDays.all fun days => decide (clock.1 ∈ days)) &&
    (!truthy validHours || validHours.any (inTimeWindow clock.2))

/-- The search of `nextValidTime`; without a find, the start. -/
def nextFitting (from' : Instant) (validDays : Option (List Weekday))
    (validHours : Option String) : Instant :=
  let fits := validTime localClock timezone validDays validHours
  if fits from' then from' else ((searchTimes from').find? fits).getD from'

end

/-! ### The law -/

/-- The whole minutes of the next eight days. -/
def InSpan (from' t : Instant) : Prop :=
  from' ≤ t ∧ t - from' ≤ SEARCH_LIMIT_MS ∧ 60000 ∣ t

/-- **The law** of a search. -/
structure FindsWindow (fits : Instant → Bool) (from' : Instant) (found : Option Instant) :
    Prop where
  complete : (∃ t, InSpan from' t ∧ fits t = true) → ∃ t ∈ found, from' ≤ t ∧ fits t = true
  sound : (¬ ∃ t, InSpan from' t ∧ fits t = true) → found = none

/-- The start is allowed, or a quarter of an hour. -/
def QuarterFits (fits : Instant → Bool) (from' : Instant) : Prop :=
  fits from' = true ∨ ∃ t, InSpan from' t ∧ STEP_MS ∣ t ∧ fits t = true

/-- **The condition.** -/
def Sampled (fits : Instant → Bool) (from' : Instant) : Prop :=
  (∃ t, InSpan from' t ∧ fits t = true) ↔ QuarterFits fits from'

/-! ### The quarters of an hour -/

/-- The quarters are counted from the first one. -/
theorem exists_index {from' k : ℤ} (hfrom : from' ≤ 900000 * k)
    (hspan : 900000 * k - from' ≤ 691200000) :
    ∃ i : ℕ, i < 769 ∧ -(-from' / 900000) * 900000 + i * 900000 = 900000 * k := by
  have hindex : 0 ≤ k + -from' / 900000 := by omega
  obtain ⟨i, hi⟩ := Int.eq_ofNat_of_zero_le hindex
  exact ⟨i, by omega, by omega⟩

/-- The search tries exactly the quarters of the span. -/
theorem mem_searchTimes {from' t : Instant} :
    t ∈ searchTimes from' ↔ from' ≤ t ∧ t - from' ≤ SEARCH_LIMIT_MS ∧ STEP_MS ∣ t := by
  constructor
  · intro h
    refine ⟨le_of_mem_searchTimes h, of_decide_eq_true (List.mem_filter.1 h).2, ?_⟩
    obtain ⟨i, -, rfl⟩ := List.mem_map.1 (List.mem_filter.1 h).1
    exact Int.dvd_add (Int.dvd_mul_left _ _) (Int.dvd_mul_left _ _)
  · rintro ⟨hfrom, hspan, k, rfl⟩
    obtain ⟨i, hi, heq⟩ := exists_index hfrom hspan
    exact List.mem_filter.2 ⟨List.mem_map.2 ⟨i, List.mem_range.2 hi, heq⟩, decide_eq_true hspan⟩

section Search

variable {fits : Instant → Bool} {from' : Instant}

/-- A quarter that the search finds is one of the span. -/
theorem QuarterFits.of_find {t : Instant} (h : (searchTimes from').find? fits = some t) :
    InSpan from' t ∧ STEP_MS ∣ t ∧ fits t = true := by
  obtain ⟨hfrom, hspan, hstep⟩ := mem_searchTimes.1 (List.mem_of_find?_eq_some h)
  have hminute : (60000 : ℤ) ∣ STEP_MS := by decide
  exact ⟨⟨hfrom, hspan, hminute.trans hstep⟩, hstep, List.find?_some h⟩

/-- The search finds nothing exactly if neither the start nor a quarter is allowed. -/
theorem find_eq_none_iff (hstart : fits from' = false) :
    (searchTimes from').find? fits = none ↔ ¬ QuarterFits fits from' := by
  rw [List.find?_eq_none]
  constructor
  · rintro h (hfits | ⟨t, ⟨hfrom, hspan, -⟩, hstep, hfits⟩)
    · rw [hstart] at hfits
      cases hfits
    · exact h t (mem_searchTimes.2 ⟨hfrom, hspan, hstep⟩) hfits
  · intro h t ht hfits
    obtain ⟨hfrom, hspan, hstep⟩ := mem_searchTimes.1 ht
    have hminute : (60000 : ℤ) ∣ STEP_MS := by decide
    exact h (.inr ⟨t, ⟨hfrom, hspan, hminute.trans hstep⟩, hstep, hfits⟩)

/-- The search from the start. -/
theorem findsWindow_iff :
    FindsWindow fits from' (if fits from' then some from' else (searchTimes from').find? fits) ↔
      Sampled fits from' := by
  constructor
  · intro h
    constructor
    · intro hsome
      obtain ⟨t, ht, -, hfits⟩ := h.complete hsome
      split at ht
      · exact .inl ‹_›
      · exact .inr ⟨t, QuarterFits.of_find ht⟩
    · intro hquarter
      by_contra hnone
      have hsearch := h.sound hnone
      split at hsearch
      · cases hsearch
      · rename_i hstart
        exact (find_eq_none_iff (eq_false_of_ne_true hstart)).1 hsearch hquarter
  · intro h
    refine ⟨fun hsome => ?_, fun hnone => ?_⟩
    · by_cases hstart : fits from' = true
      · exact ⟨from', if_pos hstart, Int.le_refl _, hstart⟩
      · rw [if_neg hstart]
        cases hfound : (searchTimes from').find? fits with
        | none =>
          have hquarter := (find_eq_none_iff (eq_false_of_ne_true hstart)).1 hfound
          exact absurd (h.1 hsome) hquarter
        | some t =>
          obtain ⟨hspan, -, hfits⟩ := QuarterFits.of_find hfound
          exact ⟨t, rfl, hspan.1, hfits⟩
    · have hquarter := mt h.2 hnone
      have hstart : fits from' = false := eq_false_of_ne_true fun hfits => hquarter (.inl hfits)
      rw [if_neg (by rw [hstart]; exact Bool.false_ne_true)]
      exact (find_eq_none_iff hstart).2 hquarter

/-- The search that falls back to the start. -/
theorem fitting_iff :
    ((∃ t, InSpan from' t ∧ fits t = true) →
      from' ≤ (if fits from' then from' else ((searchTimes from').find? fits).getD from') ∧
      fits (if fits from' then from' else ((searchTimes from').find? fits).getD from') = true) ↔
    ((∃ t, InSpan from' t ∧ fits t = true) → QuarterFits fits from') := by
  refine forall_congr' fun _ => ?_
  by_cases hstart : fits from' = true
  · rw [if_pos hstart]
    exact iff_of_true ⟨Int.le_refl _, hstart⟩ (.inl hstart)
  · rw [if_neg hstart]
    cases hfound : (searchTimes from').find? fits with
    | none =>
      refine iff_of_false (fun h => hstart h.2) ?_
      exact (find_eq_none_iff (eq_false_of_ne_true hstart)).1 hfound
    | some t =>
      have hfind := QuarterFits.of_find hfound
      exact iff_of_true ⟨hfind.1.1, hfind.2.2⟩ (.inr ⟨t, hfind⟩)

end Search

/-! ### Both searches -/

/-- Without days and hours every moment is valid. -/
theorem nextValidTime_eq (env : StepEnv) (localClock : LocalClock) (timezone : String)
    (from' : Instant) (validDays : Option (List Weekday)) (validHours : Option String) :
    nextValidTime { env with nextFitting := nextFitting localClock timezone } from' validDays
      validHours = nextFitting localClock timezone from' validDays validHours := by
  unfold nextValidTime
  split
  · rename_i hnone
    rw [Bool.and_eq_true, Option.isNone_iff_eq_none] at hnone
    obtain ⟨rfl, hhours⟩ := hnone
    have hfits : validTime localClock timezone none validHours from' = true := by
      rw [validTime, hhours]
      rfl
    exact (if_pos hfits).symm
  · rfl

/-- **The searches are sound, and complete if and only if they sample the span**: a message finds a
window, and a delay a valid time, exactly if a quarter of an hour does where a minute does. -/
theorem window_search_exact (localClock : LocalClock) (timezone : String) (from' : Instant)
    (validDays : Option (List Weekday)) (quietWindows : List String) (validHours : Option String)
    (env : StepEnv) :
    (FindsWindow (sendable localClock timezone validDays quietWindows) from'
        (nextSendableTime localClock from' timezone validDays quietWindows) ↔
      Sampled (sendable localClock timezone validDays quietWindows) from') ∧
    (((∃ t, InSpan from' t ∧ validTime localClock timezone validDays validHours t = true) →
        from' ≤ nextValidTime { env with nextFitting := nextFitting localClock timezone } from'
          validDays validHours ∧
        validTime localClock timezone validDays validHours
          (nextValidTime { env with nextFitting := nextFitting localClock timezone } from'
            validDays validHours) = true) ↔
      ((∃ t, InSpan from' t ∧ validTime localClock timezone validDays validHours t = true) →
        QuarterFits (validTime localClock timezone validDays validHours) from')) := by
  rw [nextValidTime_eq]
  exact ⟨findsWindow_iff, fitting_iff⟩

/-- Messages may go out, and a delay may end, between 09:01 and 09:14: there is no window, and the
delay ends at midnight. -/
theorem window_search_misses :
    (∃ t, InSpan 0 t ∧
      sendable (localClock fun _ => TimeZone.utc) "UTC" none ["09:14-09:01"] t = true) ∧
    nextSendableTime (localClock fun _ => TimeZone.utc) 0 "UTC" none ["09:14-09:01"] = none ∧
    (∃ t, InSpan 0 t ∧
      validTime (localClock fun _ => TimeZone.utc) "UTC" none (some "09:01-09:14") t = true) ∧
    validTime (localClock fun _ => TimeZone.utc) "UTC" none (some "09:01-09:14")
      (nextValidTime { now := 0, clock := 0
                       nextFitting := nextFitting (localClock fun _ => TimeZone.utc) "UTC" }
        0 none (some "09:01-09:14")) = false := by
  have hspan : InSpan 0 (541 * 60000) := ⟨by decide, by decide, by decide⟩
  refine ⟨⟨541 * 60000, hspan, by decide +kernel⟩, by decide +kernel, ⟨541 * 60000, hspan, ?_⟩, ?_⟩
  · decide +kernel
  · decide +kernel

end Munin
