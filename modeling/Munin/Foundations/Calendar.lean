import Munin.Foundations.Instant

/-!
# Day numbers and dates

The proleptic Gregorian calendar, from dates to day numbers, beside `Instant.civil`, which goes the
other way. Days are counted from the epoch; a day beyond the end of its month belongs to the next.

* **`dayNumber`** — the number of a day, by year, month and day of the month.
* **`dayNumber_civil`** — a day number comes back from its date; `civil_bounds` says which months
  and days occur.
* **`dayNumber_add_year`**, **`year_lt_iff`** — how days are counted over years, and how a day
  number bounds the year of its date.
-/

namespace Foundations.Instant

/-- The number of a day. Years are counted from March, so that leap days end them. -/
def dayNumber (y : ℤ) (m d : ℕ) : ℤ :=
  let y' := if m ≤ 2 then y - 1 else y
  365 * y' + y' / 4 - y' / 100 + y' / 400 + (153 * (((m : ℤ) + 9) % 12) + 2) / 5 + d - 719469

example : dayNumber 1970 1 1 = 0 := by decide

example : dayNumber 2024 2 29 = 19782 := by decide

variable {doe : ℕ}

/-- A day of an era: its century, its four years in that, its year in these, its day in that. -/
theorem era_parts (h : doe < 146097) :
    ∃ c q a t, c ≤ 3 ∧ q ≤ 24 ∧ a ≤ 3 ∧ t ≤ 365 ∧ (t = 365 → a = 3) ∧
      (q = 24 → c < 3 → 365 * a + t < 1460) ∧ doe = 36524 * c + 1461 * q + 365 * a + t := by
  refine ⟨min (doe / 36524) 3, (doe - 36524 * min (doe / 36524) 3) / 1461,
    min ((doe - 36524 * min (doe / 36524) 3) % 1461 / 365) 3,
    (doe - 36524 * min (doe / 36524) 3) % 1461 -
      365 * min ((doe - 36524 * min (doe / 36524) 3) % 1461 / 365) 3, ?_⟩
  omega

/-- The year of an era that a day of the era is in. -/
def yearOfEra (doe : ℕ) : ℕ := (doe - doe / 1460 + doe / 36524 - doe / 146096) / 365

/-- Within its four years, a day is late if one more leap day has passed than years say. -/
theorem late_bounds {c q a t : ℕ} (hc : c ≤ 3) (hq : q ≤ 24) (ha : a ≤ 3) (ht : t ≤ 365)
    (hleap : t = 365 → a = 3) :
    (24 * c + q + 365 * a + t) / 1460 ≤ t ∧ t < (24 * c + q + 365 * a + t) / 1460 + 365 := by
  by_cases hlate : 24 * c + q + 365 * a + t < 1460
  · rw [Nat.div_eq_of_lt hlate]
    omega
  · have hone : (24 * c + q + 365 * a + t) / 1460 = 1 :=
      Nat.div_eq_of_lt_le (by omega) (by omega)
    omega

/-- The hundred years of an era, but for its last day. -/
theorem century_eq {c q a t : ℕ} (h : doe < 146097) (hc : c ≤ 3) (hq : q ≤ 24) (ha : a ≤ 3)
    (ht : t ≤ 365) (hcentury : q = 24 → c < 3 → 365 * a + t < 1460)
    (hdoe : doe = 36524 * c + 1461 * q + 365 * a + t) : doe / 36524 = c + doe / 146096 := by
  obtain rfl | hlt : c = 3 ∨ c < 3 := by omega
  · omega
  · have hrest : 1461 * q + 365 * a + t ≤ 36523 := by
      obtain rfl | hq : q = 24 ∨ q < 24 := by omega
      · have := hcentury rfl hlt
        omega
      · omega
    omega

/-- A year of the era begins when 365 days for each year and its leap days have passed. -/
theorem yearOfEra_spec (h : doe < 146097) : yearOfEra doe < 400 ∧
      365 * yearOfEra doe + yearOfEra doe / 4 - yearOfEra doe / 100 ≤ doe ∧
      doe ≤ 365 * yearOfEra doe + yearOfEra doe / 4 - yearOfEra doe / 100 + 365 := by
  obtain ⟨c, q, a, t, hc, hq, ha, ht, hleap, hcentury, hdoe⟩ := era_parts h
  have hyoe : yearOfEra doe = 100 * c + 4 * q + a := by
    have hfour : doe / 1460 = 25 * c + q + (24 * c + q + 365 * a + t) / 1460 := by omega
    have hlate := late_bounds hc hq ha ht hleap
    have hdays : doe - doe / 1460 + doe / 36524 - doe / 146096 =
        365 * (100 * c + 4 * q + a) + (t - (24 * c + q + 365 * a + t) / 1460) := by
      rw [hfour, century_eq h hc hq ha ht hcentury hdoe]
      generalize (24 * c + q + 365 * a + t) / 1460 = late at hlate
      generalize doe / 146096 = last
      omega
    rw [yearOfEra, hdays, Nat.mul_add_div (by decide), Nat.add_eq_left]
    exact Nat.div_eq_of_lt (by omega)
  have hquarter : (100 * c + 4 * q + a) / 4 = 25 * c + q := by omega
  have hhundred : (100 * c + 4 * q + a) / 100 = c := by omega
  rw [hyoe, hquarter, hhundred]
  omega

/-- A day by its month counted from March. -/
theorem dayNumber_march (y : ℤ) {mp : ℕ} (hmp : mp < 12) (d : ℕ) :
    dayNumber (if (if mp < 10 then mp + 3 else mp - 9) ≤ 2 then y + 1 else y)
      (if mp < 10 then mp + 3 else mp - 9) d =
      365 * y + y / 4 - y / 100 + y / 400 + (153 * mp + 2) / 5 + d - 719469 := by
  unfold dayNumber
  by_cases h : mp < 10
  · have hm : ((mp + 3 : ℕ) + 9 : ℤ) % 12 = mp := by omega
    rw [if_pos h, if_neg (by omega), if_neg (by omega), hm]
  · have hm : ((mp - 9 : ℕ) + 9 : ℤ) % 12 = mp := by omega
    rw [if_neg h, if_pos (by omega), if_pos (by omega), hm, Int.add_sub_cancel]

/-- The parts of a date, as `civil` computes them. -/
theorem civil_parts (day : ℤ) :
    ∃ yoe doy mp : ℕ, yoe < 400 ∧ doy ≤ 365 ∧ mp = (5 * doy + 2) / 153 ∧
      day + 719468 = (day + 719468) / 146097 * 146097 + 365 * yoe + yoe / 4 - yoe / 100 + doy ∧
      civil day =
        (if (if mp < 10 then mp + 3 else mp - 9) ≤ 2
          then (yoe : ℤ) + (day + 719468) / 146097 * 400 + 1
          else (yoe : ℤ) + (day + 719468) / 146097 * 400,
        if mp < 10 then mp + 3 else mp - 9, doy - (153 * mp + 2) / 5 + 1) := by
  have hdoe : ((day + 719468) % 146097).toNat < 146097 := by omega
  obtain ⟨hyoe, hstart, hend⟩ := yearOfEra_spec hdoe
  refine ⟨yearOfEra ((day + 719468) % 146097).toNat,
    ((day + 719468) % 146097).toNat - (365 * yearOfEra ((day + 719468) % 146097).toNat +
      yearOfEra ((day + 719468) % 146097).toNat / 4 -
      yearOfEra ((day + 719468) % 146097).toNat / 100), _, hyoe, by omega, rfl, ?_, rfl⟩
  generalize yearOfEra ((day + 719468) % 146097).toNat = yoe at hyoe hstart hend ⊢
  omega

/-- **A day number comes back from its date.** -/
theorem dayNumber_civil (day : ℤ) :
    dayNumber (civil day).1 (civil day).2.1 (civil day).2.2 = day := by
  obtain ⟨yoe, doy, mp, hyoe, hdoy, hmp, hday, hcivil⟩ := civil_parts day
  rw [hcivil, dayNumber_march _ (by omega)]
  generalize (day + 719468) / 146097 = era at hday ⊢
  have hquarter : ((yoe : ℤ) + era * 400) / 4 = yoe / 4 + era * 100 := by omega
  have hhundred : ((yoe : ℤ) + era * 400) / 100 = yoe / 100 + era * 4 := by omega
  have hera : ((yoe : ℤ) + era * 400) / 400 = era := by omega
  have hmonth : (153 * mp + 2) / 5 ≤ doy := by omega
  rw [hquarter, hhundred, hera]
  push_cast
  omega

theorem civil_bounds (day : ℤ) :
    1 ≤ (civil day).2.1 ∧ (civil day).2.1 ≤ 12 ∧ 1 ≤ (civil day).2.2 ∧ (civil day).2.2 ≤ 31 := by
  obtain ⟨yoe, doy, mp, -, hdoy, hmp, -, hcivil⟩ := civil_parts day
  rw [hcivil]
  dsimp only
  split <;> omega

/-! ### Years -/

/-- From one year to a later one, as many leap days are added as there are years, or fewer. -/
theorem leapDays_bounds {y z : ℤ} (h : y ≤ z) :
    y / 4 - y / 100 + y / 400 ≤ z / 4 - z / 100 + z / 400 ∧
      z / 4 - z / 100 + z / 400 ≤ y / 4 - y / 100 + y / 400 + (z - y) := by
  omega

/-- From year to year, a date moves on by 365 days at least, and by 366 at most. -/
theorem dayNumber_add_year {y z : ℤ} (h : y ≤ z) (m d : ℕ) :
    dayNumber y m d + 365 * (z - y) ≤ dayNumber z m d ∧
      dayNumber z m d ≤ dayNumber y m d + 366 * (z - y) := by
  unfold dayNumber
  dsimp only
  split
  · have hleap := leapDays_bounds (show y - 1 ≤ z - 1 by omega)
    omega
  · have hleap := leapDays_bounds h
    omega

/-- A date is in its year. -/
theorem dayNumber_bounds (y : ℤ) {m d : ℕ} (hm : 1 ≤ m) (hm' : m ≤ 12) (hd : 1 ≤ d)
    (hd' : d ≤ 31) : dayNumber y 1 1 ≤ dayNumber y m d ∧ dayNumber y m d < dayNumber (y + 1) 1 1 := by
  have hleap := leapDays_bounds (show y - 1 ≤ y by omega)
  unfold dayNumber
  dsimp only
  rw [if_pos (show (1 : ℕ) ≤ 2 by decide), if_pos (show (1 : ℕ) ≤ 2 by decide), Int.add_sub_cancel]
  split <;> omega

/-- The years before a year are those of the days before its first one. -/
theorem year_lt_iff {day Y : ℤ} : (civil day).1 < Y ↔ day < dayNumber Y 1 1 := by
  obtain ⟨hm, hm', hd, hd'⟩ := civil_bounds day
  have hbounds := dayNumber_bounds (civil day).1 hm hm' hd hd'
  rw [dayNumber_civil] at hbounds
  constructor
  · intro h
    have hle := (dayNumber_add_year (show (civil day).1 + 1 ≤ Y by omega) 1 1).1
    omega
  · intro h
    refine Int.lt_of_not_ge fun hY => ?_
    have hle := (dayNumber_add_year (show Y ≤ (civil day).1 by omega) 1 1).1
    omega

end Foundations.Instant
