import Mathlib.Algebra.GroupWithZero.Nat
import Munin.Foundations.Calendar
import Munin.Foundations.SparseChanges
import Mathlib.Data.List.Induction

/-!
# Local times of a time zone

Journeys take a date and time without an offset as a local one, in the time zone of the journey.
What the local clock shows at a moment comes from the formatter of the platform, as parts; from
these the offset is computed, and the local time is read with two rounds of correction.

* **`TimeZone`** — a zone, by its offset at each moment; `formatToParts` is what it displays.
* **`zoneOffsetMs`, `parseZonedDate`** — the functions of the source, on strings.
* **`TimeZone.Shows`** — the clock of the zone shows a string, to the last digit.
* **`parseZonedDate_eq_iff`** — if the clock shows a string once, it is read as that moment exactly
  if the years displayed on the way are 100 or later.
-/

namespace Munin

open Foundations

/-! ### Time zones -/

/-- A time zone: how far its clocks are ahead, in milliseconds. That is in whole seconds, and by a
day at most. -/
structure TimeZone where
  offset : Instant → ℤ
  wholeSeconds : ∀ t, offset t % 1000 = 0
  bounded : ∀ t, -86400000 ≤ offset t ∧ offset t ≤ 86400000

namespace TimeZone

/-- The clock without an offset. -/
def utc : TimeZone := ⟨fun _ => 0, fun _ => rfl, fun _ => ⟨by decide, by decide⟩⟩

variable (zone : TimeZone)

/-- What the local clock shows, as the moment at which a clock without an offset shows it. -/
def wall (t : Instant) : ℤ := t + zone.offset t

/-- The local year. -/
def year (t : Instant) : ℤ := (Instant.civil (zone.wall t / 86400000)).1

/-- The parts of `formatToParts`, with a numeric year and no era. -/
structure Parts where
  year : ℤ
  month : ℕ
  day : ℕ
  hour : ℕ
  minute : ℕ
  second : ℕ

/-- `Intl.DateTimeFormat(..).formatToParts`; the year before year 1 is displayed as 1 again. -/
def formatToParts (t : Instant) : Parts :=
  let date := Instant.civil (zone.wall t / 86400000)
  let ms := (zone.wall t % 86400000).toNat
  { year := if 1 ≤ date.1 then date.1 else 1 - date.1
    month := date.2.1
    day := date.2.2
    hour := ms / 3600000
    minute := ms / 60000 % 60
    second := ms / 1000 % 60 }

end TimeZone

/-- `Date.UTC`; of the years, those up to 99 are meant to be in the twentieth century. -/
def dateUTC (year : ℤ) (month day hour minute second : ℕ) : ℤ :=
  Instant.dayNumber (if 0 ≤ year ∧ year ≤ 99 then 1900 + year else year) month day * 86400000 +
    hour * 3600000 + minute * 60000 + second * 1000

/-- `zoneOffsetMs`. -/
def zoneOffsetMs (moment : Instant) (zone : TimeZone) : ℤ :=
  let parts := zone.formatToParts moment
  let wall := dateUTC parts.year parts.month parts.day parts.hour parts.minute parts.second
  wall - moment / 1000 * 1000

/-! ### Date and time as text -/

def digitChar (n : ℕ) : Char := Char.ofNat (48 + n)

def digitValue (c : Char) : Option ℕ :=
  if '0' ≤ c ∧ c ≤ '9' then some (c.toNat - 48) else none

/-- The value of decimal digits. -/
def decimal (cs : List Char) : Option ℕ :=
  cs.foldlM (fun n c => (digitValue c).map (10 * n + ·)) 0

/-- A number as so many digits. -/
def digits : ℕ → ℕ → List Char
  | 0, _ => []
  | width + 1, n => digits width (n / 10) ++ [digitChar (n % 10)]

/-- What the time of a naive string goes on with: seconds, and milliseconds by the first three
digits of their fraction. -/
def secondsOf : List Char → Option (ℕ × ℕ)
  | [] => some (0, 0)
  | ':' :: s₁ :: s₂ :: rest => do
    let s ← decimal [s₁, s₂]
    match rest with
    | [] => some (s, 0)
    | '.' :: f :: fs =>
      let _ ← decimal (f :: fs)
      let ms ← decimal ((f :: fs ++ ['0', '0']).take 3)
      some (s, ms)
    | _ => none
  | _ => none

/-- A string that `NAIVE_LOCAL_TIME` matches, taken apart. -/
structure NaiveTime where
  year : ℕ
  month : ℕ
  day : ℕ
  hour : ℕ
  minute : ℕ
  second : ℕ
  millisecond : ℕ

/-- `NAIVE_LOCAL_TIME`. -/
def naiveLocalTime : List Char → Option NaiveTime
  | y₁ :: y₂ :: y₃ :: y₄ :: '-' :: m₁ :: m₂ :: '-' :: d₁ :: d₂ :: 'T' :: h₁ :: h₂ :: ':' :: i₁ ::
      i₂ :: rest => do
    let year ← decimal [y₁, y₂, y₃, y₄]
    let month ← decimal [m₁, m₂]
    let day ← decimal [d₁, d₂]
    let hour ← decimal [h₁, h₂]
    let minute ← decimal [i₁, i₂]
    let (second, millisecond) ← secondsOf rest
    some { year, month, day, hour, minute, second, millisecond }
  | _ => none

/-- `Date.parse` of such a string with `Z` after it. A 24th hour is allowed if nothing follows, and
a day beyond the end of its month, up to 31, belongs to the next. -/
def NaiveTime.parseUtc (n : NaiveTime) : Option ℤ :=
  if 1 ≤ n.month ∧ n.month ≤ 12 ∧ 1 ≤ n.day ∧ n.day ≤ 31 ∧
      (n.hour < 24 ∧ n.minute < 60 ∧ n.second < 60 ∨
        n.hour = 24 ∧ n.minute = 0 ∧ n.second = 0 ∧ n.millisecond = 0) then
    some (Instant.dayNumber n.year n.month n.day * 86400000 + n.hour * 3600000 +
      n.minute * 60000 + n.second * 1000 + n.millisecond)
  else none

/-- A value that may be a date. -/
inductive DateValue where
  | date (t : Instant)
  | text (s : String)
  | other

/-- `parseZonedDate`; `dateParse` is the platform's `Date.parse`, for other strings. -/
def parseZonedDate (dateParse : String → Option Instant) (value : DateValue) (zone : TimeZone) :
    Option Instant :=
  match value with
  | .date t => some t
  | .other => none
  | .text s =>
    match naiveLocalTime s.toList with
    | none => dateParse s
    | some n => n.parseUtc.map fun asUtc =>
      let first := asUtc - zoneOffsetMs asUtc zone
      asUtc - zoneOffsetMs first zone

/-! ### What a clock shows -/

/-- How much of a time is shown: to the minute, to the second, or `n + 1` digits of its fraction. -/
inductive Precision where
  | minutes
  | seconds
  | fraction (n : ℕ)

namespace Precision

/-- What follows the minutes. -/
def tail (second millisecond : ℕ) : Precision → List Char
  | minutes => []
  | seconds => ':' :: digits 2 second
  | fraction n => ':' :: digits 2 second ++
      '.' :: (digits 3 millisecond ++ List.replicate n '0').take (n + 1)

/-- Nothing is left out of the time that is shown. -/
def Exact (second millisecond : ℕ) : Precision → Prop
  | minutes => second = 0 ∧ millisecond = 0
  | seconds => millisecond = 0
  | fraction n => millisecond % 10 ^ (2 - n) = 0

instance (second millisecond : ℕ) (precision : Precision) :
    Decidable (precision.Exact second millisecond) := by
  cases precision <;> dsimp only [Exact] <;> infer_instance

end Precision

/-- The date and time of a clock, as a naive string. -/
def wallText (precision : Precision) (wall : ℤ) : List Char :=
  let (y, m, d) := Instant.civil (wall / 86400000)
  let ms := (wall % 86400000).toNat
  digits 4 y.toNat ++ '-' :: digits 2 m ++ '-' :: digits 2 d ++ 'T' :: digits 2 (ms / 3600000) ++
    ':' :: digits 2 (ms / 60000 % 60) ++ precision.tail (ms / 1000 % 60) (ms % 1000)

/-- The clock of the zone shows the string at the moment, to the last digit. -/
def TimeZone.Shows (zone : TimeZone) (t : Instant) (s : String) : Prop :=
  ∃ precision : Precision,
    precision.Exact ((zone.wall t % 86400000).toNat / 1000 % 60)
      ((zone.wall t % 86400000).toNat % 1000) ∧
    0 ≤ zone.year t ∧ zone.year t ≤ 9999 ∧ s.toList = wallText precision (zone.wall t)

/-! ### Reading back what a clock shows -/

theorem digitValue_digitChar : ∀ {n : ℕ}, n < 10 → digitValue (digitChar n) = some n
  | 0, _ | 1, _ | 2, _ | 3, _ | 4, _ | 5, _ | 6, _ | 7, _ | 8, _ | 9, _ => by decide
  | _ + 10, h => absurd h (by omega)

variable {n : ℕ} {t : Instant} {y : ℤ}

theorem decimal_append_digit {cs : List Char} {m : ℕ} (h : decimal cs = some m) (hn : n < 10) :
    decimal (cs ++ [digitChar n]) = some (10 * m + n) := by
  unfold decimal at h ⊢
  rw [List.foldlM_append, h]
  simp [digitValue_digitChar hn]

/-- Digits give the number back. -/
theorem decimal_digits {width : ℕ} (h : n < 10 ^ width) : decimal (digits width n) = some n := by
  induction width generalizing n with
  | zero =>
    obtain rfl : n = 0 := by omega
    rfl
  | succ width ih =>
    have hsome := decimal_append_digit (ih (n := n / 10) (by omega)) (Nat.mod_lt n (by decide))
    rw [digits, hsome, Nat.div_add_mod]

theorem mem_digits {c : Char} {width : ℕ} (h : c ∈ digits width n) : ∃ k < 10, c = digitChar k := by
  induction width generalizing n with
  | zero => cases h
  | succ width ih =>
    rcases List.mem_append.1 h with h | h
    · exact ih h
    · exact ⟨n % 10, Nat.mod_lt n (by decide), List.mem_singleton.1 h⟩

/-- All digits have a value. -/
theorem decimal_isSome {cs : List Char} (h : ∀ c ∈ cs, ∃ k < 10, c = digitChar k) :
    ∃ m, decimal cs = some m := by
  induction cs using List.reverseRecOn with
  | nil => exact ⟨0, rfl⟩
  | append_singleton cs c ih =>
    obtain ⟨m, hm⟩ := ih fun c' hc' => h c' (List.mem_append_left _ hc')
    obtain ⟨k, hk, rfl⟩ := h c (List.mem_append_right _ (List.mem_singleton_self c))
    exact ⟨_, decimal_append_digit hm hk⟩

/-- The first three digits of a fraction that is shown exactly are the milliseconds. -/
theorem take_fraction {ms : ℕ} (h : ms % 10 ^ (2 - n) = 0) :
    ((digits 3 ms ++ List.replicate n '0').take (n + 1) ++ ['0', '0']).take 3 = digits 3 ms := by
  match n with
  | 0 =>
    have htens : ms / 10 % 10 = 0 := by omega
    have hones : ms % 10 = 0 := by omega
    simp only [digits, List.nil_append, List.cons_append, htens, hones]
    rfl
  | 1 =>
    have hones : ms % 10 = 0 := by omega
    simp only [digits, List.nil_append, List.cons_append, hones]
    rfl
  | n + 2 =>
    have hlen : (digits 3 ms).length = 3 := rfl
    rw [show n + 2 + 1 = (digits 3 ms).length + n by omega, List.take_length_add_append,
      List.append_assoc, List.take_left' hlen]

/-- The seconds come back from what is shown of them. -/
theorem secondsOf_tail {second millisecond : ℕ} (hs : second < 60) (hms : millisecond < 1000)
    {precision : Precision} (h : precision.Exact second millisecond) :
    secondsOf (precision.tail second millisecond) = some (second, millisecond) := by
  have hsecond : decimal (digits 2 second) = some second := decimal_digits (by omega)
  cases precision with
  | minutes => rw [h.1, h.2]; rfl
  | seconds =>
    obtain rfl : millisecond = 0 := h
    show (decimal (digits 2 second)).bind _ = _
    rw [hsecond]
    rfl
  | fraction n =>
    have htake := take_fraction h
    have hdigit : ∀ c ∈ (digits 3 millisecond ++ List.replicate n '0').take (n + 1),
        ∃ k < 10, c = digitChar k := by
      intro c hc
      rcases List.mem_append.1 (List.mem_of_mem_take hc) with hc | hc
      · exact mem_digits hc
      · exact ⟨0, by decide, (List.mem_replicate.1 hc).2⟩
    obtain ⟨m, hm⟩ := decimal_isSome hdigit
    show secondsOf (':' :: digits 2 second ++
      '.' :: (digits 3 millisecond ++ List.replicate n '0').take (n + 1)) = _
    cases hfraction : (digits 3 millisecond ++ List.replicate n '0').take (n + 1) with
    | nil => cases hfraction
    | cons f fs =>
      rw [hfraction] at htake hm
      show (decimal (digits 2 second)).bind (fun s => (decimal (f :: fs)).bind fun _ =>
        (decimal ((f :: fs ++ ['0', '0']).take 3)).bind fun ms => some (s, ms)) = _
      rw [hsecond, hm, htake, decimal_digits (by omega)]
      rfl

/-- A naive string, read part by part. -/
theorem naiveLocalTime_text (y m d h i : ℕ) (rest : List Char) :
    naiveLocalTime (digits 4 y ++ '-' :: digits 2 m ++ '-' :: digits 2 d ++ 'T' :: digits 2 h ++
        ':' :: digits 2 i ++ rest) =
      (do
        let year ← decimal (digits 4 y)
        let month ← decimal (digits 2 m)
        let day ← decimal (digits 2 d)
        let hour ← decimal (digits 2 h)
        let minute ← decimal (digits 2 i)
        let (second, millisecond) ← secondsOf rest
        some { year, month, day, hour, minute, second, millisecond }) :=
  rfl

/-- **What a clock shows to the last digit is read as the time of the clock.** -/
theorem parseUtc_wallText {wall : ℤ} (hy : 0 ≤ (Instant.civil (wall / 86400000)).1)
    (hy' : (Instant.civil (wall / 86400000)).1 ≤ 9999) {precision : Precision}
    (h : precision.Exact ((wall % 86400000).toNat / 1000 % 60)
      ((wall % 86400000).toNat % 1000)) :
    (naiveLocalTime (wallText precision wall)).bind (·.parseUtc) = some wall := by
  have hday := Instant.dayNumber_civil (wall / 86400000)
  obtain ⟨hm, hm', hd, hd'⟩ := Instant.civil_bounds (wall / 86400000)
  have hms : (wall % 86400000).toNat < 86400000 := by omega
  have hwall : wall = wall / 86400000 * 86400000 + (wall % 86400000).toNat := by omega
  unfold wallText
  dsimp only
  generalize (wall % 86400000).toNat = ms at h hms hwall ⊢
  generalize Instant.civil (wall / 86400000) = date at hy hy' hday hm hm' hd hd' ⊢
  obtain ⟨y, m, d⟩ := date
  dsimp only at hy hy' hday hm hm' hd hd' ⊢
  lift y to ℕ using hy
  rw [naiveLocalTime_text, Int.toNat_natCast, decimal_digits (by omega), decimal_digits (by omega), decimal_digits (by omega), decimal_digits (by omega),
    decimal_digits (by omega), secondsOf_tail (by omega) (by omega) h]
  dsimp only [Option.bind_eq_bind, Option.bind_some, NaiveTime.parseUtc]
  rw [if_pos ⟨hm, hm', hd, hd', .inl ⟨by omega, by omega, by omega⟩⟩]
  refine congrArg some ?_
  rw [hday]
  omega

/-- What a clock shows names one time of the clock. -/
theorem TimeZone.Shows.parseUtc {zone : TimeZone} {s : String} (h : zone.Shows t s) :
    (naiveLocalTime s.toList).bind (·.parseUtc) = some (zone.wall t) := by
  obtain ⟨precision, hexact, hy, hy', htext⟩ := h
  rw [htext]
  exact parseUtc_wallText hy hy' hexact

/-- The clock shows a string whenever it shows the same time. -/
theorem TimeZone.Shows.of_wall {zone : TimeZone} {t' : Instant} {s : String}
    (h : zone.Shows t s) (hwall : zone.wall t' = zone.wall t) : zone.Shows t' s := by
  obtain ⟨precision, hexact, hy, hy', htext⟩ := h
  have hyear : zone.year t' = zone.year t := by rw [TimeZone.year, TimeZone.year, hwall]
  refine ⟨precision, ?_⟩
  rw [hwall, hyear]
  exact ⟨hexact, hy, hy', htext⟩

/-! ### The offset from what is displayed -/

/-- The year that `Date.UTC` makes of a displayed one. -/
def readYear (y : ℤ) : ℤ :=
  let displayed := if 1 ≤ y then y else 1 - y
  if 0 ≤ displayed ∧ displayed ≤ 99 then 1900 + displayed else displayed

theorem readYear_of_le (h : 100 ≤ y) : readYear y = y := by
  have hdisplayed : (if 1 ≤ y then y else 1 - y) = y := if_pos (by omega)
  unfold readYear
  rw [hdisplayed]
  exact if_neg (by omega)

/-- An early year is read as one that is much later. -/
theorem readYear_of_lt (h : y < 100) : y + 199 ≤ readYear y := by
  unfold readYear
  dsimp only
  split <;> split <;> omega

theorem dateUTC_displayed (y : ℤ) (m d h i s : ℕ) :
    dateUTC (if 1 ≤ y then y else 1 - y) m d h i s =
      Instant.dayNumber (readYear y) m d * 86400000 + h * 3600000 + i * 60000 + s * 1000 :=
  rfl

variable (zone : TimeZone)

/-- The offset that is computed is off by the days between the local year and the year read. -/
theorem zoneOffsetMs_eq (t : Instant) :
    zoneOffsetMs t zone = zone.offset t +
      (Instant.dayNumber (readYear (zone.year t)) (Instant.civil (zone.wall t / 86400000)).2.1
        (Instant.civil (zone.wall t / 86400000)).2.2 - zone.wall t / 86400000) * 86400000 := by
  have hwhole := zone.wholeSeconds t
  have hwall : zone.wall t = t + zone.offset t := rfl
  unfold zoneOffsetMs TimeZone.formatToParts
  dsimp only
  rw [dateUTC_displayed, TimeZone.year]
  generalize Instant.dayNumber _ _ _ = day
  generalize zone.wall t = wall at hwall ⊢
  generalize zone.offset t = offset at hwhole hwall ⊢
  have hms : ((wall % 86400000).toNat : ℤ) = wall % 86400000 := Int.toNat_of_nonneg (by omega)
  omega

/-- In the years from 100 on, the offset is right. -/
theorem zoneOffsetMs_of_le (h : 100 ≤ zone.year t) : zoneOffsetMs t zone = zone.offset t := by
  rw [zoneOffsetMs_eq, readYear_of_le h, TimeZone.year, Instant.dayNumber_civil]
  omega

/-- Before, it is off by centuries. -/
theorem zoneOffsetMs_of_lt (h : zone.year t < 100) :
    zone.offset t + 72635 * 86400000 ≤ zoneOffsetMs t zone := by
  have hread := readYear_of_lt h
  have hday := Instant.dayNumber_civil (zone.wall t / 86400000)
  have hyears := (Instant.dayNumber_add_year (show zone.year t ≤ readYear (zone.year t) by omega)
    (Instant.civil (zone.wall t / 86400000)).2.1 (Instant.civil (zone.wall t / 86400000)).2.2).1
  rw [zoneOffsetMs_eq]
  rw [← TimeZone.year] at hday
  omega

/-- Two days earlier, the local year is not a later one. -/
theorem TimeZone.year_of_le_lt {s t : ℤ} (h : zone.year t < y)
    (hst : s ≤ t - 2 * 86400000) : zone.year s < y := by
  have hs := zone.bounded s
  have ht := zone.bounded t
  rw [year, Instant.year_lt_iff] at h ⊢
  unfold wall at h ⊢
  omega

/-- The years that are displayed as a local time is read: the local ones of two moments, the one
that is named like the local time without an offset, and that one less its offset. -/
def TimeZone.DisplaysYears (wall : ℤ) : Prop :=
  100 ≤ zone.year wall ∧ 100 ≤ zone.year (wall - zone.offset wall)

instance (wall : ℤ) : Decidable (zone.DisplaysYears wall) := inferInstanceAs (Decidable (_ ∧ _))

variable {zone}

/-- Two rounds are right exactly in the years that are displayed as they are. -/
theorem rounds_eq_iff (hsparse : Sparse (2 * 86400000) zone.offset)
    (honce : ∀ t', zone.wall t' = zone.wall t → t' = t) :
    zone.wall t - zoneOffsetMs (zone.wall t - zoneOffsetMs (zone.wall t) zone) zone = t ↔
      zone.DisplaysYears (zone.wall t) := by
  have hrounds := hsparse.two_rounds (Int.le_refl _) zone.bounded honce
  have hwall : zone.wall t = t + zone.offset t := rfl
  rw [← hwall] at hrounds
  have hbound := zone.bounded t
  by_cases hfirst : 100 ≤ zone.year (zone.wall t)
  · rw [zoneOffsetMs_of_le zone hfirst]
    by_cases hsecond : 100 ≤ zone.year (zone.wall t - zone.offset (zone.wall t))
    · rw [zoneOffsetMs_of_le zone hsecond, hrounds]
      exact iff_of_true (by omega) ⟨hfirst, hsecond⟩
    · have hfar := zoneOffsetMs_of_lt zone (Int.lt_of_not_ge hsecond)
      exact iff_of_false (by omega) fun h => hsecond h.2
  · -- the first round leads so far back that the second one is wrong as well
    have hfar := zoneOffsetMs_of_lt zone (Int.lt_of_not_ge hfirst)
    have hsecond := zone.year_of_le_lt (Int.lt_of_not_ge hfirst)
      (show zone.wall t - zoneOffsetMs (zone.wall t) zone ≤ zone.wall t - 2 * 86400000 by
        have := zone.bounded (zone.wall t)
        omega)
    have hfar' := zoneOffsetMs_of_lt zone hsecond
    have hbound' := zone.bounded (zone.wall t - zoneOffsetMs (zone.wall t) zone)
    exact iff_of_false (by omega) fun h => hfirst h.1

/-- **Local times are read back.** In a zone whose offset changes are two days apart or more, let
the clock show a string at one moment only. Then that moment is what the string is read as, exactly
if the years displayed on the way are 100 or later. -/
theorem parseZonedDate_eq_iff (dateParse : String → Option Instant)
    (hsparse : Sparse (2 * 86400000) zone.offset) {t : Instant} {s : String}
    (hshows : zone.Shows t s) (honce : ∀ t', zone.Shows t' s → t' = t) :
    parseZonedDate dateParse (.text s) zone = some t ↔ zone.DisplaysYears (zone.wall t) := by
  obtain ⟨n, hn, hutc⟩ := Option.bind_eq_some_iff.1 hshows.parseUtc
  rw [← rounds_eq_iff hsparse fun t' hwall => honce t' (hshows.of_wall hwall)]
  simp only [parseZonedDate, hn, hutc, Option.map_some, Option.some.injEq]

/-- A zone that goes from one hour ahead to two, as summer begins in Oslo in 2026. -/
def summerBegins : TimeZone where
  offset := fun t : ℤ => if t < 1774746000000 then 3600000 else 7200000
  wholeSeconds _ := by split <;> rfl
  bounded _ := by split <;> decide

theorem sparse_summerBegins (gap : ℤ) : Sparse gap summerBegins.offset := by
  intro c c' hc hc' hlt
  simp only [ChangesAt, summerBegins] at hc hc'
  split at hc <;> split at hc <;> split at hc' <;> split at hc' <;> omega

/-- A local time within the hour after the change. -/
theorem parseZonedDate_eq_iff_sample :
    parseZonedDate (fun _ => none) (.text "2026-03-29T03:30:00.250") summerBegins =
      some 1774747800250 := by
  have hshows : summerBegins.Shows 1774747800250 "2026-03-29T03:30:00.250" :=
    ⟨.fraction 2, by decide +kernel⟩
  have honce : ∀ t' : ℤ, summerBegins.Shows t' "2026-03-29T03:30:00.250" → t' = 1774747800250 := by
    intro t' h
    have hwall := Option.some.inj (h.parseUtc.symm.trans hshows.parseUtc)
    simp only [TimeZone.wall, summerBegins] at hwall
    split at hwall <;> split at hwall <;> omega
  exact (parseZonedDate_eq_iff _ (sparse_summerBegins _) hshows honce).2 (by decide +kernel)

/-- **An early year is not read back**: a date in the year 50, without any offset. -/
theorem parseZonedDate_year_50 :
    ∃ t, Sparse (2 * 86400000) TimeZone.utc.offset ∧ TimeZone.utc.Shows t "0050-05-01T00:00" ∧
      (∀ t', TimeZone.utc.Shows t' "0050-05-01T00:00" → t' = t) ∧
      parseZonedDate (fun _ => none) (.text "0050-05-01T00:00") TimeZone.utc ≠ some t := by
  have hshows : TimeZone.utc.Shows (-60578928000000) "0050-05-01T00:00" :=
    ⟨.minutes, by decide +kernel⟩
  refine ⟨_, fun c _ hc _ _ => absurd rfl hc, hshows, fun t' h => ?_, by decide +kernel⟩
  have hwall := Option.some.inj (h.parseUtc.symm.trans hshows.parseUtc)
  simpa [TimeZone.wall, TimeZone.utc] using hwall

end Munin
