import Munin.Journeys.Runtime.ScheduledEntry
import Munin.Journeys.ZonedTime

/-!
# The times of a schedule

A segment is entered every day, or once a week, at a local time. The next occurrence is searched for
in steps of 24 hours; after each, the difference in minutes on the local clock is made up for.

* **`localClock`** — the clock of a time zone, for `nextLocalOccurrence` and the send windows.
* **`IsNextOccurrence`** — the law for one occurrence: the clock reads the time then, on the first
  day that has it and had it not before.
* **`KeepsTime`** — the condition: on each day up to the one that is due, the clock time is read on
  that day by a clock that kept the offset of the day before, and at the time by the offset found
  there that offset is in force. So no change carries the time over midnight, or skips it.
* **`schedule_exact`** — under the condition, a schedule occurs on every day that has its time, and
  once only; `daily_iff` says that a daily one needs the condition.
-/

namespace Munin

open Foundations

/-! ### The local clock -/

/-- The weekday of a day, counted from the epoch. -/
def weekdayOf (day : ℤ) : Weekday :=
  match ((day + 4) % 7).toNat with
  | 0 => .sun
  | 1 => .mon
  | 2 => .tue
  | 3 => .wed
  | 4 => .thu
  | 5 => .fri
  | _ => .sat

/-- The place of a weekday in the week. -/
def Weekday.index : Weekday → ℤ
  | .sun => 0
  | .mon => 1
  | .tue => 2
  | .wed => 3
  | .thu => 4
  | .fri => 5
  | .sat => 6

theorem index_weekdayOf (day : ℤ) : (weekdayOf day).index = (day + 4) % 7 := by
  unfold weekdayOf
  have hlt : (day + 4) % 7 < 7 := Int.emod_lt_of_pos _ (by decide)
  have hnonneg : 0 ≤ (day + 4) % 7 := Int.emod_nonneg _ (by decide)
  generalize (day + 4) % 7 = k at hlt hnonneg
  obtain rfl | rfl | rfl | rfl | rfl | rfl | rfl :
      k = 0 ∨ k = 1 ∨ k = 2 ∨ k = 3 ∨ k = 4 ∨ k = 5 ∨ k = 6 := by omega
  all_goals rfl

theorem Weekday.index_inj {v w : Weekday} (h : v.index = w.index) : v = w := by
  cases v <;> cases w <;> first | rfl | cases h

theorem weekdayOf_eq_iff {day : ℤ} {w : Weekday} :
    weekdayOf day = w ↔ (day + 4) % 7 = w.index := by
  rw [← index_weekdayOf]
  exact ⟨fun h => h ▸ rfl, Weekday.index_inj⟩

theorem Weekday.index_bounds (w : Weekday) : 0 ≤ w.index ∧ w.index < 7 := by
  cases w <;> decide

namespace TimeZone

variable (zone : TimeZone)

/-- The local day, counted from the epoch. -/
def localDay (t : Instant) : ℤ := zone.wall t / 86400000

/-- The local minute, counted from the epoch. -/
def localMinute (t : Instant) : ℤ := zone.wall t / 60000

end TimeZone

/-- `localClock`, with the time zone database. -/
def localClock (zones : String → TimeZone) : LocalClock := fun now timezone =>
  (weekdayOf ((zones timezone).localDay now),
    ((zones timezone).wall now % 86400000 / 60000).toNat)

/-- The clock time of a day, as a local minute. -/
def timeOn (target : ℕ) (day : ℤ) : ℤ := 1440 * day + target

/-- The clock of the zone reads the clock time, on the weekday if one is asked for. -/
def Occurs (zone : TimeZone) (target : ℕ) (weekday : Option Weekday) (t : Instant) : Prop :=
  zone.localMinute t = timeOn target (zone.localDay t) ∧ ∀ w ∈ weekday, weekdayOf (zone.localDay t) = w

instance (zone : TimeZone) (target : ℕ) (weekday : Option Weekday) (t : Instant) :
    Decidable (Occurs zone target weekday t) := inferInstanceAs (Decidable (_ ∧ _))

/-- **The law for an occurrence** that follows on `now`. -/
structure IsNextOccurrence (zone : TimeZone) (target : ℕ) (weekday : Option Weekday)
    (now r : Instant) : Prop where
  after : now < r
  occurs : Occurs zone target weekday r
  /-- An earlier day has the time no more, or has had it. -/
  first : ∀ t, now < t → Occurs zone target weekday t → zone.localDay t < zone.localDay r →
    ∃ t' ≤ now, Occurs zone target weekday t' ∧ zone.localDay t' = zone.localDay t

/-! ### The condition -/

/-- How many days there are to the weekday that is asked for. -/
def daysUntil : Option Weekday → ℤ → ℕ
  | none, _ => 0
  | some w, day => ((w.index - (day + 4)) % 7).toNat

/-- The offset in minutes at a whole minute. -/
def TimeZone.shift (zone : TimeZone) (u : ℤ) : ℤ := zone.offset (60000 * u) / 60000

/-- For as many days: by a clock that kept the offset of the day before, the clock time of the day
is read on that day; and at the time by the offset found there, that offset is in force. -/
def KeepsDays (zone : TimeZone) (target : ℕ) : ℕ → ℤ → ℤ → Prop
  | 0, _, _ => True
  | days + 1, day, shift =>
    let u := timeOn target day - shift
    zone.localDay (60000 * u) = day ∧
      zone.shift (timeOn target day - zone.shift u) = zone.shift u ∧
      KeepsDays zone target days (day + 1) (zone.shift u)

/-- The first day on which the clock time is still ahead. -/
def dayAhead (zone : TimeZone) (target : ℕ) (now : Instant) : ℤ :=
  (zone.localMinute (now / 60000 * 60000) - target) / 1440 + 1

/-- **The condition**, for the days up to the one that is due. -/
def KeepsTime (zone : TimeZone) (target : ℕ) (weekday : Option Weekday) (now : Instant) : Prop :=
  KeepsDays zone target (daysUntil weekday (dayAhead zone target now) + 1)
    (dayAhead zone target now) (zone.shift (now / 60000))

/-! ### Minutes of the local clock -/

section

variable {zone : TimeZone} {target : ℕ}

theorem TimeZone.localDay_eq (t : Instant) : zone.localDay t = zone.localMinute t / 1440 := by
  unfold TimeZone.localDay TimeZone.localMinute
  omega

/-- At whole minutes, the local clock is ahead by the shift. -/
theorem TimeZone.localMinute_eq (u : ℤ) : zone.localMinute (60000 * u) = u + zone.shift u := by
  unfold TimeZone.localMinute TimeZone.wall TimeZone.shift
  omega

theorem localClock_minutes (zones : String → TimeZone) (t : Instant) (timezone : String) :
    ((localClock zones t timezone).2 : ℤ) = (zones timezone).localMinute t % 1440 := by
  unfold localClock TimeZone.localMinute
  dsimp only
  omega

/-- A minute at which the clock reads the time of a day is on that day. -/
theorem TimeZone.localDay_of_timeOn {t : Instant} {day : ℤ} (ht : target < 1440)
    (h : zone.localMinute t = timeOn target day) : zone.localDay t = day := by
  unfold timeOn at h
  rw [zone.localDay_eq, h]
  omega

/-! ### The days up to the one that is due -/

/-- The day that is due has the weekday, and no day before it. -/
theorem daysUntil_spec (weekday : Option Weekday) (day : ℤ) :
    (∀ w ∈ weekday, weekdayOf (day + daysUntil weekday day) = w) ∧
      ∀ d, day ≤ d → d < day + daysUntil weekday day → ∃ w ∈ weekday, weekdayOf d ≠ w := by
  cases weekday with
  | none => exact ⟨by simp, fun d hd hd' => absurd hd' (by simpa [daysUntil] using hd)⟩
  | some w =>
    have hw := w.index_bounds
    unfold daysUntil
    dsimp only
    refine ⟨fun v hv => ?_, fun d hd hd' => ⟨w, rfl, fun heq => ?_⟩⟩
    · obtain rfl := Option.some.inj hv
      rw [weekdayOf_eq_iff]
      omega
    · rw [weekdayOf_eq_iff] at heq
      omega

theorem daysUntil_le (weekday : Option Weekday) (day : ℤ) : daysUntil weekday day ≤ 6 := by
  cases weekday with
  | none => exact Nat.zero_le 6
  | some w =>
    unfold daysUntil
    dsimp only
    omega

/-- On the way to the day that is due, the next day is nearer. -/
theorem daysUntil_succ {weekday : Option Weekday} {day : ℤ} {n : ℕ}
    (h : daysUntil weekday day = n + 1) : daysUntil weekday (day + 1) = n := by
  cases weekday with
  | none => cases h
  | some w =>
    unfold daysUntil at h ⊢
    dsimp only at h ⊢
    omega

end

/-! ### Zones that change now and then -/

/-- The offset changes once a week at most, and by two hours at most. -/
structure TimeZone.Regular (zone : TimeZone) : Prop where
  sparse : Sparse 604800000 zone.offset
  small : ∀ c, -7200000 ≤ zone.offset c - zone.offset (c - 1) ∧
    zone.offset c - zone.offset (c - 1) ≤ 7200000

namespace TimeZone.Regular

variable {zone : TimeZone} (h : zone.Regular)

include h

variable {u : ℤ}

theorem shift_diff {v : ℤ} (huv : u ≤ v) (hv : v ≤ u + 10080) :
    -120 ≤ zone.shift v - zone.shift u ∧ zone.shift v - zone.shift u ≤ 120 := by
  have hdiff := h.sparse.diff_le h.small (show 60000 * u ≤ 60000 * v by omega) (by omega)
  unfold TimeZone.shift
  omega

theorem shift_dist {v : ℤ} (huv : u ≤ v + 10080) (hvu : v ≤ u + 10080) :
    -120 ≤ zone.shift v - zone.shift u ∧ zone.shift v - zone.shift u ≤ 120 := by
  rcases Int.le_total u v with h' | h'
  · exact h.shift_diff h' hvu
  · have := h.shift_diff h' huv
    omega

/-- A day's clock time, by the offset in force at the moment that a clock with the offset of the
minute `p` takes for it, is not before `p`. -/
theorem lt_adjusted {p y reading : ℤ} (hpu : p < u) (hup : u ≤ p + 1440)
    (hu : u = reading - zone.shift p) (hy : y = reading - zone.shift u)
    (hshift : zone.shift y = zone.shift u) : p < y := by
  have hdiff := h.shift_diff hpu.le (by omega)
  by_contra hle
  -- the offset would have changed twice in two hours
  have hbefore : zone.offset (60000 * p) ≠ zone.offset (60000 * y) := by
    intro heq
    have : zone.shift p = zone.shift y := congrArg (· / 60000) heq
    omega
  have hafter : zone.offset (60000 * u) ≠ zone.offset (60000 * p) := by
    intro heq
    have : zone.shift u = zone.shift p := congrArg (· / 60000) heq
    omega
  obtain ⟨c, hyc, hcp, hc⟩ := exists_change (show 60000 * y ≤ 60000 * p by omega) hbefore
  obtain ⟨c', hpc, hcu, hc'⟩ := exists_change (show 60000 * p ≤ 60000 * u by omega) hafter
  have := h.sparse c c' hc hc' (by omega)
  omega

end TimeZone.Regular

/-! ### The search, by minutes -/

section Search

variable {zones : String → TimeZone} {timezone : String} {target : ℕ} {weekday : Option Weekday}
  {now : ℤ}

/-- One candidate, corrected: the clock time of its day, by the offset at the candidate. -/
theorem adjusted_eq (u : ℤ) :
    60000 * u + ((target : ℤ) - (localClock zones (60000 * u) timezone).2) * 60000 =
      60000 * (timeOn target ((zones timezone).localDay (60000 * u)) -
        (zones timezone).shift u) := by
  rw [localClock_minutes, TimeZone.localDay_eq, TimeZone.localMinute_eq]
  unfold timeOn
  omega

/-- The search goes from whole minutes to whole minutes. -/
theorem occurrenceFrom_succ (rounds : ℕ) (u : ℤ) :
    occurrenceFrom (localClock zones) now target timezone weekday (rounds + 1) (60000 * u) =
      let y := timeOn target ((zones timezone).localDay (60000 * u)) - (zones timezone).shift u
      if now < 60000 * y ∧ weekday.all (· = weekdayOf ((zones timezone).localDay (60000 * y))) then
        60000 * y
      else occurrenceFrom (localClock zones) now target timezone weekday rounds
        (60000 * (y + 1440)) := by
  rw [occurrenceFrom, adjusted_eq]
  dsimp only
  rw [show ∀ y : ℤ, 60000 * y + 86400000 = 60000 * (y + 1440) by intro y; omega]
  rfl

/-- One round on a day that the time keeps: the adjusted candidate is its clock time. -/
theorem adjusted_of_keepsDays {zone : TimeZone} (hzone : zone.Regular) (ht : target < 1440)
    {days : ℕ} {day p : ℤ} (hp : p < timeOn target day - zone.shift p)
    (hp' : timeOn target day - zone.shift p ≤ p + 1440)
    (hkeeps : KeepsDays zone target (days + 1) day (zone.shift p)) :
    ∃ y, timeOn target (zone.localDay (60000 * (timeOn target day - zone.shift p))) -
          zone.shift (timeOn target day - zone.shift p) = y ∧
      p < y ∧ zone.localMinute (60000 * y) = timeOn target day ∧ zone.localDay (60000 * y) = day ∧
      KeepsDays zone target days (day + 1) (zone.shift y) := by
  obtain ⟨hday, hshift, hkeeps⟩ := hkeeps
  rw [hday]
  have hreads : zone.localMinute (60000 * (timeOn target day -
      zone.shift (timeOn target day - zone.shift p))) = timeOn target day := by
    rw [TimeZone.localMinute_eq, hshift]
    omega
  exact ⟨_, rfl, hzone.lt_adjusted hp hp' rfl rfl hshift, hreads,
    TimeZone.localDay_of_timeOn ht hreads, by rw [hshift]; exact hkeeps⟩

/-- **The search finds the day that is due**, if the time keeps its days up to there. -/
theorem occurrenceFrom_of_keepsDays (hzone : (zones timezone).Regular) (ht : target < 1440)
    {days rounds : ℕ} {day p : ℤ} (hdays : daysUntil weekday day = days) (hrounds : days < rounds)
    (hnow : now < 60000 * (p + 1)) (hp : p < timeOn target day - (zones timezone).shift p)
    (hp' : timeOn target day - (zones timezone).shift p ≤ p + 1440)
    (hkeeps : KeepsDays (zones timezone) target (days + 1) day ((zones timezone).shift p)) :
    ∃ y, occurrenceFrom (localClock zones) now target timezone weekday rounds
        (60000 * (timeOn target day - (zones timezone).shift p)) = 60000 * y ∧
      p < y ∧ (zones timezone).localMinute (60000 * y) = timeOn target (day + days) := by
  induction days generalizing rounds day p with
  | zero =>
    obtain ⟨rounds, rfl⟩ : ∃ r, rounds = r + 1 := ⟨rounds - 1, by omega⟩
    obtain ⟨y, hy, hpy, hreads, hday, -⟩ := adjusted_of_keepsDays hzone ht hp hp' hkeeps
    have hdue := (daysUntil_spec weekday day).1
    rw [hdays, Nat.cast_zero, Int.add_zero] at hdue
    have hweekday : weekday.all (· = weekdayOf day) = true := by
      cases weekday with
      | none => rfl
      | some w => exact decide_eq_true (hdue w rfl).symm
    rw [occurrenceFrom_succ, hy]
    dsimp only
    rw [hday, if_pos ⟨by omega, hweekday⟩]
    exact ⟨y, rfl, hpy, by rw [hreads, Nat.cast_zero, Int.add_zero]⟩
  | succ days ih =>
    obtain ⟨rounds, rfl⟩ : ∃ r, rounds = r + 1 := ⟨rounds - 1, by omega⟩
    obtain ⟨y, hy, hpy, hreads, hday, hkeeps⟩ := adjusted_of_keepsDays hzone ht hp hp' hkeeps
    have hweekday : ¬ weekday.all (· = weekdayOf day) = true := by
      obtain ⟨w, hw, hne⟩ := (daysUntil_spec weekday day).2 day (Int.le_refl day) (by omega)
      obtain rfl : weekday = some w := hw
      exact fun heq => hne (of_decide_eq_true heq).symm
    have hnext : y + 1440 = timeOn target (day + 1) - (zones timezone).shift y := by
      rw [TimeZone.localMinute_eq] at hreads
      unfold timeOn at hreads ⊢
      omega
    rw [occurrenceFrom_succ, hy]
    dsimp only
    rw [hday, if_neg fun h => hweekday h.2, hnext]
    have hrounds : days < rounds := by omega
    obtain ⟨z, hz, hyz, hzreads⟩ := ih (daysUntil_succ hdays) hrounds (by omega) (by omega)
      (by omega) hkeeps
    refine ⟨z, hz, by omega, hzreads.trans (congrArg _ ?_)⟩
    push_cast
    omega

/-- The search begins with the first day on which the time is still ahead. -/
theorem nextLocalOccurrence_eq (at' : String) :
    nextLocalOccurrence (localClock zones) now at' timezone weekday =
      occurrenceFrom (localClock zones) now (minutesOf at') timezone weekday 8
        (60000 * (timeOn (minutesOf at') (dayAhead (zones timezone) (minutesOf at') now) -
          (zones timezone).shift (now / 60000))) := by
  have hbase : now / 60000 * 60000 = 60000 * (now / 60000) := Int.mul_comm _ _
  unfold nextLocalOccurrence
  dsimp only
  rw [localClock_minutes]
  refine congrArg _ (show (_ : ℤ) = _ from ?_)
  unfold timeOn dayAhead
  rw [hbase, TimeZone.localMinute_eq]
  split <;> omega

end Search

/-! ### The law for one occurrence -/

section Law

variable {zone : TimeZone} {target : ℕ} {weekday : Option Weekday}

variable {t : Instant}

/-- What occurs later is not on an earlier day. -/
theorem Occurs.localDay_mono (hzone : zone.Regular) {s : Instant}
    (hs : Occurs zone target weekday s) (ht : Occurs zone target weekday t) (hst : s ≤ t) :
    zone.localDay s ≤ zone.localDay t := by
  have hmono := hzone.sparse.clock_mono hzone.small (by decide) (by decide) hst
  have hs := hs.1
  have ht := ht.1
  unfold timeOn TimeZone.localMinute TimeZone.wall at hs ht
  omega

/-- What occurs depends on what the clock shows. -/
theorem Occurs.of_wall {s : Instant} (hwall : zone.wall s = zone.wall t)
    (h : Occurs zone target weekday t) :
    Occurs zone target weekday s ∧ zone.localDay s = zone.localDay t := by
  have hday : zone.localDay s = zone.localDay t := congrArg (· / 86400000) hwall
  have hminute : zone.localMinute s = zone.localMinute t := congrArg (· / 60000) hwall
  exact ⟨⟨by rw [hminute, hday]; exact h.1, by rw [hday]; exact h.2⟩, hday⟩

/-- What occurs on a day before the first one on which the time is still ahead has occurred on that
day before. -/
theorem Occurs.before_dayAhead (hzone : zone.Regular) {now t : ℤ} (hnow : now < t)
    (h : Occurs zone target weekday t) (hday : zone.localDay t < dayAhead zone target now) :
    ∃ t' ≤ now, Occurs zone target weekday t' ∧ zone.localDay t' = zone.localDay t := by
  have hbase : now / 60000 * 60000 ≤ now := Int.ediv_mul_le now (by decide)
  have hreads := h.1
  have hreached : zone.localMinute t ≤ zone.localMinute (now / 60000 * 60000) := by
    unfold dayAhead at hday
    unfold timeOn at hreads
    omega
  generalize now / 60000 * 60000 = base at hbase hreached
  by_cases hwall : zone.wall t ≤ zone.wall base
  · obtain ⟨s, hs, hsame⟩ := hzone.sparse.seen_before hzone.small (by decide) (by decide)
      (show base ≤ t by omega) hwall
    obtain ⟨hoccurs, hdays⟩ := h.of_wall (s := s) hsame
    exact ⟨s, Int.le_trans hs hbase, hoccurs, hdays⟩
  · -- the same minute, which is not over yet
    have hminute : zone.localMinute base = zone.localMinute t := by
      unfold TimeZone.localMinute at hreached ⊢
      omega
    have hdays : zone.localDay base = zone.localDay t := by
      rw [zone.localDay_eq, zone.localDay_eq, hminute]
    exact ⟨base, hbase, ⟨by rw [hminute, hdays]; exact h.1, by rw [hdays]; exact h.2⟩, hdays⟩

/-- No earlier day from the first one on has the weekday. -/
theorem localDay_lt_dayAhead {now t : ℤ} (h : Occurs zone target weekday t)
    (hday : zone.localDay t <
      dayAhead zone target now + daysUntil weekday (dayAhead zone target now)) :
    zone.localDay t < dayAhead zone target now := by
  refine Int.lt_of_not_ge fun hle => ?_
  obtain ⟨w, hw, hne⟩ := (daysUntil_spec weekday (dayAhead zone target now)).2 _ hle hday
  exact hne (h.2 w hw)

/-- An occurrence on an earlier day than the next one, or one of that day, before it. -/
theorem IsNextOccurrence.exists_before {now r : Instant}
    (h : IsNextOccurrence zone target weekday now r) {t : ℤ} (ht : Occurs zone target weekday t)
    (hday : zone.localDay t < zone.localDay r) :
    ∃ t' ≤ now, Occurs zone target weekday t' ∧ zone.localDay t' = zone.localDay t := by
  by_cases hnow : t ≤ now
  · exact ⟨t, hnow, ht, rfl⟩
  · exact h.first t (Int.lt_of_not_ge hnow) ht hday

/-- As one occurrence follows on the other, every day up to the last one is met, or had its
occurrence before the first one. -/
theorem met_or_before (hzone : zone.Regular) {r : ℕ → Instant}
    (hnext : ∀ n, IsNextOccurrence zone target weekday (r n) (r (n + 1))) {n : ℕ}
    (ht : Occurs zone target weekday t) (hday : zone.localDay t ≤ zone.localDay (r (n + 1))) :
    (∃ m, zone.localDay (r (m + 1)) = zone.localDay t) ∨
      ∃ t' ≤ r 0, Occurs zone target weekday t' ∧ zone.localDay t' = zone.localDay t := by
  induction n generalizing t with
  | zero =>
    rcases Int.lt_or_eq_of_le hday with hlt | heq
    · exact .inr ((hnext 0).exists_before ht hlt)
    · exact .inl ⟨0, heq.symm⟩
  | succ n ih =>
    rcases Int.lt_or_eq_of_le hday with hlt | heq
    · obtain ⟨t', ht', hoccurs, hsame⟩ := (hnext (n + 1)).exists_before ht hlt
      rw [← hsame]
      exact ih hoccurs (hoccurs.localDay_mono hzone (hnext n).occurs ht')
    · exact .inl ⟨n + 1, heq.symm⟩

end Law

section Search

variable {zones : String → TimeZone} {timezone at' : String} {weekday : Option Weekday} {now : ℤ}

theorem toNat_of_isDigit {c : Char} (h : c.isDigit = true) : 48 ≤ c.toNat ∧ c.toNat ≤ 57 := by
  simpa [Char.isDigit, UInt32.le_iff_toNat_le] using h

/-- A clock time is within a day. -/
theorem minutesOf_lt (hat : isClock at'.toList = true) : minutesOf at' < 1440 := by
  unfold isClock at hat
  unfold minutesOf
  split at hat
  · rename_i a b c d hlist
    simp only [Bool.and_eq_true, Bool.or_eq_true, decide_eq_true_eq] at hat
    obtain ⟨⟨⟨⟨⟨ha, hb⟩, hc⟩, hd⟩, hhour⟩, hminute⟩ := hat
    have ha := toNat_of_isDigit ha
    have hb := toNat_of_isDigit hb
    have hc := toNat_of_isDigit hc
    have hd := toNat_of_isDigit hd
    have hminute : c.toNat < 54 := hminute
    have hhour : a.toNat < 50 ∨ a.toNat = 50 ∧ b.toNat < 52 :=
      hhour.imp (fun h => h) fun h => ⟨congrArg Char.toNat h.1, h.2⟩
    rw [hlist]
    show (10 * (a.toNat - 48) + (b.toNat - 48)) * 60 +
      (10 * (c.toNat - 48) + (d.toNat - 48)) < 1440
    omega
  · cases hat

/-- **The result is the clock time of the day that is due**, at a whole minute, if the time keeps
its days. -/
theorem nextLocalOccurrence_of_keepsTime (hzone : (zones timezone).Regular)
    (hat : isClock at'.toList = true)
    (hkeeps : KeepsTime (zones timezone) (minutesOf at') weekday now) :
    ∃ y, nextLocalOccurrence (localClock zones) now at' timezone weekday = 60000 * y ∧
      now < 60000 * y ∧
      (zones timezone).localMinute (60000 * y) = timeOn (minutesOf at')
        (dayAhead (zones timezone) (minutesOf at') now +
          daysUntil weekday (dayAhead (zones timezone) (minutesOf at') now)) := by
  have hbase : now / 60000 * 60000 = 60000 * (now / 60000) := Int.mul_comm _ _
  have hdays := daysUntil_le weekday (dayAhead (zones timezone) (minutesOf at') now)
  have hahead : now / 60000 < timeOn (minutesOf at')
        (dayAhead (zones timezone) (minutesOf at') now) - (zones timezone).shift (now / 60000) ∧
      timeOn (minutesOf at') (dayAhead (zones timezone) (minutesOf at') now) -
        (zones timezone).shift (now / 60000) ≤ now / 60000 + 1440 := by
    unfold timeOn dayAhead
    rw [hbase, TimeZone.localMinute_eq]
    omega
  have hrounds : daysUntil weekday (dayAhead (zones timezone) (minutesOf at') now) < 8 := by omega
  obtain ⟨y, hy, hlt, hreads⟩ := occurrenceFrom_of_keepsDays hzone (minutesOf_lt hat) rfl hrounds
    (show now < 60000 * (now / 60000 + 1) by omega) hahead.1 hahead.2 hkeeps
  exact ⟨y, (nextLocalOccurrence_eq at').trans hy, by omega, hreads⟩

/-- **One occurrence**: if the time keeps its days, the result is the next occurrence. -/
theorem isNextOccurrence_of_keepsTime (hzone : (zones timezone).Regular)
    (hat : isClock at'.toList = true)
    (hkeeps : KeepsTime (zones timezone) (minutesOf at') weekday now) :
    IsNextOccurrence (zones timezone) (minutesOf at') weekday now
      (nextLocalOccurrence (localClock zones) now at' timezone weekday) := by
  obtain ⟨y, hy, hlt, hreads⟩ := nextLocalOccurrence_of_keepsTime hzone hat hkeeps
  have hday := TimeZone.localDay_of_timeOn (minutesOf_lt hat) hreads
  rw [hy]
  refine ⟨hlt, ⟨hreads.trans (congrArg _ hday.symm), fun w hw => ?_⟩, fun t ht hoccurs hbefore => ?_⟩
  · rw [hday]
    exact (daysUntil_spec weekday _).1 w hw
  · rw [hday] at hbefore
    exact hoccurs.before_dayAhead hzone ht (localDay_lt_dayAhead hoccurs hbefore)

/-! ### The occurrences of a schedule -/

/-- The occurrences, each searched for from the one before. -/
def schedule (zones : String → TimeZone) (timezone at' : String) (weekday : Option Weekday)
    (now : Instant) (n : ℕ) : Instant :=
  (fun t => nextLocalOccurrence (localClock zones) t at' timezone weekday)^[n] now

theorem schedule_succ (n : ℕ) :
    schedule zones timezone at' weekday now (n + 1) =
      nextLocalOccurrence (localClock zones) (schedule zones timezone at' weekday now n) at'
        timezone weekday :=
  Function.iterate_succ_apply' _ n now

variable {y : ℤ}

/-- After an occurrence at a whole minute, the first day ahead is the next one. -/
theorem dayAhead_of_occurs {zone : TimeZone} {target : ℕ}
    (h : Occurs zone target weekday (60000 * y)) :
    dayAhead zone target (60000 * y) = zone.localDay (60000 * y) + 1 := by
  have hreads := h.1
  unfold dayAhead
  unfold timeOn at hreads
  rw [show 60000 * y / 60000 * 60000 = 60000 * y by omega]
  omega

/-- From occurrence to occurrence, the day is a later one. -/
theorem localDay_lt_of_keepsTime (hzone : (zones timezone).Regular)
    (hat : isClock at'.toList = true)
    (hoccurs : Occurs (zones timezone) (minutesOf at') weekday (60000 * y))
    (hkeeps : KeepsTime (zones timezone) (minutesOf at') weekday (60000 * y)) :
    (zones timezone).localDay (60000 * y) < (zones timezone).localDay
      (nextLocalOccurrence (localClock zones) (60000 * y) at' timezone weekday) := by
  obtain ⟨z, hz, -, hreads⟩ := nextLocalOccurrence_of_keepsTime hzone hat hkeeps
  have hday := TimeZone.localDay_of_timeOn (minutesOf_lt hat) hreads
  rw [hz, hday, dayAhead_of_occurs hoccurs]
  omega

/-- **Schedules are exact**: if the time keeps its days from each occurrence to the next, then each
is the next occurrence, no day is met twice, and no day that has the time is skipped. -/
theorem schedule_exact (hzone : (zones timezone).Regular) (hat : isClock at'.toList = true)
    (hkeeps : ∀ n, KeepsTime (zones timezone) (minutesOf at') weekday
      (schedule zones timezone at' weekday now n)) :
    (∀ n, IsNextOccurrence (zones timezone) (minutesOf at') weekday
        (schedule zones timezone at' weekday now n)
        (schedule zones timezone at' weekday now (n + 1))) ∧
      (∀ n, (zones timezone).localDay (schedule zones timezone at' weekday now (n + 1)) <
        (zones timezone).localDay (schedule zones timezone at' weekday now (n + 2))) ∧
      ∀ t, now < t → Occurs (zones timezone) (minutesOf at') weekday t →
        (∃ n, (zones timezone).localDay (schedule zones timezone at' weekday now (n + 1)) =
          (zones timezone).localDay t) ∨
        ∃ t' ≤ now, Occurs (zones timezone) (minutesOf at') weekday t' ∧
          (zones timezone).localDay t' = (zones timezone).localDay t := by
  have hnext : ∀ n, IsNextOccurrence (zones timezone) (minutesOf at') weekday
      (schedule zones timezone at' weekday now n)
      (schedule zones timezone at' weekday now (n + 1)) := by
    intro n
    rw [schedule_succ]
    exact isNextOccurrence_of_keepsTime hzone hat (hkeeps n)
  have hlater : ∀ n, (zones timezone).localDay (schedule zones timezone at' weekday now (n + 1)) <
      (zones timezone).localDay (schedule zones timezone at' weekday now (n + 2)) := by
    intro n
    have hoccurs := (hnext n).occurs
    have hkeeps' := hkeeps (n + 1)
    rw [schedule_succ (n + 1)]
    obtain ⟨y, hy, -⟩ := nextLocalOccurrence_of_keepsTime hzone hat (hkeeps n)
    rw [schedule_succ, hy] at hoccurs hkeeps' ⊢
    exact localDay_lt_of_keepsTime hzone hat hoccurs hkeeps'
  refine ⟨hnext, hlater, fun t _ ht => ?_⟩
  have hgrows : ∀ n : ℕ, (zones timezone).localDay (schedule zones timezone at' weekday now 1) + n ≤
      (zones timezone).localDay (schedule zones timezone at' weekday now (n + 1)) := by
    intro n
    induction n with
    | zero => exact Int.le_of_eq (Int.add_zero _)
    | succ n ih =>
      have hstep := hlater n
      rw [Nat.cast_succ, ← Int.add_assoc]
      exact Int.le_trans (Int.add_le_add_right ih 1) hstep
  obtain ⟨n, hn⟩ : ∃ n : ℕ, (zones timezone).localDay t ≤
      (zones timezone).localDay (schedule zones timezone at' weekday now 1) + n :=
    ⟨((zones timezone).localDay t - (zones timezone).localDay
      (schedule zones timezone at' weekday now 1)).toNat, by omega⟩
  exact met_or_before hzone hnext ht (Int.le_trans hn (hgrows n))

/-- The occurrence of the next day is what follows, if the law holds. -/
theorem IsNextOccurrence.localDay_eq {zone : TimeZone} {target : ℕ} (hzone : zone.Regular)
    {now r : Instant} (h : IsNextOccurrence zone target none now r)
    (hoccurs : Occurs zone target none now) (hlater : zone.localDay now < zone.localDay r)
    {t : Instant} (ht : Occurs zone target none t) (hday : zone.localDay t = zone.localDay now + 1) :
    zone.localDay r = zone.localDay now + 1 := by
  refine Int.le_antisymm (Int.le_of_not_gt fun hlt => ?_) hlater
  obtain ⟨t', ht', hoccurs', hsame⟩ := h.exists_before ht (hday ▸ hlt)
  have hmono := hoccurs'.localDay_mono hzone hoccurs ht'
  omega

/-- **A daily schedule needs the condition**: from an occurrence on, if the next day has the time,
the next occurrence is found on a later day exactly if the time keeps its day. -/
theorem daily_iff (hzone : (zones timezone).Regular) (hat : isClock at'.toList = true)
    (hoccurs : Occurs (zones timezone) (minutesOf at') none (60000 * y))
    (hexists : ∃ t, Occurs (zones timezone) (minutesOf at') none t ∧
      (zones timezone).localDay t = (zones timezone).localDay (60000 * y) + 1) :
    KeepsTime (zones timezone) (minutesOf at') none (60000 * y) ↔
      IsNextOccurrence (zones timezone) (minutesOf at') none (60000 * y)
          (nextLocalOccurrence (localClock zones) (60000 * y) at' timezone none) ∧
        (zones timezone).localDay (60000 * y) < (zones timezone).localDay
          (nextLocalOccurrence (localClock zones) (60000 * y) at' timezone none) := by
  refine ⟨fun hkeeps => ⟨isNextOccurrence_of_keepsTime hzone hat hkeeps,
    localDay_lt_of_keepsTime hzone hat hoccurs hkeeps⟩, fun ⟨hnext, hlater⟩ => ?_⟩
  obtain ⟨t, ht, hday⟩ := hexists
  have hdue := hnext.localDay_eq hzone hoccurs hlater ht hday
  have hreads := hnext.occurs.1
  have htarget := minutesOf_lt hat
  have hy : 60000 * y / 60000 = y := Int.mul_ediv_cancel_left y (by decide)
  have hstart := hoccurs.1
  rw [nextLocalOccurrence_eq, occurrenceFrom_succ, hy, dayAhead_of_occurs hoccurs] at hreads hdue
  rw [KeepsTime, dayAhead_of_occurs hoccurs, hy]
  generalize (zones timezone).localDay (60000 * y) = day at *
  rw [TimeZone.localMinute_eq] at hstart
  have hu : timeOn (minutesOf at') (day + 1) - (zones timezone).shift y = y + 1440 := by
    unfold timeOn at hstart ⊢
    omega
  rw [hu] at hreads hdue
  have hshift := hzone.shift_diff (show y ≤ y + 1440 by omega) (by omega)
  have hcandidate : (zones timezone).localDay (60000 * (y + 1440)) =
      (y + 1440 + (zones timezone).shift (y + 1440)) / 1440 := by
    rw [TimeZone.localDay_eq, TimeZone.localMinute_eq]
  obtain ⟨z, hz⟩ : ∃ z, z = timeOn (minutesOf at')
      ((zones timezone).localDay (60000 * (y + 1440))) - (zones timezone).shift (y + 1440) :=
    ⟨_, rfl⟩
  have hahead : y < z := by
    unfold timeOn at hz hstart
    omega
  dsimp only at hreads hdue
  rw [← hz, if_pos ⟨by omega, rfl⟩] at hreads hdue
  rw [hdue, TimeZone.localMinute_eq] at hreads
  have hback := hzone.shift_dist (u := y + 1440) (v := z)
    (by unfold timeOn at hz hstart; omega) (by unfold timeOn at hz hstart; omega)
  have hkept : (zones timezone).localDay (60000 * (y + 1440)) = day + 1 := by
    unfold timeOn at hz hreads
    omega
  refine ⟨by rw [hu]; exact hkept, ?_, trivial⟩
  rw [hu, show timeOn (minutesOf at') (day + 1) - (zones timezone).shift (y + 1440) = z by
    rw [hz, hkept]]
  unfold timeOn at hz hreads
  omega

end Search

/-! ### A change of the offset -/

theorem regular_summerBegins : summerBegins.Regular where
  sparse := sparse_summerBegins _
  small c := by
    simp only [summerBegins]
    split <;> split <;> omega

theorem shift_summerBegins (u : ℤ) :
    summerBegins.shift u = if u < 29579100 then 60 else 120 := by
  unfold TimeZone.shift summerBegins
  dsimp only
  split <;> split <;> omega

/-- At nine in the morning, the beginning of summer does not matter. -/
theorem keepsTime_summerBegins (now : ℤ) : KeepsTime summerBegins 540 none now := by
  refine ⟨?_, ?_, trivial⟩
  · rw [TimeZone.localDay_eq, TimeZone.localMinute_eq]
    simp only [shift_summerBegins, timeOn]
    split <;> split <;> omega
  · simp only [shift_summerBegins, timeOn]
    have hahead : dayAhead summerBegins 540 now =
        (now / 60000 + (if now / 60000 < 29579100 then 60 else 120) - 540) / 1440 + 1 := by
      rw [dayAhead, show now / 60000 * 60000 = 60000 * (now / 60000) from Int.mul_comm _ _,
        TimeZone.localMinute_eq, shift_summerBegins]
      rfl
    rw [hahead]
    generalize now / 60000 = p
    by_cases h1 : p < 29579100
    · simp only [h1, if_true]
      split_ifs <;> omega
    · simp only [h1, if_false]
      split_ifs <;> omega

theorem schedule_exact_sample :
    (∀ n, IsNextOccurrence summerBegins (minutesOf "09:00") none
      (schedule (fun _ => summerBegins) "Europe/Oslo" "09:00" none 1774661400000 n)
      (schedule (fun _ => summerBegins) "Europe/Oslo" "09:00" none 1774661400000 (n + 1))) ∧
      ∀ n, summerBegins.localDay
          (schedule (fun _ => summerBegins) "Europe/Oslo" "09:00" none 1774661400000 (n + 1)) <
        summerBegins.localDay
          (schedule (fun _ => summerBegins) "Europe/Oslo" "09:00" none 1774661400000 (n + 2)) := by
  have hminutes : minutesOf "09:00" = 540 := by decide
  have hkeeps : ∀ n, KeepsTime summerBegins (minutesOf "09:00") none
      (schedule (fun _ => summerBegins) "Europe/Oslo" "09:00" none 1774661400000 n) := by
    intro n
    rw [hminutes]
    exact keepsTime_summerBegins _
  have hzone : TimeZone.Regular ((fun _ => summerBegins) "Europe/Oslo") := regular_summerBegins
  have hexact := schedule_exact hzone (by decide) hkeeps
  exact ⟨hexact.1, hexact.2.1⟩

/-- The Saturday before summer begins, at half past eleven in the evening. -/
def saturdayEvening : Instant := 1774737000000

/-- The same Saturday, at half past two in the morning. -/
def saturdayNight : Instant := 1774661400000

theorem localDay_summerBegins_le {t : ℤ} (ht : t ≤ saturdayEvening) :
    summerBegins.localDay t ≤ 20540 := by
  simp only [TimeZone.localDay, TimeZone.wall, summerBegins]
  unfold saturdayEvening at ht
  split <;> omega

/-- **A day is skipped, and a wrong time is found**: after the Saturday's, the occurrence at 23:30 is
found on Monday; and the one at 02:30, which the Sunday does not have, at 01:30. -/
theorem schedule_skips_sunday :
    ¬ IsNextOccurrence summerBegins (minutesOf "23:30") none saturdayEvening
        (nextLocalOccurrence (localClock fun _ => summerBegins) saturdayEvening "23:30"
          "Europe/Oslo" none) ∧
      ¬ Occurs summerBegins (minutesOf "02:30") none
        (nextLocalOccurrence (localClock fun _ => summerBegins) saturdayNight "02:30"
          "Europe/Oslo" none) := by
  refine ⟨fun h => ?_, by decide +kernel⟩
  obtain ⟨t, ht, -, hday⟩ := h.first (saturdayEvening + 23 * 3600000) (by decide) (by decide +kernel)
    (by decide +kernel)
  -- on the Sunday the clock has not read anything by then
  have hsunday : summerBegins.localDay (saturdayEvening + 23 * 3600000) = 20541 := by
    decide +kernel
  have hbefore := localDay_summerBegins_le ht
  omega

end Munin
