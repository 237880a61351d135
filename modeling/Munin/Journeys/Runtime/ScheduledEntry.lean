import Mathlib.Data.String.Basic
import Munin.Foundations.CursorSweep
import Munin.Journeys.Runtime.Enroll
import Munin.Outreach.SendPolicy

/-!
# Scheduled entries

A journey may enter the members of a segment once, every day or every week. At an occurrence,
`runScheduledEntries` goes through the segment in pages, a page a tick, and keeps its place in
`entryCursor`; the next occurrence is set with the last page.

* **`segmentContacts`**, **`segmentCompanies`** — a page of a segment, without those that the
  re-entry policy keeps out.
* **`nextLocalOccurrence`** — the next time of day; `lt_nextLocalOccurrence`: it is in the future.
* **`runScheduledEntry`** — a tick for one journey.
* **`entryMachine`** — ticks, with the changes to the segment between two sweeps.
* **`scheduled_entry_visits_once`** — each occurrence comes past every member once.

The order of ids is the collation of the database, a parameter like the clock of a time zone.
-/

namespace Munin

open Foundations

/-! ### The next occurrence -/

/-- The minutes of `HH:MM`. -/
def minutesOf (at' : String) : Nat :=
  match at'.toList with
  | [h, h', _, m, m'] => clockMinutes h h' m m'
  | _ => 0

/-- The loop of `nextLocalOccurrence`: a day further as long as the candidate is past, or on another
weekday. -/
def occurrenceFrom (localClock : LocalClock) (now : Instant) (target : Nat) (timezone : String)
    (weekday : Option Weekday) : Nat → Instant → Instant
  | 0, candidate => candidate
  | days + 1, candidate =>
    let adjusted := candidate + (target - (localClock candidate timezone).2 : Int) * 60000
    if now < adjusted ∧ weekday.all (· = (localClock adjusted timezone).1) then adjusted
    else occurrenceFrom localClock now target timezone weekday days (adjusted + 86400000)

/-- `nextLocalOccurrence`. -/
def nextLocalOccurrence (localClock : LocalClock) (now : Instant) (at' : String)
    (timezone : String) (weekday : Option Weekday) : Instant :=
  let target := minutesOf at'
  let base := now / 60000 * 60000
  let delta := (target - (localClock base timezone).2 + 1440 : Int) % 1440
  occurrenceFrom localClock now target timezone weekday 8
    (base + (if delta = 0 then 1440 else delta) * 60000)

/-- `nextScheduledEntry`. -/
def nextScheduledEntry (localClock : LocalClock) (trigger : SegmentTrigger) (now : Instant)
    (fallbackTimezone : Option String) : Option Instant :=
  let weekday := trigger.weekday.getD .mon
  let next := nextLocalOccurrence localClock now trigger.at'
    ((trigger.timezone.or fallbackTimezone).getD "UTC")
  match trigger.schedule with
  | .once => none
  | .daily => some (next none)
  | .weekly => some (next (some weekday))

variable {localClock : LocalClock} {now : Instant}

variable {weekday : Option Weekday}

/-- A candidate that is not past stays so. -/
theorem lt_occurrenceFrom {target : Nat} {timezone : String} {days : Nat} {candidate : Instant}
    (hclock : ∀ t zone, (localClock t zone).2 < 1440) (h : now < candidate) :
    now < occurrenceFrom localClock now target timezone weekday days candidate := by
  induction days generalizing candidate with
  | zero => exact h
  | succ days ih =>
    rw [occurrenceFrom]
    split
    · rename_i hfits
      exact hfits.1
    · refine ih ?_
      -- the adjustment takes less than a day
      have hminutes : ((localClock candidate timezone).2 : Int) < 1440 :=
        Int.ofNat_lt.2 (hclock candidate timezone)
      have htarget := Int.natCast_nonneg target
      linarith

/-- **The next occurrence is in the future.** -/
theorem lt_nextLocalOccurrence {at' timezone : String}
    (hclock : ∀ t zone, (localClock t zone).2 < 1440) :
    now < nextLocalOccurrence localClock now at' timezone weekday := by
  refine lt_occurrenceFrom hclock ?_
  have hdelta : ∀ d : Int, 0 ≤ d → 0 < if d = 0 then 1440 else d := by
    intro d hd
    split <;> omega
  have hpos := hdelta _ (Int.emod_nonneg
    (minutesOf at' - (localClock (now / 60000 * 60000) timezone).2 + 1440 : Int)
    (by decide : (1440 : Int) ≠ 0))
  have hbase := Int.lt_ediv_add_one_mul_self now (show (0 : Int) < 60000 by decide)
  linarith

theorem lt_nextScheduledEntry {trigger : SegmentTrigger} {t : Instant}
    {fallbackTimezone : Option String} (hclock : ∀ t zone, (localClock t zone).2 < 1440)
    (h : nextScheduledEntry localClock trigger now fallbackTimezone = some t) : now < t := by
  unfold nextScheduledEntry at h
  cases hschedule : trigger.schedule with
  | once =>
    rw [hschedule] at h
    cases h
  | daily =>
    rw [hschedule] at h
    exact Option.some.inj h ▸ lt_nextLocalOccurrence hclock
  | weekly =>
    rw [hschedule] at h
    exact Option.some.inj h ▸ lt_nextLocalOccurrence hclock

/-! ### Pages of a segment -/

/-- An id of a row: never empty. -/
abbrev RowId := { id : String // id ≠ "" }

/-- A row of `crm_contacts`, and whether it is eligible and in the segment. -/
structure SegmentContact where
  id : RowId
  companyId : Option RowId := none
  inSegment : Bool := true

/-- What a page leaves out: the journey, its re-entry policy and the occurrence. -/
structure EntryExclusion where
  journeyId : String
  reentry : ReentryPolicy
  since : Option Instant

/-- The `EXISTS` of a page: some enrollment keeps the subject out. -/
def EntryExclusion.keepsOut (exclude : EntryExclusion) (enrollments : List EntryRow)
    (subjectKey : String) : Bool :=
  enrollments.any fun en =>
    decide (en.IsOf exclude.journeyId subjectKey) &&
      (decide (exclude.reentry = .once) || en.row.state.isOpen ||
        decide (exclude.since.getD 0 ≤ en.enteredAt))

section Pages

variable (collation : LinearOrder RowId)

/-- The contacts that `segmentContacts` goes through. -/
def contactMembers (contacts : List SegmentContact) : List RowId :=
  (contacts.filter (·.inSegment)).map (·.id)

/-- The companies that `segmentCompanies` goes through. -/
def companyMembers (contacts : List SegmentContact) : List RowId :=
  (contacts.filter (·.inSegment)).filterMap (·.companyId)

/-- `segmentContacts`; a segment that does not exist has no members. -/
def segmentContacts (contacts : List SegmentContact) (limit : Nat) (exclude : EntryExclusion)
    (after : Option RowId) (enrollments : List EntryRow) : List RowId :=
  page (contactMembers contacts) after
    (fun id => exclude.keepsOut enrollments ("c:" ++ id.1)) limit

/-- `segmentCompanies`; no id is empty, so that its last filter keeps all of them. -/
def segmentCompanies (contacts : List SegmentContact) (limit : Nat) (exclude : EntryExclusion)
    (after : Option RowId) (enrollments : List EntryRow) : List RowId :=
  page (companyMembers contacts) after
    (fun id => exclude.keepsOut enrollments ("co:" ++ id.1)) limit

end Pages

/-! ### A tick -/

/-- The columns of a journey that its scheduled entries read and write. -/
structure ScheduledJourney where
  id : String
  status : JourneyStatus := .live
  nextEntryAt : Option Instant := none
  entryCursor : Option RowId := none

/-- What a tick finds: its time and limit, the enrollments, and which attempts enroll. -/
structure EntryTick where
  now : Instant
  limit : Nat := 500
  enrollments : List EntryRow := []
  enrolls : Subject → Bool := fun _ => true

section Tick

variable (collation : LinearOrder RowId) (localClock : LocalClock) (spec : JourneySpec)

/-- The subject that an id stands for. -/
def entrySubject (id : RowId) : Subject :=
  match spec.entry.subject with
  | .company => { companyId := some id.1 }
  | .contact => { contactId := some id.1 }

/-- The ids of a tick's page. -/
def entryIds (contacts : List SegmentContact)
    (journey : ScheduledJourney) (tick : EntryTick) : List RowId :=
  let exclude : EntryExclusion :=
    { journeyId := journey.id, reentry := spec.entry.reentry, since := journey.nextEntryAt }
  match spec.entry.subject with
  | .company =>
    segmentCompanies collation contacts tick.limit exclude journey.entryCursor tick.enrollments
  | .contact =>
    segmentContacts collation contacts tick.limit exclude journey.entryCursor tick.enrollments

/-- `runScheduledEntries` for one journey: the journey after it, the subjects it attempts to enroll,
and how many of the attempts enrolled. -/
def runScheduledEntry (contacts : List SegmentContact) (journey : ScheduledJourney)
    (tick : EntryTick) : ScheduledJourney × List RowId × Nat :=
  if journey.status = .live ∧ journey.nextEntryAt.any (· ≤ tick.now) then
    match spec.entry.trigger with
    | .segment trigger =>
      let ids := entryIds collation spec contacts journey tick
      let more := decide (tick.limit ≤ ids.length)
      ({ journey with
          nextEntryAt :=
            if more then journey.nextEntryAt
            else nextScheduledEntry localClock trigger tick.now spec.settings.timezone
          entryCursor := @cursorAfter _ journey.entryCursor tick.limit ids },
        ids, ids.countP fun id => tick.enrolls (entrySubject spec id))
    | _ => ({ journey with nextEntryAt := none }, [], 0)
  else (journey, [], 0)

/-- The members of the segment that the journey enters. -/
def entryMembers (contacts : List SegmentContact) : List RowId :=
  match spec.entry.subject with
  | .company => companyMembers contacts
  | .contact => contactMembers contacts

/-- Whether the re-entry policy keeps a member out of a tick's page. -/
def keptOut (journey : ScheduledJourney) (tick : EntryTick) (id : RowId) : Bool :=
  EntryExclusion.keepsOut
    { journeyId := journey.id, reentry := spec.entry.reentry, since := journey.nextEntryAt }
    tick.enrollments
    (match spec.entry.subject with
      | .company => "co:" ++ id.1
      | .contact => "c:" ++ id.1)

theorem entryIds_eq_page (contacts : List SegmentContact) (journey : ScheduledJourney)
    (tick : EntryTick) : entryIds collation spec contacts journey tick =
      page (entryMembers spec contacts) journey.entryCursor (keptOut spec journey tick)
        tick.limit := by
  unfold entryIds entryMembers keptOut
  cases spec.entry.subject with
  | company => rfl
  | contact => rfl

end Tick

/-! ### Sweeps -/

/-- An occurrence comes past a member: the member is attempted, or kept out. -/
structure EntryVisit where
  occurrence : Instant
  subject : RowId
  attempted : Bool

/-- A journey, the contacts of its organisation, and whom its occurrences came past so far. -/
structure EntryState where
  journey : ScheduledJourney
  contacts : List SegmentContact
  visits : List EntryVisit := []

/-- The steps: a tick, and changes to the contacts and to the journey's status between ticks. -/
inductive EntryStep where
  | tick (tick : EntryTick)
  | edit (contacts : List SegmentContact)
  | setStatus (status : JourneyStatus)

section Machine

variable (collation : LinearOrder RowId) (localClock : LocalClock) (spec : JourneySpec)

/-- Whom a tick comes past: those it attempts, and the other members of its stretch. -/
def entryVisits (s : EntryState) (tick : EntryTick) : List EntryVisit :=
  match s.journey.nextEntryAt with
  | none => []
  | some occurrence =>
    let ids := (runScheduledEntry collation localClock spec s.contacts s.journey tick).2.1
    let passed := (entryMembers spec s.contacts).dedup.filter fun id =>
      @GoneBy _ collation s.journey.entryCursor tick.limit ids id && decide (id ∉ ids)
    if s.journey.status = .live ∧ occurrence ≤ tick.now then
      ids.map (⟨occurrence, ·, true⟩) ++ passed.map (⟨occurrence, ·, false⟩)
    else []

/-- The state after a tick. -/
def EntryState.afterTick (s : EntryState) (tick : EntryTick) : EntryState :=
  { s with
    journey := (runScheduledEntry collation localClock spec s.contacts s.journey tick).1
    visits := s.visits ++ entryVisits collation localClock spec s tick }

/-- The effect of a step; while a sweep is under way the segment keeps its members. -/
def EntryState.step (s : EntryState) : EntryStep → Option EntryState
  | .tick tick => some (s.afterTick collation localClock spec tick)
  | .edit contacts =>
    if s.journey.entryCursor = none ∨
        entryMembers spec contacts ⊆ entryMembers spec s.contacts ∧
          entryMembers spec s.contacts ⊆ entryMembers spec contacts then
      some { s with contacts }
    else none
  | .setStatus status => some { s with journey := { s.journey with status } }

/-- Any ticks of a journey, with what happens between them. -/
def entryMachine : Machine EntryState EntryStep where
  step := EntryState.step collation localClock spec

end Machine

/-- A journey whose sweep has not begun, and nobody visited. -/
def EntryState.Fresh (s : EntryState) : Prop :=
  s.journey.entryCursor = none ∧ s.visits = []

section Law

variable {collation : LinearOrder RowId} {localClock : LocalClock} {spec : JourneySpec}
  {trigger : SegmentTrigger}

/-- A tick is for this occurrence of the journey. -/
def Due (journey : ScheduledJourney) (occurrence : Instant) (tick : EntryTick) : Prop :=
  journey.status = .live ∧ journey.nextEntryAt = some occurrence ∧ occurrence ≤ tick.now

/-- The page of a tick. -/
abbrev EntryState.page (collation : LinearOrder RowId) (spec : JourneySpec) (s : EntryState)
    (tick : EntryTick) : List RowId :=
  Foundations.page (entryMembers spec s.contacts) s.journey.entryCursor
    (keptOut spec s.journey tick) tick.limit

variable {s : EntryState} {occurrence : Instant} {tick : EntryTick}

section Segments

variable (hsegment : spec.entry.trigger = .segment trigger)

include hsegment

/-- What a tick that is due does. -/
theorem run_of_due (hdue : Due s.journey occurrence tick) :
    runScheduledEntry collation localClock spec s.contacts s.journey tick =
      ({ s.journey with
          nextEntryAt :=
            if tick.limit ≤ (s.page collation spec tick).length then some occurrence
            else nextScheduledEntry localClock trigger tick.now spec.settings.timezone
          entryCursor :=
            cursorAfter s.journey.entryCursor tick.limit (s.page collation spec tick) },
        s.page collation spec tick,
        (s.page collation spec tick).countP fun id => tick.enrolls (entrySubject spec id)) := by
  obtain ⟨hlive, hnext, hle⟩ := hdue
  rw [runScheduledEntry, if_pos ⟨hlive, by rw [hnext]; exact decide_eq_true hle⟩, hsegment]
  dsimp only
  rw [entryIds_eq_page, hnext]
  simp only [decide_eq_true_eq]

omit hsegment in
/-- A tick that is not due changes nothing and comes past nobody. -/
theorem run_of_not_due (hdue : ∀ occurrence, ¬ Due s.journey occurrence tick) :
    runScheduledEntry collation localClock spec s.contacts s.journey tick = (s.journey, [], 0) ∧
      entryVisits collation localClock spec s tick = [] := by
  have hnot : ¬ (s.journey.status = .live ∧ s.journey.nextEntryAt.any (· ≤ tick.now) = true) := by
    rintro ⟨hlive, hany⟩
    obtain ⟨occurrence, hnext, hle⟩ := (Option.any_eq_true _ _).1 hany
    exact hdue occurrence ⟨hlive, hnext, of_decide_eq_true hle⟩
  refine ⟨by rw [runScheduledEntry, if_neg hnot], ?_⟩
  unfold entryVisits
  cases hnext : s.journey.nextEntryAt with
  | none => rfl
  | some occurrence => exact if_neg fun h => hdue occurrence ⟨h.1, hnext, h.2⟩

/-- The visits of a tick that is due. -/
theorem entryVisits_of_due (hdue : Due s.journey occurrence tick) :
    entryVisits collation localClock spec s tick =
      (s.page collation spec tick).map (⟨occurrence, ·, true⟩) ++
        ((entryMembers spec s.contacts).dedup.filter fun id =>
          GoneBy s.journey.entryCursor tick.limit (s.page collation spec tick) id &&
            decide (id ∉ s.page collation spec tick)).map (⟨occurrence, ·, false⟩) := by
  unfold entryVisits
  rw [run_of_due hsegment hdue, hdue.2.1]
  exact if_pos ⟨hdue.1, hdue.2.2⟩

/-- **Whom a tick that is due comes past**: the members of its stretch, attempted unless the
re-entry policy keeps them out. -/
theorem mem_entryVisits (hdue : Due s.journey occurrence tick)
    {v : EntryVisit} : v ∈ entryVisits collation localClock spec s tick ↔
      v.occurrence = occurrence ∧ v.subject ∈ entryMembers spec s.contacts ∧
        GoneBy s.journey.entryCursor tick.limit (s.page collation spec tick) v.subject = true ∧
        v.attempted = !keptOut spec s.journey tick v.subject := by
  obtain ⟨o, i, attempted⟩ := v
  have hpage : i ∈ s.page collation spec tick ↔ i ∈ entryMembers spec s.contacts ∧
      GoneBy s.journey.entryCursor tick.limit (s.page collation spec tick) i = true ∧
      keptOut spec s.journey tick i = false := mem_page_iff
  rw [entryVisits_of_due hsegment hdue, List.mem_append, List.mem_map, List.mem_map]
  simp only [List.mem_filter, List.mem_dedup, Bool.and_eq_true, decide_eq_true_eq,
    EntryVisit.mk.injEq]
  constructor
  · rintro (⟨j, hj, rfl, rfl, rfl⟩ | ⟨j, ⟨hmember, hgone, hj⟩, rfl, rfl, rfl⟩)
    · obtain ⟨hmember, hgone, hout⟩ := hpage.1 hj
      exact ⟨rfl, hmember, hgone, by rw [hout]; rfl⟩
    · refine ⟨rfl, hmember, hgone, ?_⟩
      cases hout : keptOut spec s.journey tick j with
      | true => rfl
      | false => exact absurd (hpage.2 ⟨hmember, hgone, hout⟩) hj
  · rintro ⟨rfl, hmember, hgone, rfl⟩
    cases hout : keptOut spec s.journey tick i with
    | false => exact Or.inl ⟨i, hpage.2 ⟨hmember, hgone, hout⟩, rfl, rfl, rfl⟩
    | true =>
      refine Or.inr ⟨i, ⟨hmember, hgone, fun hi => ?_⟩, rfl, rfl, rfl⟩
      rw [(hpage.1 hi).2.2] at hout
      cases hout

/-- **A tick comes past nobody twice.** -/
theorem nodup_entryVisits (hdue : Due s.journey occurrence tick) :
    ((entryVisits collation localClock spec s tick).map
      fun v => (v.occurrence, v.subject)).Nodup := by
  rw [entryVisits_of_due hsegment hdue, List.map_append, List.map_map, List.map_map,
    List.nodup_append]
  refine ⟨?_, ?_, ?_⟩
  · exact nodup_page.map fun i j h => (Prod.mk.inj h).2
  · exact ((List.nodup_dedup _).filter _).map fun i j h => (Prod.mk.inj h).2
  · rintro a ha b hb rfl
    obtain ⟨i, hi, rfl⟩ := List.mem_map.1 ha
    obtain ⟨j, hj, hsame⟩ := List.mem_map.1 hb
    obtain rfl : j = i := (Prod.mk.inj hsame).2
    have hout := (Bool.and_eq_true _ _ ▸ (List.mem_filter.1 hj).2 :).2
    exact of_decide_eq_true hout hi

/-! ### The invariant -/

/-- **The invariant of sweeps.** Nobody is visited twice; the sweep under way has visited the
members up to its cursor, and all other visits are for earlier occurrences. -/
structure EntryOk (spec : JourneySpec) (collation : LinearOrder RowId) (s : EntryState) : Prop where
  once : (s.visits.map fun v => (v.occurrence, v.subject)).Nodup
  past : ∀ o, s.journey.nextEntryAt = some o → ∀ v ∈ s.visits,
    v.occurrence < o ∨ v.occurrence = o ∧ Beyond s.journey.entryCursor v.subject = false
  covered : ∀ o, s.journey.nextEntryAt = some o → ∀ i ∈ entryMembers spec s.contacts,
    Beyond s.journey.entryCursor i = false → ∃ v ∈ s.visits, v.occurrence = o ∧ v.subject = i

omit hsegment in
theorem afterTick_of_not_due (hdue : ∀ occurrence, ¬ Due s.journey occurrence tick) :
    s.afterTick collation localClock spec tick = s := by
  rw [EntryState.afterTick, (run_of_not_due hdue).1, (run_of_not_due hdue).2, List.append_nil]

/-- The visits of a tick are of other members than the ones before. -/
theorem EntryOk.once_afterTick (h : EntryOk spec collation s)
    (hdue : Due s.journey occurrence tick) :
    ((s.afterTick collation localClock spec tick).visits.map
      fun v => (v.occurrence, v.subject)).Nodup := by
  dsimp only [EntryState.afterTick]
  rw [List.map_append, List.nodup_append]
  refine ⟨h.once, nodup_entryVisits hsegment hdue, ?_⟩
  rintro a ha b hb rfl
  obtain ⟨v, hv, rfl⟩ := List.mem_map.1 ha
  obtain ⟨w, hw, hsame⟩ := List.mem_map.1 hb
  obtain ⟨hoccurrence, hsubject⟩ := Prod.mk.inj hsame
  obtain ⟨hw, -, hgone, -⟩ := (mem_entryVisits hsegment hdue).1 hw
  rcases h.past occurrence hdue.2.1 v hv with hlt | ⟨-, hnot⟩
  · exact absurd (hoccurrence ▸ hw) (ne_of_lt hlt)
  · rw [GoneBy, hsubject, hnot] at hgone
    cases hgone

/-- **A tick that ends a sweep has come past every member.** -/
theorem EntryOk.visited_of_short (h : EntryOk spec collation s)
    (hdue : Due s.journey occurrence tick)
    (hshort : (s.page collation spec tick).length < tick.limit) {i : RowId}
    (hi : i ∈ entryMembers spec s.contacts) :
    ∃ v ∈ (s.afterTick collation localClock spec tick).visits,
      v.occurrence = occurrence ∧ v.subject = i := by
  cases hbeyond : Beyond s.journey.entryCursor i with
  | false =>
    obtain ⟨v, hv, hsame⟩ := h.covered occurrence hdue.2.1 i hi hbeyond
    exact ⟨v, List.mem_append_left _ hv, hsame⟩
  | true =>
    refine ⟨⟨occurrence, i, !keptOut spec s.journey tick i⟩, List.mem_append_right _ ?_, rfl, rfl⟩
    refine (mem_entryVisits hsegment hdue).2 ⟨rfl, hi, ?_, rfl⟩
    rw [GoneBy, hbeyond, decide_eq_true hshort]
    rfl

/-- The invariant after a page that is full. -/
theorem EntryOk.afterTick_of_full (h : EntryOk spec collation s)
    (hdue : Due s.journey occurrence tick)
    (hfull : tick.limit ≤ (s.page collation spec tick).length) :
    EntryOk spec collation (s.afterTick collation localClock spec tick) := by
  have hrun : runScheduledEntry collation localClock spec s.contacts s.journey tick = _ :=
    run_of_due hsegment hdue
  have hnext : ∀ o, (s.afterTick collation localClock spec tick).journey.nextEntryAt = some o →
      o = occurrence := by
    intro o ho
    dsimp only [EntryState.afterTick] at ho
    rw [hrun, if_pos hfull] at ho
    exact (Option.some.inj ho).symm
  have hcursor : (s.afterTick collation localClock spec tick).journey.entryCursor
      = cursorAfter s.journey.entryCursor tick.limit (s.page collation spec tick) := by
    dsimp only [EntryState.afterTick]
    rw [hrun]
  refine ⟨h.once_afterTick hsegment hdue, fun o ho v hv => ?_, fun o ho i hi hnot => ?_⟩
  · obtain rfl := hnext o ho
    rw [hcursor]
    rcases List.mem_append.1 hv with hold | hnew
    · refine (h.past o hdue.2.1 v hold).imp_right fun ⟨hsame, hnot⟩ => ⟨hsame, ?_⟩
      refine Bool.eq_false_iff.2 fun hbeyond => ?_
      rw [beyond_of_cursorAfter hfull hbeyond] at hnot
      cases hnot
    · obtain ⟨hsame, -, hgone, -⟩ := (mem_entryVisits hsegment hdue).1 hnew
      rw [GoneBy, decide_eq_false (not_lt.2 hfull), Bool.false_or, Bool.and_eq_true] at hgone
      exact Or.inr ⟨hsame, by simpa using hgone.2⟩
  · obtain rfl := hnext o ho
    rw [hcursor] at hnot
    cases hbeyond : Beyond s.journey.entryCursor i with
    | false =>
      obtain ⟨v, hv, hsame⟩ := h.covered o hdue.2.1 i hi hbeyond
      exact ⟨v, List.mem_append_left _ hv, hsame⟩
    | true =>
      refine ⟨⟨o, i, !keptOut spec s.journey tick i⟩, List.mem_append_right _ ?_, rfl, rfl⟩
      refine (mem_entryVisits hsegment hdue).2 ⟨rfl, hi, ?_, rfl⟩
      rw [GoneBy, hbeyond, hnot, Bool.not_false, Bool.or_true]
      rfl

end Segments

section Sweeps

variable {t : EntryState} (hclock : ∀ t zone, (localClock t zone).2 < 1440)
    (hsegment : spec.entry.trigger = .segment trigger)

include hclock hsegment

/-- The invariant after the last page: the next occurrence is later than all visits. -/
theorem EntryOk.afterTick_of_short (h : EntryOk spec collation s)
    (hdue : Due s.journey occurrence tick)
    (hshort : (s.page collation spec tick).length < tick.limit) :
    EntryOk spec collation (s.afterTick collation localClock spec tick) := by
  have hrun : runScheduledEntry collation localClock spec s.contacts s.journey tick = _ :=
    run_of_due hsegment hdue
  have hlater : ∀ o, (s.afterTick collation localClock spec tick).journey.nextEntryAt = some o →
      occurrence < o := by
    intro o ho
    dsimp only [EntryState.afterTick] at ho
    rw [hrun, if_neg (not_le.2 hshort)] at ho
    exact lt_of_le_of_lt hdue.2.2 (lt_nextScheduledEntry hclock ho)
  have hcursor : (s.afterTick collation localClock spec tick).journey.entryCursor = none := by
    dsimp only [EntryState.afterTick]
    rw [hrun]
    exact cursorAfter_of_lt hshort
  refine ⟨h.once_afterTick hsegment hdue, fun o ho v hv => Or.inl ?_, fun o _ i _ hnot => ?_⟩
  · refine lt_of_le_of_lt ?_ (hlater o ho)
    rcases List.mem_append.1 hv with hold | hnew
    · exact (h.past occurrence hdue.2.1 v hold).elim le_of_lt fun hsame => le_of_eq hsame.1
    · exact le_of_eq ((mem_entryVisits hsegment hdue).1 hnew).1
  · rw [hcursor] at hnot
    cases hnot

theorem EntryOk.afterTick (h : EntryOk spec collation s) (tick : EntryTick) :
    EntryOk spec collation (s.afterTick collation localClock spec tick) := by
  by_cases hdue : ∃ occurrence, Due s.journey occurrence tick
  · obtain ⟨occurrence, hdue⟩ := hdue
    rcases lt_or_ge (s.page collation spec tick).length tick.limit with hshort | hfull
    · exact h.afterTick_of_short hclock hsegment hdue hshort
    · exact h.afterTick_of_full hsegment hdue hfull
  · rw [afterTick_of_not_due fun occurrence h => hdue ⟨occurrence, h⟩]
    exact h

/-- The other steps keep the invariant: the members stay while a sweep is under way. -/
theorem EntryOk.step {a : EntryStep} (h : EntryOk spec collation s)
    (hstep : s.step collation localClock spec a = some t) : EntryOk spec collation t := by
  cases a with
  | tick tick => exact Option.some.inj hstep ▸ h.afterTick hclock hsegment tick
  | edit contacts =>
    simp only [EntryState.step] at hstep
    split at hstep
    · rename_i hkeep
      obtain rfl := Option.some.inj hstep
      refine ⟨h.once, h.past, fun o ho i hi hnot => ?_⟩
      rcases hkeep with hnone | ⟨hsub, -⟩
      · dsimp only at hnot
        rw [hnone] at hnot
        cases hnot
      · exact h.covered o ho i (hsub hi) hnot
    · cases hstep
  | setStatus status =>
    obtain rfl := Option.some.inj hstep
    exact ⟨h.once, h.past, h.covered⟩

theorem entryOk_of_reachable
    (h : (entryMachine collation localClock spec).Reachable EntryState.Fresh s) :
    EntryOk spec collation s := by
  refine h.invariant (fun s hs => ?_) fun s t a _ hI _ ht => hI.step hclock hsegment ht
  obtain ⟨hcursor, hvisits⟩ := hs
  refine ⟨by simp [hvisits], by simp [hvisits], fun o _ i _ hnot => ?_⟩
  rw [hcursor] at hnot
  cases hnot

/-! ### Ticks end the sweep -/

/-- The journey has moved on from an occurrence. -/
def MovedOn (occurrence : Instant) (s : EntryState) : Prop :=
  ∀ o, s.journey.nextEntryAt = some o → occurrence < o

/-- Where a tick that is due leaves the journey. -/
theorem afterTick_of_due (hdue : Due s.journey occurrence tick) :
    MovedOn occurrence (s.afterTick collation localClock spec tick) ∨
      tick.limit ≤ (s.page collation spec tick).length ∧
        (s.afterTick collation localClock spec tick).journey =
          { s.journey with
            entryCursor :=
              cursorAfter s.journey.entryCursor tick.limit (s.page collation spec tick) } := by
  have hrun : runScheduledEntry collation localClock spec s.contacts s.journey tick = _ :=
    run_of_due hsegment hdue
  rcases lt_or_ge (s.page collation spec tick).length tick.limit with hshort | hfull
  · refine Or.inl fun o ho => ?_
    dsimp only [EntryState.afterTick] at ho
    rw [hrun, if_neg (not_le.2 hshort)] at ho
    exact lt_of_le_of_lt hdue.2.2 (lt_nextScheduledEntry hclock ho)
  · refine Or.inr ⟨hfull, ?_⟩
    dsimp only [EntryState.afterTick]
    rw [hrun, if_pos hfull, ← hdue.2.1]

/-- A journey that has moved on does not come back. -/
theorem MovedOn.afterTick (h : MovedOn occurrence s) (tick : EntryTick) :
    MovedOn occurrence (s.afterTick collation localClock spec tick) := by
  by_cases hdue : ∃ o, Due s.journey o tick
  · obtain ⟨o, hdue⟩ := hdue
    have hlt := h o hdue.2.1
    rcases afterTick_of_due hclock hsegment hdue with hmoved | ⟨-, hsame⟩
    · exact fun o' ho' => hlt.trans (hmoved o' ho')
    · intro o' ho'
      rw [hsame] at ho'
      exact h o' ho'
  · rw [afterTick_of_not_due fun o h => hdue ⟨o, h⟩]
    exact h

/-- **Enough ticks end a sweep**: more than members still to go, each with room for one. -/
theorem movedOn_of_run {ticks : List EntryTick}
    (hticks : ∀ tick ∈ ticks, 0 < tick.limit ∧ occurrence ≤ tick.now)
    (hstart : MovedOn occurrence s ∨ s.journey.status = .live ∧
      s.journey.nextEntryAt = some occurrence ∧
      (entryMembers spec s.contacts).countP (Beyond s.journey.entryCursor) < ticks.length)
    (hrun : (entryMachine collation localClock spec).run s (ticks.map .tick) = some t) :
    MovedOn occurrence t := by
  induction ticks generalizing s with
  | nil =>
    obtain rfl : s = t := Option.some.inj hrun
    exact hstart.resolve_right fun h => absurd h.2.2 (Nat.not_lt_zero _)
  | cons tick ticks ih =>
    obtain ⟨hlimit, hnow⟩ := hticks tick List.mem_cons_self
    refine ih (fun tick' h => hticks tick' (List.mem_cons_of_mem tick h)) ?_ hrun
    rcases hstart with hmoved | ⟨hlive, hnext, hcount⟩
    · exact Or.inl (hmoved.afterTick hclock hsegment tick)
    · have hdue : Due s.journey occurrence tick := ⟨hlive, hnext, hnow⟩
      refine (afterTick_of_due hclock hsegment hdue).imp_right ?_
      rintro ⟨hfull, hsame⟩
      rw [hsame]
      refine ⟨hlive, hnext, ?_⟩
      have hless := countP_beyond_lt hlimit hfull
      rw [List.length_cons] at hcount
      exact lt_of_lt_of_le hless (Nat.le_of_lt_succ hcount)

end Sweeps

/-! ### The law -/

/-- **Each occurrence comes past every member once.** In any run of ticks, whatever their limits, an
occurrence comes past nobody twice; whom a tick comes past it attempts to enroll, unless the
re-entry policy keeps them out; the next occurrence is set only when this one has come past every
member of the segment, and it is set in the end if the limits are not zero. -/
theorem scheduled_entry_visits_once (hclock : ∀ t zone, (localClock t zone).2 < 1440)
    (hsegment : spec.entry.trigger = .segment trigger) {s : EntryState}
    (h : (entryMachine collation localClock spec).Reachable EntryState.Fresh s) :
    (s.visits.map fun v => (v.occurrence, v.subject)).Nodup ∧
      (∀ (tick : EntryTick) (t : EntryState),
        (entryMachine collation localClock spec).step s (.tick tick) = some t →
          (∃ visits, t.visits = s.visits ++ visits ∧
            (visits.filter (·.attempted)).map (·.subject)
              = (runScheduledEntry collation localClock spec s.contacts s.journey tick).2.1 ∧
            ∀ v ∈ visits, v.attempted = !keptOut spec s.journey tick v.subject) ∧
          ∀ o, s.journey.nextEntryAt = some o → t.journey.nextEntryAt ≠ some o →
            ∀ i ∈ entryMembers spec s.contacts,
              ∃ v ∈ t.visits, v.occurrence = o ∧ v.subject = i) ∧
      ∀ (o : Instant) (ticks : List EntryTick) (t : EntryState),
        s.journey.status = .live → s.journey.nextEntryAt = some o →
          (∀ tick ∈ ticks, 0 < tick.limit ∧ o ≤ tick.now) →
            (entryMembers spec s.contacts).length < ticks.length →
              (entryMachine collation localClock spec).run s (ticks.map .tick) = some t →
                t.journey.nextEntryAt ≠ some o := by
  have hok := entryOk_of_reachable hclock hsegment h
  refine ⟨hok.once, fun tick t ht => ?_, fun o ticks t hlive hnext hticks hmore hrun ho => ?_⟩
  · obtain rfl : s.afterTick collation localClock spec tick = t := Option.some.inj ht
    by_cases hdue : ∃ o, Due s.journey o tick
    · obtain ⟨o, hdue⟩ := hdue
      refine ⟨⟨_, rfl, ?_, fun v hv => ((mem_entryVisits hsegment hdue).1 hv).2.2.2⟩, ?_⟩
      · rw [entryVisits_of_due hsegment hdue, run_of_due hsegment hdue]
        simp [List.filter_map, Function.comp_def]
      · intro o' ho' hmoved i hi
        obtain rfl : o = o' := Option.some.inj (hdue.2.1.symm.trans ho')
        refine hok.visited_of_short hsegment hdue ?_ hi
        by_contra hfull
        refine hmoved ?_
        dsimp only [EntryState.afterTick]
        rw [run_of_due hsegment hdue, if_pos (not_lt.1 hfull)]
    · have hnone : ∀ o, ¬ Due s.journey o tick := fun o h => hdue ⟨o, h⟩
      refine ⟨⟨[], ?_, ?_, fun v hv => absurd hv List.not_mem_nil⟩, fun o ho hmoved => ?_⟩
      · rw [afterTick_of_not_due hnone, List.append_nil]
      · rw [(run_of_not_due hnone).1]
        rfl
      · rw [afterTick_of_not_due hnone] at hmoved
        exact absurd ho hmoved
  · have hcount := (List.countP_le_length (p := Beyond s.journey.entryCursor)
      (l := entryMembers spec s.contacts)).trans_lt hmore
    exact lt_irrefl o (movedOn_of_run hclock hsegment hticks (Or.inr ⟨hlive, hnext, hcount⟩)
      hrun o ho)

end Law

/-- The clock of UTC, in every zone. The first of January 1970 was a Thursday. -/
def utcClock : LocalClock := fun t _ =>
  ([.thu, .fri, .sat, .sun, .mon, .tue, .wed].getD (t / 86400000 % 7).toNat .thu,
    (t / 60000 % 1440).toNat)

theorem utcClock_lt (t : Instant) (zone : String) : (utcClock t zone).2 < 1440 := by
  have hlt := Int.emod_lt_of_pos (t / 60000) (show (0 : Int) < 1440 by decide)
  have hnonneg := Int.emod_nonneg (t / 60000) (show (1440 : Int) ≠ 0 by decide)
  dsimp only [utcClock]
  omega

/-- A journey that enters three contacts every day. -/
def dailySpec : JourneySpec where
  entry := { trigger := .segment { segmentId := "s", schedule := .daily } }
  start := "end"
  nodes := []

def dailyState : EntryState where
  journey := { id := "j", nextEntryAt := some 0 }
  contacts := [⟨⟨"a", by decide⟩, none, true⟩, ⟨⟨"b", by decide⟩, none, true⟩,
    ⟨⟨"c", by decide⟩, none, true⟩]

/-- Four ticks with room for one contact each end the first day. -/
theorem scheduled_entry_sample : ∃ t, (entryMachine inferInstance utcClock dailySpec).run dailyState
    [.tick { now := 0, limit := 1 }, .tick { now := 0, limit := 1 },
      .tick { now := 0, limit := 1 }, .tick { now := 0, limit := 1 }] = some t ∧
    t.journey.nextEntryAt ≠ some 0 := by
  refine ⟨_, rfl, ?_⟩
  refine (scheduled_entry_visits_once (s := dailyState) utcClock_lt rfl
    (.start ⟨rfl, rfl⟩)).2.2 0 [{ now := 0, limit := 1 }, { now := 0, limit := 1 },
      { now := 0, limit := 1 }, { now := 0, limit := 1 }] _ rfl rfl ?_ (by decide) rfl
  intro tick htick
  simp only [List.mem_cons, List.not_mem_nil, or_false, or_self] at htick
  subst htick
  exact ⟨Nat.one_pos, le_refl _⟩

end Munin
