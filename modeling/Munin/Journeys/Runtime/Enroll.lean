import Munin.Foundations.Machine
import Munin.Foundations.ReadCommitted
import Munin.Journeys.Runtime.Transactions
import Munin.Journeys.Versions

/-!
# Enrolling a subject

`enroll` reads a journey and its subject, decides by the re-entry policy and the enrollments that it
finds, and inserts a row; each read and the insertion is a statement of its own, between which other
transactions commit.

* **`EnrollInput`, `EnrollReads`, `EnrollCall.start`** — what is checked before the enrollments are
  read.
* **`EnrollState.exec`** — the statements on `journey_enrollments`.
* **`enrollMachine`** — any number of calls, in any transactions, with the other writes to rows.
-/

namespace Munin

open Foundations

def MAX_CONCURRENT_ENROLLMENTS : Nat := 20

/-! ### Subjects -/

/-- `Subject`. -/
structure Subject where
  contactId : Option String := none
  endUserId : Option String := none
  companyId : Option String := none

/-- `subjectKeyOf`. -/
def subjectKeyOf (subject : Subject) : Option String :=
  if truthy subject.companyId && !truthy subject.contactId && !truthy subject.endUserId then
    subject.companyId.map ("co:" ++ ·)
  else if truthy subject.contactId then subject.contactId.map ("c:" ++ ·)
  else if truthy subject.endUserId then subject.endUserId.map ("eu:" ++ ·)
  else none

/-- What `enroll` reads outside the enrollments. -/
structure EnrollReads where
  /-- The journey's status and live version. -/
  journey : Option (JourneyStatus × Option Nat)
  now : Instant
  contactExists : String → Bool := fun _ => true
  endUserExists : String → Bool := fun _ => true
  companyExists : String → Bool := fun _ => true
  /-- The end user of a contact, and its company. -/
  endUserOf : String → Option String := fun _ => none
  companyOf : String → Option String := fun _ => none
  /-- The oldest contact of an end user. -/
  contactOf : String → Option String := fun _ => none
  contactInSegment : String → String → Bool := fun _ _ => true
  companyInSegment : String → String → Bool := fun _ _ => true

namespace EnrollReads

variable (reads : EnrollReads)

/-- `assertSubjectExists`. -/
def assertSubjectExists (subject : Subject) : Except String Unit := do
  if let some id := subject.contactId.filter (· ≠ "") then
    if !reads.contactExists id then throw ("journeys_not_found: contact " ++ id)
  if let some id := subject.endUserId.filter (· ≠ "") then
    if !reads.endUserExists id then throw ("journeys_not_found: end user " ++ id)

/-- `completeSubject`. -/
def completeSubject (subject : Subject) : Subject :=
  match subject.contactId.filter (· ≠ ""), subject.endUserId.filter (· ≠ "") with
  | some id, none => { subject with endUserId := reads.endUserOf id }
  | none, some id => { subject with contactId := reads.contactOf id }
  | _, _ => subject

/-- `subjectCompany`. -/
def subjectCompany (subject : Subject) : Except String (Option String) :=
  match subject.companyId.filter (· ≠ "") with
  | some id =>
    if reads.companyExists id then .ok (some id) else .error ("journeys_not_found: company " ++ id)
  | none => .ok (((reads.completeSubject subject).contactId.filter (· ≠ "")).bind reads.companyOf)

end EnrollReads

/-! ### A call -/

/-- The arguments of `enroll`; of the source the id of its event, if it is a text. -/
structure EnrollInput where
  journeyId : String
  subject : Subject
  eventId : Option String := none
  context : Record := []
  occurredAt : Option Instant := none

/-- A row of `journey_enrollments`, with the columns that only `enroll` reads. -/
structure EntryRow where
  row : Enrollment
  entryKey : String
  enteredAt : Instant

/-- What the unique index `journey_enrollments_open_subject_uq` covers: open rows, by journey,
subject and entry key. -/
def EntryRow.key (r : EntryRow) : Option (String × String × String) :=
  if r.row.state.isOpen then some (r.row.journeyId, r.row.subjectKey, r.entryKey) else none

/-- The row is of this journey and subject. -/
def EntryRow.IsOf (r : EntryRow) (journeyId subjectKey : String) : Prop :=
  r.row.journeyId = journeyId ∧ r.row.subjectKey = subjectKey

instance (r : EntryRow) (journeyId subjectKey : String) : Decidable (r.IsOf journeyId subjectKey) :=
  inferInstanceAs (Decidable (_ ∧ _))

/-- The statement that a call executes next, with what it has read. -/
inductive EnrollStage where
  | prior
  | open'
  | seen (open' : List (String × String))
  | heldOut (open' : List (String × String))
  | insert
  deriving DecidableEq

/-- A call of `enroll` that has reached the enrollments. -/
structure EnrollCall where
  /-- Its transaction. -/
  tx : Nat
  input : EnrollInput
  subject : Subject
  subjectKey : String
  version : Nat
  spec : JourneySpec
  now : Instant
  /-- The id that the row gets. -/
  id : String
  /-- `randomUUID()`. -/
  uuid : String
  stage : EnrollStage := .prior

namespace EnrollCall

/-- Whether the subject is in the entry's segment. -/
def inSegment (spec : JourneySpec) (reads : EnrollReads) (subject : Subject) : Bool :=
  match spec.entry.segmentId.filter (· ≠ "") with
  | none => true
  | some segmentId =>
    match subject.companyId.filter (· ≠ ""), subject.contactId.filter (· ≠ "") with
    | some id, _ => reads.companyInSegment id segmentId
    | none, some id => reads.contactInSegment id segmentId
    | none, none => false

/-- The subject that a journey of companies, or of persons, enrolls. -/
def subjectOf (spec : JourneySpec) (reads : EnrollReads) (subject : Subject) :
    Except String Subject :=
  match spec.entry.subject with
  | .company => (reads.subjectCompany subject).map fun companyId => { companyId }
  | .contact => .ok { reads.completeSubject subject with companyId := none }

/-- The part of `enroll` before it reads enrollments. -/
def start (spec : Nat → Option JourneySpec) (tx : Nat) (input : EnrollInput) (reads : EnrollReads)
    (id uuid : String) : Except String (EnrollResult ⊕ EnrollCall) :=
  match reads.journey with
  | none => .error ("journeys_not_found: journey " ++ input.journeyId)
  | some (.live, some version) =>
    if version = 0 then .ok (.inl (.skipped "journey_not_live" none))
    else match spec version with
      | none => .error "journeys_not_found: the journey has no such version"
      | some spec =>
        if spec.entry.lastEntryAt.any (· < reads.now) then
          .ok (.inl (.skipped "entry_closed" none))
        else do
          reads.assertSubjectExists input.subject
          let subject ← subjectOf spec reads input.subject
          pure <|
            if spec.entry.subject = .company ∧ truthy subject.companyId = false then
              .inl (.skipped "no_company" none)
            else match (subjectKeyOf subject).filter (· ≠ "") with
              | none => .inl (.skipped "no_subject" none)
              | some subjectKey =>
                if inSegment spec reads subject then
                  .inr { tx, input, subject, subjectKey, version, spec, now := reads.now, id, uuid }
                else .inl (.skipped "not_in_segment" none)
  | some _ => .ok (.inl (.skipped "journey_not_live" none))

variable (c : EnrollCall)

def concurrent : Bool := c.spec.entry.reentry = .concurrent

def entryKey : String := if c.concurrent then c.input.eventId.getD c.uuid else ""

/-- Whether the subject is in the journey's holdout group. -/
def holdout : Bool := stableBucket [c.subjectKey, c.input.journeyId] < c.spec.settings.holdoutPct

/-- The row that the call inserts. -/
def newEnrollment : NewEnrollment where
  id := c.id
  journeyId := c.input.journeyId
  version := c.version
  contactId := c.subject.contactId
  endUserId := c.subject.endUserId
  companyId := c.subject.companyId
  subjectKey := c.subjectKey
  context := c.input.context
  now := c.now

def row : EntryRow where
  row := (c.newEnrollment.file c.spec).row
  entryKey := c.entryKey
  enteredAt := match c.input.occurredAt with
    | some t => if t < c.now then t else c.now
    | none => c.now

/-- The rows of the journey and the subject among those that a statement reads. -/
def mine (rows : List EntryRow) : List EntryRow :=
  rows.filter fun r => r.IsOf c.input.journeyId c.subjectKey

/-- The checks after the last read. -/
def ready (open' : List (String × String)) : EnrollResult ⊕ EnrollStage :=
  match open' with
  | first :: _ =>
    if !c.concurrent then .inl (.skipped "already_active" (some first.1))
    else if MAX_CONCURRENT_ENROLLMENTS ≤ open'.length then
      .inl (.skipped "concurrency_cap" none)
    else .inr .insert
  | [] => .inr .insert

/-- What follows from what a statement reads: an answer, or the next statement. -/
def afterRead (rows : List EntryRow) : EnrollResult ⊕ EnrollStage :=
  match c.stage with
  | .prior =>
    if c.spec.entry.reentry = .once && !(c.mine rows).isEmpty then
      .inl (.skipped "already_enrolled" none)
    else .inr .open'
  | .open' =>
    let open' := (((c.mine rows).filter (·.row.state.isOpen)).take MAX_CONCURRENT_ENROLLMENTS).map
      fun r => (r.row.id, r.entryKey)
    match open'.find? (·.2 = c.entryKey) with
    | some same => .inl (.skipped "already_active" (some same.1))
    | none =>
      if c.concurrent then .inr (.seen open')
      else if c.spec.goal.isSome then .inr (.heldOut open')
      else c.ready open'
  | .seen open' =>
    match (c.mine rows).find? (·.entryKey = c.entryKey) with
    | some seen => .inl (.skipped "already_enrolled" (some seen.row.id))
    | none => c.ready open'
  | .heldOut open' =>
    let since := c.now - (c.spec.goal.elim 0 fun g => (g.windowDays : Int)) * 86400000
    match (c.mine rows).find? fun r => r.row.holdout && since ≤ r.enteredAt with
    | some heldOut => .inl (.skipped "in_holdout" (some heldOut.row.id))
    | none => c.ready open'
  | .insert => .inr .insert

end EnrollCall

/-! ### Calls and other writes -/

/-- The table, and the calls that are under way. -/
structure EnrollState where
  table : TxTable EntryRow := []
  calls : Nat → Option EnrollCall := fun _ => none

/-- The steps: a call that begins, the next statement of a call, and what else transactions do. -/
inductive EnrollStep where
  | call (i tx : Nat) (input : EnrollInput) (reads : EnrollReads) (id uuid : String)
  | exec (i : Nat)
  /-- Another write to a row: `finish` with its reason and time, or one that leaves the columns of
  the index alone. -/
  | write (tx i : Nat) (finish : Option (String × Instant))
  /-- A savepoint that is rolled back. -/
  | undo (tx i : Nat)
  | commit (tx : Nat)
  | abort (tx : Nat)

/-- The end of a row. -/
def EntryRow.finish (r : EntryRow) (reason : String) (clock : Instant) : EntryRow :=
  { r with row := (({ row := r.row } : EnrollmentFile).finish reason clock).row }

/-- What another write makes of a row. -/
def EntryRow.written (r : EntryRow) : Option (String × Instant) → EntryRow
  | some (reason, clock) => r.finish reason clock
  | none => r

namespace EnrollState

/-- One call replaced. -/
def setCall (s : EnrollState) (i : Nat) (c : Option EnrollCall) : EnrollState :=
  { s with calls := Function.update s.calls i c }

/-- The next statement of a call. -/
def exec (s : EnrollState) (i : Nat) (c : EnrollCall) : Option EnrollState :=
  match c.stage with
  | .insert =>
    (s.table.insert EntryRow.key c.tx c.row).map fun (table, _) =>
      { s with table }.setCall i none
  | _ =>
    match c.afterRead (s.table.view c.tx) with
    | .inl _ => s.setCall i none
    | .inr stage => s.setCall i (some { c with stage })

/-- The effect of a step. A statement of a transaction that has to wait, and one that fails, has
none. -/
def step (specs : Specs) (s : EnrollState) : EnrollStep → Option EnrollState
  | .call i tx input reads id uuid =>
    if (s.calls i).isSome then none
    else match EnrollCall.start (specs input.journeyId) tx input reads id uuid with
      | .ok (.inr c) => s.setCall i c
      | .ok (.inl _) | .error _ => some s
  | .exec i => (s.calls i).bind (s.exec i)
  | .write tx i finish => (s.table.update tx i (·.written finish)).map fun table => { s with table }
  | .undo tx i => (s.table.undo EntryRow.key tx i).map fun table => { s with table }
  | .commit tx => some { s with table := s.table.commit tx }
  | .abort tx => some { s with table := s.table.abort tx }

end EnrollState

/-- Calls of `enroll` and other transactions, in any order of their statements. -/
def enrollMachine (specs : Specs) : Machine EnrollState EnrollStep where
  step := EnrollState.step specs

end Munin
