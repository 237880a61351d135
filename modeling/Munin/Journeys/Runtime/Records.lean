import Munin.Common
import Munin.Journeys.Spec

/-!
# The file of an enrollment

An enrollment takes one subject through one journey. Its file is its row, the runs of its steps, the
waits these opened, and the approvals they asked for. Every transaction that writes the file first
takes the lock of the row, so that the transactions on one file are atomic.

* **`Visits`** — how often each node was entered, kept in a JavaScript record. A record that lacks a
  key still answers for the names that every object has, and `constructor` is a valid node id.
* **`Enrollment`, `StepRun`, `JourneyWait`, `JourneyApproval`** — the rows.
* **`EnrollmentFile`** — the rows together; `openWaits` are those that nothing has resolved.
-/

namespace Munin

open Foundations

/-! ### Visits -/

/-- What a visit record holds for a node: a count, or what counting makes of a value that is no
number. -/
inductive VisitCount where
  | count (n : Nat)
  | text
  deriving DecidableEq

/-- `visits`. -/
abbrev Visits := List (NodeId × VisitCount)

namespace Visits

/-- `visits[id]`: of the valid node ids, `constructor` is the one that every object answers. -/
def get (visits : Visits) (id : NodeId) : Option VisitCount :=
  match visits.lookup id with
  | some c => some c
  | none => if id = "constructor" then some .text else none

/-- `visits[id] ?? 1`: the visit that the run is in. -/
def current (visits : Visits) (id : NodeId) : VisitCount :=
  (visits.get id).getD (.count 1)

/-- `(visits[id] ?? 0) + 1`. -/
def nextVisit (visits : Visits) (id : NodeId) : VisitCount :=
  match visits.get id with
  | none => .count 1
  | some (.count n) => .count (n + 1)
  | some .text => .text

/-- `{ ...visits, [id]: (visits[id] ?? 0) + 1 }`: the node is entered. -/
def enter (visits : Visits) (id : NodeId) : Visits :=
  setField visits id (visits.nextVisit id)

@[simp]
theorem get_enter_self (visits : Visits) (id : NodeId) :
    (visits.enter id).get id = some (visits.nextVisit id) := by
  rw [get, enter, lookup_setField_self]

theorem get_enter_of_ne (visits : Visits) {id other : NodeId} (h : other ≠ id) :
    (visits.enter id).get other = visits.get other := by
  rw [get, get, enter, lookup_setField_of_ne _ _ h]

@[simp]
theorem current_enter_self (visits : Visits) (id : NodeId) :
    (visits.enter id).current id = visits.nextVisit id := by
  rw [current, get_enter_self, Option.getD_some]

end Visits

/-! ### The rows -/

/-- The states of an enrollment. -/
inductive EnrollmentState where
  | active
  | waiting
  | done
  | exited
  | failed
  deriving DecidableEq

/-- `isOpen`. -/
def EnrollmentState.isOpen : EnrollmentState → Bool
  | .active | .waiting => true
  | .done | .exited | .failed => false

/-- A row of `journey_enrollments`. -/
structure Enrollment where
  id : String
  journeyId : String
  version : Nat
  contactId : Option String := none
  endUserId : Option String := none
  companyId : Option String := none
  subjectKey : String
  state : EnrollmentState := .active
  currentNode : Option NodeId := none
  visits : Visits := []
  context : Record := []
  conversationId : Option String := none
  holdout : Bool := false
  nextRunAt : Option Instant := none
  idleDeadlineAt : Option Instant := none
  goalReachedAt : Option Instant := none
  exitedAt : Option Instant := none
  exitReason : Option String := none
  stepErrors : Nat := 0
  lastError : Option String := none

/-- The statuses of a step run. -/
inductive StepStatus where
  | running
  | waiting
  | retrying
  | completed
  | cancelled
  | failed
  deriving DecidableEq

/-- Whether a step run has not ended. -/
def StepStatus.isOpen : StepStatus → Bool
  | .running | .waiting | .retrying => true
  | .completed | .cancelled | .failed => false

/-- A row of `journey_step_runs`: one visit to a node. -/
structure StepRun where
  id : Nat
  nodeId : NodeId
  /-- `none` is the type `unknown`. -/
  nodeType : Option JourneyNodeType
  version : Nat
  visit : Nat
  attempt : Nat := 1
  status : StepStatus
  output : Record := []
  edgeTaken : Option String := none
  reason : Option String := none
  proposalId : Option String := none
  finishedAt : Option Instant := none

/-- The kinds of wait. -/
inductive WaitKind where
  | timer
  | event
  | proposal
  | conversationClose
  | agent
  | approval
  deriving DecidableEq

/-- A row of `journey_waits`. -/
structure JourneyWait where
  id : Nat
  stepRunId : Nat
  kind : WaitKind
  wakeAt : Option Instant := none
  eventKey : Option String := none
  payload : Record := []
  timeoutAt : Option Instant := none
  resolvedAt : Option Instant := none
  resolution : Option String := none
  createdAt : Instant

/-- Nothing has resolved the wait. -/
def JourneyWait.isOpen (w : JourneyWait) : Bool :=
  w.resolvedAt.isNone

/-- The statuses of an approval. -/
inductive ApprovalStatus where
  | pending
  | approved
  | rejected
  | expired
  deriving DecidableEq

/-- A row of `journey_approvals`. -/
structure JourneyApproval where
  id : Nat
  stepRunId : Nat
  status : ApprovalStatus := .pending

/-- What the insertion of a step run leaves behind for good. -/
structure StepKey where
  nodeId : NodeId
  visit : Nat
  version : Nat
  /-- Whether the step was executed, and not only recorded as failed. -/
  executed : Bool

/-- The payload of a `journey.exited` event. -/
structure JourneyExited where
  journeyId : String
  enrollmentId : String
  reason : String
  contactId : Option String
  endUserId : Option String
  companyId : Option String
  parentEnrollmentId : Option String
  deriving DecidableEq

/-- The rows of one enrollment. -/
structure EnrollmentFile where
  row : Enrollment
  steps : List StepRun := []
  waits : List JourneyWait := []
  approvals : List JourneyApproval := []
  /-- An id that no row has. -/
  nextId : Nat := 0
  /-- Ghost: every insertion into `journey_step_runs`, also of rows that were deleted since. -/
  inserted : List StepKey := []
  /-- The `journey.exited` events that the enrollment emitted. -/
  exits : List JourneyExited := []
  /-- The enrollments that the run put into other journeys. -/
  children : List String := []

namespace EnrollmentFile

/-- The waits that nothing has resolved. -/
def openWaits (f : EnrollmentFile) : List JourneyWait :=
  f.waits.filter (·.isOpen)

/-- A write to the enrollment's row. -/
def updateRow (f : EnrollmentFile) (g : Enrollment → Enrollment) : EnrollmentFile :=
  { f with row := g f.row }

/-- A write to the step runs that meet a condition. -/
def updateSteps (f : EnrollmentFile) (p : StepRun → Bool) (g : StepRun → StepRun) :
    EnrollmentFile :=
  { f with steps := f.steps.map fun s => if p s then g s else s }

/-- A write to the waits that meet a condition. -/
def updateWaits (f : EnrollmentFile) (p : JourneyWait → Bool) (g : JourneyWait → JourneyWait) :
    EnrollmentFile :=
  { f with waits := f.waits.map fun w => if p w then g w else w }

/-- A write to the approvals that meet a condition. -/
def updateApprovals (f : EnrollmentFile) (p : JourneyApproval → Bool)
    (g : JourneyApproval → JourneyApproval) : EnrollmentFile :=
  { f with approvals := f.approvals.map fun a => if p a then g a else a }

/-- The run of a step with this id. -/
def step (f : EnrollmentFile) (id : Nat) : Option StepRun :=
  f.steps.find? (·.id = id)

/-- The run of this visit to this node. -/
def visitRun (f : EnrollmentFile) (nodeId : NodeId) (visit : Nat) : Option StepRun :=
  f.steps.find? fun s => s.nodeId = nodeId && s.visit = visit

end EnrollmentFile

end Munin
