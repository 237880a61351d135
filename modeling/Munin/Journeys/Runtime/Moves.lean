import Munin.Journeys.Runtime.Waits
import Munin.Journeys.Versions

/-!
# Moving open runs to another version

`moveEnrollments` moves the open runs of a journey from its other versions to a published one. It is
called twice: without a fingerprint it only tells what it would do, and with the fingerprint that it
then told it does that.

* **`MoveInput`, `MoveEnrollmentsResult`, `JourneyRuns`** — the request, the answer, and the runs.
* **`moveVerdict`** — what is decided of one run: where it goes on, or why it stays.
* **`planRuns`** — the loop over the runs, with the groups that the answer shows.
* **`moveEnrollments`** — the call.
-/

namespace Munin

open Foundations

/-! ### The request and the answer -/

/-- What `moveEnrollments` is given; without `fromVersions` runs of every other version move. -/
structure MoveInput where
  journeyId : String
  toVersion : Nat
  nodeMap : Option (List (NodeId × NodeId)) := none
  fromVersions : List Nat := []
  fingerprint : Option String := none

/-- An entry of `byNode`: where the runs of one version at one node go on, and how many there are. -/
structure MoveGroup where
  to' : NodeId
  resumes : Bool
  count : Nat
  deriving DecidableEq

/-- A run that stays, and why. -/
structure SkippedRun where
  enrollmentId : String
  node : NodeId
  reason : String
  deriving DecidableEq

/-- `MoveEnrollmentsResult`. -/
structure MoveEnrollmentsResult where
  toVersion : Nat
  fingerprint : String
  movable : Nat
  byNode : List (String × MoveGroup)
  skipped : List SkippedRun
  moved : Nat := 0
  applied : Bool := false
  deriving DecidableEq

/-- The payload of `journey.enrollments.moved`. -/
structure EnrollmentsMoved where
  journeyId : String
  toVersion : Nat
  moved : Nat
  skipped : Nat

/-- The enrollments of the organisation, and the events told of moves. -/
structure JourneyRuns where
  files : List EnrollmentFile
  emitted : List EnrollmentsMoved := []

/-! ### What is decided of one run -/

/-- The query's conditions: the open runs of the journey that are on another version, of those
asked for if any are. -/
def MoveInput.selects (input : MoveInput) (e : Enrollment) : Bool :=
  e.journeyId = input.journeyId && e.state.isOpen && e.version ≠ input.toVersion &&
    (input.fromVersions.isEmpty || e.version ∈ input.fromVersions)

/-- `toNodes.get(id)`: of the nodes with one id the last. -/
def JourneySpec.lastNode (spec : JourneySpec) (id : NodeId) : Option JourneyNode :=
  spec.nodes.reverse.find? (·.id = id)

/-- How a wait's kind is spelled. -/
def WaitKind.text : WaitKind → String
  | .timer => "timer"
  | .event => "event"
  | .proposal => "proposal"
  | .conversationClose => "conversation_close"
  | .agent => "agent"
  | .approval => "approval"

/-- The open wait that keeps a run from moving to another step. -/
def EnrollmentFile.heldBy (f : EnrollmentFile) : Option JourneyWait :=
  f.openWaits.find? (·.kind ∈ [.proposal, .agent, .approval])

/-- What is decided of a run. -/
inductive MoveVerdict where
  | skip (reason : String)
  | move (to' : NodeId) (resumes : Bool)
  deriving DecidableEq

/-- The reason of a run at a node that the other version lacks. -/
def noMatchingNode : String :=
  "no matching node; map it in nodeMap"

/-- The reason of a run whose node is mapped to one that the other version lacks. -/
def notInVersion (to' : String) (toVersion : Nat) : String :=
  "node " ++ to' ++ " is not in version " ++ toString toVersion

/-- The node to go on at, or why there is none. An object answers for `constructor` with a function,
also if the map does not have it. -/
def moveTarget (toSpec : JourneySpec) (input : MoveInput) (from' : NodeId) :
    Except String (NodeId × JourneyNode) :=
  let inVersion (to' : NodeId) : Except String (NodeId × JourneyNode) :=
    if to' = "" then .error noMatchingNode
    else match toSpec.lastNode to' with
      | some node => .ok (to', node)
      | none => .error (notInVersion to' input.toVersion)
  match input.nodeMap.bind (·.lookup from') with
  | some to' => inVersion to'
  | none =>
    if input.nodeMap.isSome ∧ from' = "constructor" then
      .error (notInVersion "function Object() \x7b [native code] \x7d" input.toVersion)
    else if (toSpec.lastNode from').isSome then inVersion from'
    else .error noMatchingNode

/-- The decision for a run at a node: a run that goes on at another step, or at one of another type,
must not wait for a proposal, an agent or an approval. -/
def moveVerdict (fromSpec toSpec : JourneySpec) (input : MoveInput) (f : EnrollmentFile)
    (from' : NodeId) : MoveVerdict :=
  match moveTarget toSpec input from' with
  | .error reason => .skip reason
  | .ok (to', toNode) =>
    let resumes : Bool := to' = from' ∧ (fromSpec.node from').map (·.type) = some toNode.type
    if !resumes ∧ f.row.state = .waiting then
      match f.heldBy with
      | some held => .skip ("waiting on a " ++ held.kind.text ++ " at " ++ from' ++
          "; it can only stay on the same step")
      | none => .move to' resumes
    else .move to' resumes

/-! ### The plan -/

/-- A run of the plan. -/
structure PlannedRun where
  enrollmentId : String
  plan : EnrollmentFile.PlannedMove

/-- The key of a group. -/
def byNodeKey (version : Nat) (from' : NodeId) : String :=
  "v" ++ toString version ++ ":" ++ from'

/-- The key of the group that a run of the plan is in. -/
def PlannedRun.key (p : PlannedRun) : String :=
  byNodeKey p.plan.version p.plan.currentNode

/-- The groups with one more run. -/
def addToGroup (byNode : List (String × MoveGroup)) (p : PlannedRun) : List (String × MoveGroup) :=
  setField byNode p.key
    ⟨p.plan.to', p.plan.resumes, ((byNode.lookup p.key).map (·.count)).getD 0 + 1⟩

/-- What the loop over the runs collects. -/
structure MoveTally where
  plan : List PlannedRun := []
  byNode : List (String × MoveGroup) := []
  skipped : List SkippedRun := []

/-- The decision for a run is noted. -/
def MoveTally.note (tally : MoveTally) (f : EnrollmentFile) (from' : NodeId) :
    MoveVerdict → MoveTally
  | .skip reason => { tally with skipped := tally.skipped ++ [⟨f.row.id, from', reason⟩] }
  | .move to' resumes =>
    let planned : PlannedRun := ⟨f.row.id, ⟨f.row.version, from', to', resumes⟩⟩
    { tally with
      plan := tally.plan ++ [planned]
      byNode := addToGroup tally.byNode planned }

/-- `spec`: the spec of a version as the schema library reads it. -/
def Journey.spec (j : Journey) (P : Platform) (version : Nat) :
    Except JourneyError JourneySpec := do
  let row ← orThrow (j.versionRow version)
    (.notFound ("journeys_not_found: journey " ++ j.id ++ " has no version " ++ toString version))
  orThrow (P.parseSpec row.spec) (.thrown "ZodError")

/-- The node that a run is at. -/
def EnrollmentFile.at' (f : EnrollmentFile) : Option NodeId :=
  f.row.currentNode.filter (· ≠ "")

/-- The loop over the runs. -/
def planRuns (specOf : Nat → Except JourneyError JourneySpec) (toSpec : JourneySpec)
    (input : MoveInput) : List EnrollmentFile → MoveTally → Except JourneyError MoveTally
  | [], tally => .ok tally
  | f :: fs, tally =>
    match f.at' with
    | none => planRuns specOf toSpec input fs tally
    | some from' => do
      let fromSpec ← specOf f.row.version
      planRuns specOf toSpec input fs
        (tally.note f from' (moveVerdict fromSpec toSpec input f from'))

/-- The fingerprint of a plan. -/
def moveFingerprint (sha256Hex : String → String) (input : MoveInput) (plan : List PlannedRun) :
    String :=
  jsTake 32 (sha256Hex (Json.arr [.str input.journeyId, .num (.ofNat input.toVersion),
    .arr (plan.map fun p => .arr [.str p.enrollmentId, .str p.plan.to'])]).stringify)

/-- The answer to a preview of a plan. -/
def MoveTally.answer (tally : MoveTally) (sha256Hex : String → String) (input : MoveInput) :
    MoveEnrollmentsResult where
  toVersion := input.toVersion
  fingerprint := moveFingerprint sha256Hex input tally.plan
  movable := tally.plan.length
  byNode := tally.byNode
  skipped := tally.skipped

/-! ### The call -/

/-- What the moves have done so far. -/
structure MoveProgress where
  files : List EnrollmentFile
  skipped : List SkippedRun
  moved : Nat := 0

/-- Whether the run is still open, and where the plan found it. -/
def EnrollmentFile.stillAt (f : EnrollmentFile) (plan : EnrollmentFile.PlannedMove) : Bool :=
  f.row.version = plan.version && f.row.currentNode = some plan.currentNode && f.row.state.isOpen

/-- The move of one run of the plan. -/
def MoveProgress.move (toVersion : Nat) (now : Instant) (s : MoveProgress) (p : PlannedRun) :
    MoveProgress :=
  match s.files.find? (·.row.id = p.enrollmentId) with
  | some fresh =>
    if fresh.stillAt p.plan then
      { s with
        files := s.files.map fun f =>
          if f.row.id = p.enrollmentId then f.move p.plan toVersion now else f
        moved := s.moved + 1 }
    else
      { s with
        skipped := s.skipped ++
          [⟨p.enrollmentId, p.plan.currentNode, "it moved on while the runs were being moved"⟩] }
  | none =>
    { s with
      skipped := s.skipped ++
        [⟨p.enrollmentId, p.plan.currentNode, "it moved on while the runs were being moved"⟩] }

/-- `moveEnrollments` up to its writes: the plan, and the answer to a preview. `byId` is the order
of the ids in the database. -/
def previewMoves (P : Platform) (byId : String → String → Bool) (org : Org) (runs : JourneyRuns)
    (input : MoveInput) : Except JourneyError (MoveTally × MoveEnrollmentsResult) := do
  let journey ← org.load input.journeyId
  require ((journey.versionRow input.toVersion).any (·.publishedAt.isSome))
    (.invalid ("journeys_invalid: version " ++ toString input.toVersion ++
      " is not published; runs can only move to a published version"))
  let toSpec ← journey.spec P input.toVersion
  let open' := (runs.files.filter (input.selects ·.row)).mergeSort
    fun f g => byId f.row.id g.row.id
  let tally ← planRuns (journey.spec P) toSpec input open' {}
  pure (tally, tally.answer P.sha256Hex input)

/-- `moveEnrollments`: without a fingerprint a preview, and with one the moves of the plan, if it is
the one that was previewed. -/
def moveEnrollments (P : Platform) (byId : String → String → Bool) (org : Org) (runs : JourneyRuns)
    (input : MoveInput) (now : Instant) :
    Except JourneyError (MoveEnrollmentsResult × JourneyRuns) := do
  let (tally, result) ← previewMoves P byId org runs input
  if !truthy input.fingerprint then pure (result, runs)
  else
    require (input.fingerprint = some result.fingerprint)
      (.conflict ("journeys_conflict: the runs to move changed since the preview; " ++
        "preview again and confirm the new fingerprint"))
    let progress := tally.plan.foldl (MoveProgress.move input.toVersion now)
      { files := runs.files, skipped := tally.skipped }
    pure ({ result with
        skipped := progress.skipped, moved := progress.moved, applied := true },
      { files := progress.files
        emitted := runs.emitted ++ [{
          journeyId := input.journeyId, toVersion := input.toVersion
          moved := progress.moved, skipped := progress.skipped.length }] })

end Munin
