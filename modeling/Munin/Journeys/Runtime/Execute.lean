import Munin.Journeys.Runtime.Records
import Munin.Outreach.Proposal

/-!
# The execution of a step

`execute` carries out one visit to a node and says how the run goes on: it advances along an edge,
waits, ends, or tries again. What it learns from outside the enrollment's file (the clock, the
contact, the proposals, the agents' jobs, the other journey) is a `StepEnv`.

* **`Outcome`, `WaitSpec`** — how a run goes on, and what it waits for.
* **`executeWait`, `executeMessage`, …** — one definition for each kind of node.
* **`edgeTarget`** — where a label leads that was stored with a completed step.
* **`Kept`** — what an execution leaves as it is: everything but the goal, the thread, the proposals
  of the steps and the approvals.
-/

namespace Munin

open Foundations

/-! ### Buckets and delays -/

/-- `ch.charCodeAt(0)`: the first UTF-16 unit of a character. -/
def firstUnit (c : Char) : UInt32 :=
  if c.val < 0x10000 then c.val else 0xd800 + (c.val - 0x10000) / 0x400

/-- `stableBucket`: the FNV hash of the parts, modulo 100. -/
def stableBucket (parts : List String) : Nat :=
  ((String.intercalate "|" parts).toList.foldl
    (fun hash c => (hash ^^^ firstUnit c) * 16777619) (2166136261 : UInt32)).toNat % 100

theorem stableBucket_lt (parts : List String) : stableBucket parts < 100 :=
  Nat.mod_lt _ (by decide)

/-- `RETRY_DELAYS_MS`. -/
def RETRY_DELAYS_MS : List Int :=
  [60000, 5 * 60000, 15 * 60000, 60 * 60000, 3 * 60 * 60000, 6 * 60 * 60000, 12 * 60 * 60000] ++
    List.replicate 5 (24 * 60 * 60000)

def MAX_ACTION_ATTEMPTS : Nat := RETRY_DELAYS_MS.length

/-- `retryDelayMs`. -/
def retryDelayMs (attempt : Nat) : Option Int :=
  if attempt = 0 then none else RETRY_DELAYS_MS[attempt - 1]?

def APPROVAL_TIMEOUT_MS : Int := 7 * 86400000
def MAX_SUB_JOURNEY_DEPTH : Nat := 3
def DEFAULT_AGENT_STEPS_PER_DAY : Nat := 1000

/-! ### Outcomes -/

/-- `WaitSpec`. -/
structure WaitSpec where
  kind : WaitKind
  wakeAt : Option Instant := none
  eventKey : Option String := none
  /-- `match`. -/
  payload : Record := []
  timeoutAt : Option Instant := none

/-- `Outcome`. -/
inductive Outcome where
  | advance (edge : String) (to' : Option NodeId) (output : Option Record) (reason : Option String)
  | wait (wait : WaitSpec) (output : Option Record) (reason : Option String)
  | exit (reason : String) (output : Option Record)
  | retry (at' : Instant) (reason : String)

/-- The outcome that most steps end with: on to the next node. -/
def Outcome.next (to' : Option NodeId) (reason : Option String := none)
    (output : Option Record := none) : Outcome :=
  .advance "next" to' output reason

/-! ### The outside -/

/-- Why an action failed. -/
structure ActionFailure where
  message : String
  /-- `isPermanentError`. -/
  permanent : Bool

/-- What `propose` returns. -/
structure ProposeResult where
  id : String
  status : ProposalStatus
  conversationId : Option String := none
  failureReason : Option String := none
  scheduledSendAt : Option Instant := none

/-- What `companyMessageOutcome` reads of a proposal of the step's run. -/
structure RunProposal where
  id : String
  contactId : String
  status : ProposalStatus
  scheduledSendAt : Option Instant := none

/-- `EnrollResult`. -/
inductive EnrollResult where
  | enrolled (enrollmentId : String)
  | skipped (reason : String) (enrollmentId : Option String)

/-- What is read of the enrollment of another journey. -/
structure ChildEnrollment where
  goalReached : Bool
  exitReason : Option String

/-- What the rest of the system answers while one node is run. -/
structure StepEnv where
  /-- The clock of the tick. -/
  now : Instant
  /-- The clock that stamps the rows written. -/
  clock : Instant
  journeyLive : Bool := true
  pausedNodes : List NodeId := []
  /-- The message of an error that the runtime does not handle itself. -/
  failure : Option String := none
  holds : JourneyCondition → Bool := fun _ => false
  splitArrivals : Nat := 0
  /-- The search of `nextValidTime`, in the time zone of the contact. -/
  nextFitting : Instant → Option (List Weekday) → Option String → Instant := fun t _ _ => t
  dateField : String → Option Instant := fun _ => none
  action : Except ActionFailure Record := .ok []
  companyRecipients : List String := []
  propose : String → ProposeResult := fun id => { id, status := .pending }
  runProposals : List RunProposal := []
  proposalConversation : String → Option String := fun _ => none
  proposalMessage : String → Option String := fun _ => none
  /-- The count of the day, with this step. -/
  agentStepsUsed : Nat := 1
  curatorJobId : String := ""
  enroll : EnrollResult := .skipped "journey_not_live" none
  child : Option ChildEnrollment := none

/-- `nextValidTime`. -/
def nextValidTime (env : StepEnv) (from' : Instant) (validDays : Option (List Weekday))
    (validHours : Option String) : Instant :=
  if validDays.isNone && !truthy validHours then from'
  else env.nextFitting from' validDays validHours

/-- `StepContext`, with the run as `stepOutput` reads it. -/
structure StepContext where
  run : StepRun
  enrollment : Enrollment
  spec : JourneySpec
  attempt : Nat := 1
  resumed : Option JourneyWait := none

/-! ### JSON values -/

/-- A text or `null`. -/
def textOrNull (s : Option String) : Json :=
  s.elim .null .str

/-- `{ ...r, [key]: value }`, where an undefined value adds nothing. -/
def Record.withField (r : Record) (key : String) (value : Option Json) : Record :=
  value.elim r fun x => setField r key x

/-- `typeof r[key] === 'number' ? r[key] : 0`, for the counts that the runtime writes. -/
def Record.count (r : Record) (key : String) : Nat :=
  match r.lookup key with
  | some (.num n) => (readDigits 0 n.chars).1
  | _ => 0

/-- `AGENT_INPUTS` as a JSON array. -/
def inputsJson (inputs : List AgentInput) : Json :=
  .arr (inputs.map fun i => .str i.text)

/-! ### Waits, branches, splits -/

/-- The time that a wait node names, where it names one. -/
def wakeTime (env : StepEnv) (node : WaitNode) : Except String Instant :=
  if truthy node.duration then
    .ok (env.now + ((node.duration.bind parseIsoDurationMs).getD 0))
  else match node.until', node.untilField with
    | some time, _ => .ok time
    | none, some field =>
      match env.dateField field.field with
      | none => .error (field.field ++ " is empty")
      | some base =>
        let offset := field.offset.getD "P0D"
        if jsStartsWith offset "-" then
          .ok (base - (parseIsoDurationMs (.ofList (offset.toList.drop 1))).getD 0)
        else .ok (base + (parseIsoDurationMs offset).getD 0)
    | none, none => .ok env.now

/-- `executeWait`. -/
def executeWait (env : StepEnv) (step : StepContext) (node : WaitNode) : Outcome :=
  if step.resumed.isSome then .next node.next
  else match wakeTime env node with
    | .error reason => .next node.next reason
    | .ok time =>
      let wakeAt := nextValidTime env time node.validDays node.validHours
      if wakeAt ≤ env.now then .next node.next
      else .wait { kind := .timer, wakeAt } none ("until " ++ wakeAt.toISOString)

/-- The case `wait_for`. -/
def executeWaitFor (env : StepEnv) (step : StepContext) (node : WaitForNode) : Outcome :=
  match step.resumed with
  | some wait =>
    if wait.resolution = some "event" then .next node.next
    else if truthy node.onTimeout then .advance "on_timeout" node.onTimeout none none
    else .exit "wait_timeout" none
  | none =>
    .wait
      { kind := .event, eventKey := node.event, payload := node.payload.getD [],
        timeoutAt := env.now + (parseIsoDurationMs node.timeout).getD 0 }
      none ("waiting for " ++ node.event)

/-- The case `branch`. -/
def executeBranch (env : StepEnv) (node : BranchNode) : Outcome :=
  match node.rules.zipIdx.find? fun r => env.holds r.1.condition with
  | some (rule, index) =>
    .advance (ruleLabel index) rule.next none ("rule " ++ toString (index + 1) ++ " matched")
  | none => .advance "default" node.default none "no rule matched"

/-- `node.paths.find((p) => p.name === name)`. -/
def SplitNode.path (node : SplitNode) (name : String) : Option SplitPath :=
  node.paths.find? (·.name = name)

/-- The bucket of an enrollment at a split. -/
def splitBucket (enrollment : Enrollment) (node : SplitNode) : Nat :=
  stableBucket [enrollment.subjectKey, enrollment.journeyId, node.id]

/-- The control path of a split whose sample is full. -/
def SplitNode.sampleFull (node : SplitNode) (arrivals : Nat) : Option SplitPath :=
  match node.control.filter (· ≠ "") |>.bind node.path, node.sampleSize with
  | some control, some size => if size ≠ 0 ∧ size ≤ arrivals then some control else none
  | _, _ => none

/-- The loop over the paths: the first whose cumulative percentage is above the bucket, else the
last. -/
def pathOfBucket (bucket : Nat) : Nat → List SplitPath → Option SplitPath
  | _, [] => none
  | cumulative, p :: ps =>
    if bucket < cumulative + p.percent then some p
    else match pathOfBucket bucket (cumulative + p.percent) ps with
      | some q => some q
      | none => some p

/-- The case `split`. The schema admits no split without paths; the last path of one is
`undefined`. -/
def executeSplit (env : StepEnv) (step : StepContext) (node : SplitNode) :
    Except String Outcome :=
  let bucket := splitBucket step.enrollment node
  let output : Record := [("bucket", .num (.ofNat bucket))]
  match node.sampleFull env.splitArrivals with
  | some control =>
    .ok (.advance control.name control.next (setField output "sampleFull" (.bool true)) none)
  | none =>
    match pathOfBucket bucket 0 node.paths with
    | some path => .ok (.advance path.name path.next output none)
    | none => .error "Cannot read properties of undefined (reading 'name')"

/-! ### Actions -/

/-- `executeAction`. -/
def executeAction (env : StepEnv) (step : StepContext) (node : ActionNode) : Outcome :=
  match env.action with
  | .ok output => .next node.next none output
  | .error failure =>
    if !failure.permanent && node.retry = .default && step.attempt < MAX_ACTION_ATTEMPTS then
      .retry (env.now + (retryDelayMs step.attempt).getD 86400000) failure.message
    else if node.onFail = .exit then
      .exit "action_failed" (some [("error", .str failure.message)])
    else
      .next node.next ("failed: " ++ failure.message) (some [("error", .str failure.message)])

/-! ### Agents -/

/-- `requestAgent`. -/
def requestAgent (env : StepEnv) (step : StepContext) (timeout : String) (output : Record)
    (reason : String) : Outcome :=
  if env.agentStepsUsed ≤ step.spec.settings.agentStepsPerDay.getD DEFAULT_AGENT_STEPS_PER_DAY then
    .wait { kind := .agent, timeoutAt := env.now + (parseIsoDurationMs timeout).getD 600000 }
      (setField output "curatorJobId" (.str env.curatorJobId)) reason
  else
    .wait { kind := .agent, timeoutAt := env.now }
      (setField output "agentBudgetReached" (.bool true))
      "the journey reached its daily limit of agent steps; taking the fallback"

/-- The edge that an agent decided on, if it is one of the node's. -/
def decidedEdge (edges : List (String × NodeId)) (previous : Record) (wait : JourneyWait) :
    Option String :=
  if wait.resolution = some "agent_decided" then
    (((previous.object "decision").getD []).text "edge").filter fun edge =>
      edge ≠ "" && (edges.lookup edge).isSome
  else none

/-- `executeAgent`. -/
def executeAgent (env : StepEnv) (step : StepContext) (node : AgentNode) : Outcome :=
  let previous := step.run.output
  let inputs : Record := [("inputs", inputsJson node.inputs)]
  match node.mode, step.resumed with
  | .enrich, some wait =>
    .next node.next
      (if wait.resolution = some "agent_enriched" then "fields filled" else "no fields in time")
      previous
  | .enrich, none =>
    requestAgent env step node.timeout inputs "waiting for the agent to fill fields"
  | .decide, some wait =>
    let edges := node.edges.getD []
    let fallback := node.fallback.getD ((edges.map (·.1)).headD "")
    match decidedEdge edges previous wait with
    | some edge =>
      let reason := ((previous.object "decision").getD []).text "reason"
      .advance edge (edges.lookup edge) previous (reason.getD "agent decided")
    | none =>
      .advance fallback (edges.lookup fallback)
        (setField previous "decision" (.obj [("edge", .str fallback), ("fallback", .bool true),
          ("reason", .str "no decision in time")]))
        "fallback: no decision in time"
  | .decide, none => requestAgent env step node.timeout inputs "waiting for the agent to decide"

/-! ### Messages -/

/-- A write to one step run. -/
def EnrollmentFile.proposed (f : EnrollmentFile) (id : Nat) (proposalId : Option String) :
    EnrollmentFile :=
  f.updateSteps (·.id = id) fun s => { s with proposalId }

/-- `rememberThread`. -/
def EnrollmentFile.rememberThread (f : EnrollmentFile) (conversationId : Option String) :
    EnrollmentFile :=
  if truthy conversationId && f.row.conversationId.isNone then
    f.updateRow fun e => { e with conversationId }
  else f

/-- `awaitChatSeen`. -/
def awaitChatSeen (env : StepEnv) (node : MessageNode) (previous : Record)
    (proposalId : Option Json) : Outcome :=
  let messageId := match proposalId with
    | some (.str id) => (env.proposalMessage id).filter (· ≠ "")
    | _ => none
  match messageId with
  | none => .next node.next "sent" (previous.withField "proposalId" proposalId)
  | some id =>
    .wait
      { kind := .event, eventKey := "conversation.message.read",
        payload := [("messageId", .str id)],
        timeoutAt := env.now + (parseIsoDurationMs (node.seenTimeout.getD "P3D")).getD 259200000 }
      (((previous.withField "proposalId" proposalId).withField "messageId"
        (some (.str id))).withField "awaitingSeen" (some (.bool true)))
      "waiting for the chat message to be seen"

/-- The outcome of a call that the event of a wait reports. -/
def reportedOutcome (step : StepContext) (wait : JourneyWait) : String :=
  if wait.resolution ≠ some "event" then "timeout"
  else
    let event := (step.enrollment.context.object "lastEvent").getD []
    ((event.object "payload").getD []).text "outcome" |>.getD ""

/-- Where a call's outcome leads, if the node says so. -/
def MessageNode.outcomeEdge (node : MessageNode) (outcome : String) : Option NodeId :=
  (CallOutcome.all.find? (·.text = outcome)).bind (node.onOutcome.getD {}).get

/-- The part of `executeMessage` that a resolved wait of a sent message takes. -/
def resumeMessage (env : StepEnv) (step : StepContext) (node : MessageNode) (previous : Record)
    (wait : JourneyWait) : Outcome :=
  if node.channel = .chat && jsTruthy (previous.lookup "awaitingSeen") then
    let seen := wait.resolution = some "event"
    let unseenTo := if seen then none else node.onUnseen
    .advance (if truthy unseenTo then "on_unseen" else "next") (unseenTo.orElse fun _ => node.next)
      (setField previous "seen" (.bool seen))
      (if seen then "chat message seen" else "chat message not seen in time")
  else if node.channel = .voice && jsTruthy (previous.lookup "awaitingOutcome") then
    let outcome := reportedOutcome step wait
    let mapped := node.outcomeEdge outcome
    .advance (if truthy mapped then "outcome_" ++ outcome else "next")
      (mapped.orElse fun _ => node.next) (setField previous "outcome" (.str outcome))
      (if outcome = "timeout" then "no call outcome in time" else "call outcome: " ++ outcome)
  else match wait.resolution with
    | some "proposal_sent" =>
      match node.channel with
      | .voice =>
        let conversation := (previous.text "proposalId").bind env.proposalConversation
        .wait
          { kind := .event, eventKey := "outreach.outcome.recorded",
            payload := [("contactId", .str (step.enrollment.contactId.getD "")),
              ("conversationId", .str (conversation.getD ""))],
            timeoutAt :=
              env.now + (parseIsoDurationMs (node.outcomeTimeout.getD "PT6H")).getD 21600000 }
          (setField previous "awaitingOutcome" (.bool true)) "waiting for the call outcome"
      | .chat => awaitChatSeen env node previous (previous.lookup "proposalId")
      | .email | .sms => .next node.next "proposal_sent"
    | some "proposal_withdrawn" => .next node.next "proposal_withdrawn"
    | some "proposal_dismissed" => .exit "proposal_dismissed" none
    | some "proposal_failed" => .exit "message_failed" none
    | _ => .exit "approval_timeout" none

/-- The part of `executeMessage` that sends. -/
def sendMessage (env : StepEnv) (step : StepContext) (node : MessageNode) (previous : Record)
    (f : EnrollmentFile) : EnrollmentFile × Outcome :=
  if node.approval = .off then (f, .next node.next "approval off")
  else match step.enrollment.contactId.filter (· ≠ "") with
    | none => (f, .exit "no_contact" none)
    | some contactId =>
      let proposal := env.propose contactId
      let f := f.proposed step.run.id proposal.id
      let output := setField previous "proposalId" (.str proposal.id)
      match proposal.status with
      | .sent =>
        if node.channel = .chat then
          (f, awaitChatSeen env node previous (some (.str proposal.id)))
        else
          (if node.channel = .email then f.rememberThread proposal.conversationId else f,
            .next node.next "sent" output)
      | .failed =>
        (f, .exit "message_blocked" (setField output "error" (textOrNull proposal.failureReason)))
      | status =>
        let base := proposal.scheduledSendAt.getD env.now
        (f, .wait
          { kind := .proposal, payload := [("proposalId", .str proposal.id)],
            timeoutAt := base + APPROVAL_TIMEOUT_MS }
          (setField output "status" (.str status.text))
          (if status = .approved then "scheduled" else "awaiting review"))

/-- `companyMessageOutcome`. -/
def companyMessageOutcome (env : StepEnv) (step : StepContext) (node : MessageNode)
    (resolution : Option String) : Outcome :=
  let rows := env.runProposals
  let output : Record := [("proposals", .arr (rows.map fun r =>
    .obj [("id", .str r.id), ("contactId", .str r.contactId), ("status", .str r.status.text)]))]
  let open' := rows.filter fun r => r.status = .pending || r.status = .approved
  let sent := rows.countP fun r => r.status = .sent
  if !open'.isEmpty && resolution ≠ some "timeout" then
    let latest := (open'.map fun r => r.scheduledSendAt.getD 0).foldl max env.now
    .wait
      { kind := .proposal, payload := [("stepRunId", .str (toString step.run.id))],
        timeoutAt := latest + APPROVAL_TIMEOUT_MS }
      output (toString open'.length ++ " of " ++ toString rows.length ++
        " messages awaiting review or sending")
  else if 0 < sent || rows.any (·.status = .withdrawn) then
    .next node.next ("sent to " ++ toString sent ++ " of " ++ toString rows.length) output
  else if !open'.isEmpty then .exit "approval_timeout" output
  else if !rows.isEmpty && rows.all (·.status = .failed) then .exit "message_blocked" output
  else .exit "proposal_dismissed" output

/-- `executeCompanyMessage`. -/
def executeCompanyMessage (env : StepEnv) (step : StepContext) (node : MessageNode)
    (f : EnrollmentFile) : EnrollmentFile × Outcome :=
  match step.resumed with
  | some wait => (f, companyMessageOutcome env step node wait.resolution)
  | none =>
    if node.approval = .off then (f, .next node.next "approval off")
    else match env.companyRecipients with
      | [] => (f, .exit "no_recipients" none)
      | contactId :: _ =>
        (f.proposed step.run.id (env.propose contactId).id,
          companyMessageOutcome env step node none)

/-- `executeMessage`. -/
def executeMessage (env : StepEnv) (step : StepContext) (node : MessageNode)
    (f : EnrollmentFile) : EnrollmentFile × Outcome :=
  let previous := step.run.output
  if truthy step.enrollment.companyId && !truthy step.enrollment.contactId then
    executeCompanyMessage env step node f
  else if node.draftBy = some .agent && !jsTruthy (previous.lookup "proposalId") then
    match step.resumed with
    | none =>
      if node.approval = .off then (f, .next node.next "approval off")
      else (f, requestAgent env step node.draftTimeout
        [("draftRequested", .bool true),
          ("inputs", inputsJson (node.draftInputs.getD [.contact, .events]))]
        "waiting for the agent to draft")
    -- The draft only changes the text that is proposed.
    | some _ => sendMessage env step node previous f
  else match step.resumed with
    | some wait => (f, resumeMessage env step node previous wait)
    | none => sendMessage env step node previous f

/-! ### Approvals, goals and other journeys -/

/-- `executeApproval`; one approval a run, which a conflict leaves as it is. -/
def executeApproval (env : StepEnv) (step : StepContext) (node : ApprovalNode)
    (f : EnrollmentFile) : EnrollmentFile × Outcome :=
  match step.resumed with
  | some wait =>
    if wait.resolution = some "approved" then (f, .next node.next "approved")
    else if wait.resolution = some "rejected" then
      (f, if truthy node.onReject then .advance "on_reject" node.onReject none "rejected"
        else .exit "approval_rejected" none)
    else
      (f.updateApprovals (fun a => a.stepRunId = step.run.id && a.status = .pending)
          fun a => { a with status := .expired },
        if truthy node.onTimeout then .advance "on_timeout" node.onTimeout none "approval timed out"
        else .exit "approval_timeout" none)
  | none =>
    let expiresAt := env.now + (parseIsoDurationMs node.timeout).getD (3 * 86400000)
    let existing := f.approvals.find? (·.stepRunId = step.run.id)
    let approvalId := (existing.map (·.id)).getD f.nextId
    let f := if existing.isSome then f else
      { f with
        approvals := f.approvals ++ [{ id := f.nextId, stepRunId := step.run.id }]
        nextId := f.nextId + 1 }
    let output : Record := [("approvalId", .str (toString approvalId))]
    (f, .wait { kind := .approval, payload := output, timeoutAt := expiresAt } output
      "waiting for a person to approve")

/-- `markGoal`. -/
def EnrollmentFile.markGoal (f : EnrollmentFile) (at' : Instant) : EnrollmentFile :=
  if f.row.goalReachedAt.isNone then f.updateRow fun e => { e with goalReachedAt := at' } else f

/-- `executeSubJourney`. -/
def executeSubJourney (env : StepEnv) (step : StepContext) (node : SubJourneyNode)
    (f : EnrollmentFile) : EnrollmentFile × Outcome :=
  let previous := step.run.output
  match step.resumed with
  | some wait =>
    (f, if wait.resolution = some "event" && truthy (previous.text "childEnrollmentId") then
        if env.child.any (·.goalReached) && truthy node.onGoal then
          .advance "on_goal" node.onGoal previous "the other journey reached its goal"
        else
          .next node.next ("the other journey ended: " ++
            (env.child.bind (·.exitReason)).getD "unknown") previous
      else .next node.next "the other journey did not end in time" previous)
  | none =>
    if MAX_SUB_JOURNEY_DEPTH < step.enrollment.context.count "journeyDepth" + 1 then
      (f, .next node.next
        ("journeys nest at most " ++ toString MAX_SUB_JOURNEY_DEPTH ++ " deep"))
    else if node.journeyId = step.enrollment.journeyId then
      (f, .next node.next "a journey cannot enter itself")
    else
      let output (childId : Option String) (status : String) : Record :=
        [("childJourneyId", .str node.journeyId), ("childEnrollmentId", textOrNull childId),
          ("childStatus", .str status)]
      match env.enroll with
      | .skipped reason childId =>
        (f, .next node.next ("did not enter the other journey: " ++ reason)
          (output childId "skipped"))
      | .enrolled childId =>
        ({ f with children := f.children ++ [childId] },
          if !node.await then
            .next node.next "entered the other journey" (output childId "enrolled")
          else .wait
            { kind := .event, eventKey := "journey.exited",
              payload := [("enrollmentId", .str childId)],
              timeoutAt := env.now + (parseIsoDurationMs node.timeout).getD (30 * 86400000) }
            (output childId "enrolled") "waiting for the other journey to end")

/-- `execute`: the file with what the step wrote, and how the run goes on. -/
def execute (env : StepEnv) (step : StepContext) (node : JourneyNode) (f : EnrollmentFile) :
    Except String (EnrollmentFile × Outcome) :=
  match node with
  | .wait n => .ok (f, executeWait env step n)
  | .waitFor n => .ok (f, executeWaitFor env step n)
  | .branch n => .ok (f, executeBranch env n)
  | .split n => (executeSplit env step n).map fun outcome => (f, outcome)
  | .goal n =>
    .ok (f.markGoal env.clock, if n.exitOnReach then .exit "goal_reached" none else .next n.next)
  | .jump n => .ok (f, .advance "jump" n.to' none none)
  | .exit n => .ok (f, .exit n.reason none)
  | .action n => .ok (f, executeAction env step n)
  | .message n => .ok (executeMessage env step n f)
  | .agent n => .ok (f, executeAgent env step n)
  | .approval n => .ok (executeApproval env step n f)
  | .subJourney n => .ok (executeSubJourney env step n f)

/-! ### Stored edges -/

/-- `Number(edge.replace('rule_', ''))`, for the labels that `execute` writes. -/
def ruleNumber (edge : String) : Option Nat :=
  match readDigits 0 (if jsStartsWith edge "rule_" then edge.toList.drop 5 else edge.toList) with
  | (n, []) => some n
  | (_, _ :: _) => none

/-- `edgeTarget`. -/
def edgeTarget (node : JourneyNode) (edge : String) : Option NodeId :=
  match node with
  | .message n =>
    if jsStartsWith edge "outcome_" then
      (n.outcomeEdge (.ofList (edge.toList.drop 8))).orElse fun _ => n.next
    else if edge = "on_unseen" then n.onUnseen.orElse fun _ => n.next
    else if edge = "on_reply" then n.onReply else n.next
  | .waitFor n => if edge = "on_timeout" then n.onTimeout else n.next
  | .branch n =>
    if edge = "default" then some n.default
    else match ruleNumber edge with
      | some (i + 1) => n.rules[i]?.map (·.next)
      | _ => none
  | .split n => (n.path edge).map (·.next)
  | .jump n => some n.to'
  | .approval n =>
    if edge = "on_reject" then n.onReject
    else if edge = "on_timeout" then n.onTimeout
    else n.next
  | .subJourney n => if edge = "on_goal" then n.onGoal else n.next
  | .action n => n.next
  | .wait n => n.next
  | .goal n => n.next
  | .exit _ | .agent _ => none

/-! ### What an execution keeps -/

/-- What an execution leaves as it is: of the row all but the goal and the thread, of the step runs
all but their proposals, and the waits and the insertions. -/
structure Kept (f g : EnrollmentFile) : Prop where
  row : ∃ thread goal, g.row = { f.row with conversationId := thread, goalReachedAt := goal }
  steps : ∃ proposal : StepRun → Option String,
    g.steps = f.steps.map fun s => { s with proposalId := proposal s }
  waits : g.waits = f.waits
  inserted : g.inserted = f.inserted
  exits : g.exits = f.exits

theorem Kept.refl (f : EnrollmentFile) : Kept f f where
  row := ⟨f.row.conversationId, f.row.goalReachedAt, rfl⟩
  steps := ⟨(·.proposalId), by simp⟩
  waits := rfl
  inserted := rfl
  exits := rfl

variable {f g : EnrollmentFile} {step : StepContext} {node : JourneyNode}

theorem Kept.trans {h : EnrollmentFile} (hfg : Kept f g) (hgh : Kept g h) : Kept f h where
  row := by
    obtain ⟨_, _, hg⟩ := hfg.row
    obtain ⟨thread, goal, hh⟩ := hgh.row
    exact ⟨thread, goal, by rw [hh, hg]⟩
  steps := by
    obtain ⟨p, hg⟩ := hfg.steps
    obtain ⟨q, hh⟩ := hgh.steps
    exact ⟨fun s => q { s with proposalId := p s }, by rw [hh, hg, List.map_map]; rfl⟩
  waits := hgh.waits.trans hfg.waits
  inserted := hgh.inserted.trans hfg.inserted
  exits := hgh.exits.trans hfg.exits

theorem kept_proposed (f : EnrollmentFile) (id : Nat) (proposalId : Option String) :
    Kept f (f.proposed id proposalId) where
  row := ⟨f.row.conversationId, f.row.goalReachedAt, rfl⟩
  steps := by
    refine ⟨fun s => if s.id = id then proposalId else s.proposalId, ?_⟩
    refine List.map_congr_left fun s _ => ?_
    by_cases hid : s.id = id <;> simp [hid]
  waits := rfl
  inserted := rfl
  exits := rfl

theorem kept_rememberThread (f : EnrollmentFile) (conversationId : Option String) :
    Kept f (f.rememberThread conversationId) := by
  unfold EnrollmentFile.rememberThread
  split
  · exact { Kept.refl f with row := ⟨conversationId, f.row.goalReachedAt, rfl⟩ }
  · exact .refl f

theorem kept_markGoal (f : EnrollmentFile) (at' : Instant) : Kept f (f.markGoal at') := by
  unfold EnrollmentFile.markGoal
  split
  · exact { Kept.refl f with row := ⟨f.row.conversationId, some at', rfl⟩ }
  · exact .refl f

theorem kept_sendMessage (env : StepEnv) (step : StepContext) (node : MessageNode)
    (previous : Record) (f : EnrollmentFile) :
    Kept f (sendMessage env step node previous f).1 := by
  unfold sendMessage
  split
  · exact .refl f
  · split
    · exact .refl f
    · rename_i contactId _
      have hproposed := kept_proposed f step.run.id (env.propose contactId).id
      dsimp only
      split
      · split
        · exact hproposed
        · split
          · exact hproposed.trans (kept_rememberThread _ _)
          · exact hproposed
      · exact hproposed
      · exact hproposed

theorem kept_executeMessage (env : StepEnv) (step : StepContext) (node : MessageNode)
    (f : EnrollmentFile) : Kept f (executeMessage env step node f).1 := by
  unfold executeMessage
  dsimp only
  split
  · unfold executeCompanyMessage
    split
    · exact .refl f
    · split
      · exact .refl f
      · split
        · exact .refl f
        · exact kept_proposed f _ _
  · split
    · split
      · split <;> exact .refl f
      · exact kept_sendMessage env step node _ f
    · split
      · exact .refl f
      · exact kept_sendMessage env step node _ f

theorem kept_executeApproval (env : StepEnv) (step : StepContext) (node : ApprovalNode)
    (f : EnrollmentFile) : Kept f (executeApproval env step node f).1 := by
  unfold executeApproval
  split
  · split
    · exact .refl f
    · split
      · exact .refl f
      · exact { Kept.refl f with }
  · dsimp only
    split
    · exact .refl f
    · exact { Kept.refl f with }

theorem kept_executeSubJourney (env : StepEnv) (step : StepContext) (node : SubJourneyNode)
    (f : EnrollmentFile) : Kept f (executeSubJourney env step node f).1 := by
  unfold executeSubJourney
  dsimp only
  split
  · exact .refl f
  · split
    · exact .refl f
    · split
      · exact .refl f
      · split
        · exact .refl f
        · exact { Kept.refl f with }

/-- **An execution writes nothing of the run's course.** -/
theorem kept_execute {env : StepEnv} {outcome : Outcome}
    (h : execute env step node f = .ok (g, outcome)) : Kept f g := by
  cases node with
  | split n =>
    simp only [execute] at h
    cases hs : executeSplit env step n with
    | error e => simp [hs, Except.map] at h
    | ok o =>
      rw [hs] at h
      cases h
      exact .refl f
  | goal n =>
    cases h
    exact kept_markGoal f _
  | message n =>
    have hg : (executeMessage env step n f).1 = g := congrArg Prod.fst (Except.ok.inj h)
    exact hg ▸ kept_executeMessage env step n f
  | approval n =>
    have hg : (executeApproval env step n f).1 = g := congrArg Prod.fst (Except.ok.inj h)
    exact hg ▸ kept_executeApproval env step n f
  | subJourney n =>
    have hg : (executeSubJourney env step n f).1 = g := congrArg Prod.fst (Except.ok.inj h)
    exact hg ▸ kept_executeSubJourney env step n f
  | _ =>
    cases h
    exact .refl f

/-- What kind of wait an outcome opens. -/
def Outcome.waitKind : Outcome → Option WaitKind
  | .wait w _ _ => some w.kind
  | .advance .. | .exit .. | .retry .. => none

@[simp]
theorem waitKind_wait (w : WaitSpec) (output : Option Record) (reason : Option String) :
    (Outcome.wait w output reason).waitKind = some w.kind := rfl

@[simp]
theorem waitKind_advance (edge : String) (to' : Option NodeId) (output : Option Record)
    (reason : Option String) : (Outcome.advance edge to' output reason).waitKind = none := rfl

@[simp]
theorem waitKind_exit (reason : String) (output : Option Record) :
    (Outcome.exit reason output).waitKind = none := rfl

@[simp]
theorem waitKind_retry (at' : Instant) (reason : String) :
    (Outcome.retry at' reason).waitKind = none := rfl

@[simp]
theorem waitKind_next (to' : Option NodeId) (reason : Option String) (output : Option Record) :
    (Outcome.next to' reason output).waitKind = none := rfl

@[simp]
theorem waitKind_requestAgent (env : StepEnv) (step : StepContext) (timeout : String)
    (output : Record) (reason : String) :
    (requestAgent env step timeout output reason).waitKind = some .agent := by
  unfold requestAgent
  split <;> rfl

theorem waitKind_executeMessage (env : StepEnv) (step : StepContext) (node : MessageNode)
    (f : EnrollmentFile) :
    (executeMessage env step node f).2.waitKind ≠ some .conversationClose := by
  have hseen : ∀ previous proposalId,
      (awaitChatSeen env node previous proposalId).waitKind ≠ some .conversationClose := by
    intro previous proposalId
    unfold awaitChatSeen
    dsimp only
    split <;> simp
  have hsend : ∀ previous,
      (sendMessage env step node previous f).2.waitKind ≠ some .conversationClose := by
    intro previous
    unfold sendMessage
    split
    · simp
    · split
      · simp
      · dsimp only
        split
        · split
          · exact hseen previous (some (.str _))
          · simp
        · simp
        · simp
  have hresume : ∀ previous wait,
      (resumeMessage env step node previous wait).waitKind ≠ some .conversationClose := by
    intro previous wait
    unfold resumeMessage
    repeat' split
    all_goals first | exact hseen _ _ | simp
  have hcompany : ∀ resolution,
      (companyMessageOutcome env step node resolution).waitKind ≠ some .conversationClose := by
    intro resolution
    unfold companyMessageOutcome
    dsimp only
    repeat' split
    all_goals simp
  unfold executeMessage executeCompanyMessage
  dsimp only
  repeat' split
  all_goals first
    | exact hcompany _
    | exact hsend _
    | exact hresume _ _
    | simp

/-- **No step waits for a conversation to be closed**; only replies do. -/
theorem waitKind_execute {env : StepEnv} {outcome : Outcome}
    (h : execute env step node f = .ok (g, outcome)) :
    outcome.waitKind ≠ some .conversationClose := by
  cases node with
  | message n =>
    have ho : (executeMessage env step n f).2 = outcome := congrArg Prod.snd (Except.ok.inj h)
    exact ho ▸ waitKind_executeMessage env step n f
  | split n =>
    simp only [execute] at h
    cases hs : executeSplit env step n with
    | error e => simp [hs, Except.map] at h
    | ok o =>
      rw [hs] at h
      cases h
      unfold executeSplit at hs
      dsimp only at hs
      repeat' split at hs
      all_goals cases hs
      all_goals simp
  | approval n =>
    have ho : (executeApproval env step n f).2 = outcome := congrArg Prod.snd (Except.ok.inj h)
    subst ho
    unfold executeApproval
    repeat' split
    all_goals simp
  | agent n =>
    cases h
    unfold executeAgent
    dsimp only
    repeat' split
    all_goals simp
  | wait n =>
    cases h
    unfold executeWait
    dsimp only
    repeat' split
    all_goals simp
  | waitFor n =>
    cases h
    unfold executeWaitFor
    repeat' split
    all_goals simp
  | branch n =>
    cases h
    unfold executeBranch
    split <;> simp
  | goal n =>
    cases h
    split <;> simp
  | action n =>
    cases h
    unfold executeAction
    repeat' split
    all_goals simp
  | subJourney n =>
    have ho : (executeSubJourney env step n f).2 = outcome := congrArg Prod.snd (Except.ok.inj h)
    subst ho
    unfold executeSubJourney
    dsimp only
    repeat' split
    all_goals simp
  | jump n | exit n =>
    cases h
    simp

end Munin
