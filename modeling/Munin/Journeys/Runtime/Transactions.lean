import Munin.Journeys.Runtime.Steps
import Munin.Foundations.Machine
import Mathlib.Logic.Function.Basic

/-!
# The transactions on enrollments

What else writes an enrollment's file (replies, answers of agents and of people, events, moves to
another version, the ends that others decide on), and the machine that runs them all in any order.
Each takes the lock of the row before it reads what it writes, so that on one file a transaction is
a few steps which no other transaction comes between; as steps of their own they reach at least the
same states.

* **`FileAct`** — the steps on one file, with what they read elsewhere.
* **`RuntimeState`, `runtimeMachine`** — all files, and the inbox with the ends of sub-journeys.
-/

namespace Munin

open Foundations

def REPLY_HOLD_MS : Int := 14 * 86400000

/-! ### Events -/

/-- `===`, for the values that a payload is matched with. -/
def sameValue : Json → Json → Bool
  | .null, .null => true
  | .bool a, .bool b => a = b
  | .num a, .num b => a = b
  | .str a, .str b => a = b
  | _, _ => false

/-- `payloadMatches`. -/
def payloadMatches (payload : Record) (fields : Record) : Bool :=
  let properties := (payload.object "properties").getD []
  fields.all fun field =>
    match (payload.lookup field.1).orElse fun _ => properties.lookup field.1 with
    | some actual => sameValue actual field.2
    | none => false

/-- A row of the inbox, as far as one enrollment is concerned. -/
structure RuntimeEvent where
  key : String
  payload : Record
  eventId : String

/-- The context that an event leaves. -/
def RuntimeEvent.context (event : RuntimeEvent) : Record :=
  [("lastEvent", .obj [("type", .str event.key), ("payload", .obj event.payload),
    ("eventId", .str event.eventId)])]

/-- A reply, as `handleReply` takes it. -/
structure Reply where
  conversationId : String
  messageId : Option String
  eventId : String
  /-- Whether a proposal of the enrollment is in the conversation. -/
  inThread : Bool
  /-- The step that `repliedStep` finds. -/
  lastMessage : Option Nat

/-- What an agent submits. -/
inductive Submission where
  /-- The edge that was chosen, and what is stored of the decision. -/
  | decision (edge : String) (decision : Record)
  /-- The subject, the body, and what is stored of the draft. -/
  | draft (subject : Option String) (body : String) (draft : Record)
  /-- The values that passed `coerceField`, and who filled them. -/
  | fields (values : Record) (filledBy : String)

/-- The resolution of each submission. -/
def Submission.resolution : Submission → String
  | .decision .. => "agent_decided"
  | .draft .. => "agent_drafted"
  | .fields .. => "agent_enriched"

namespace EnrollmentFile

/-- The waits of `processInboxRow` that one event resolves. -/
def onEvent (f : EnrollmentFile) (event : RuntimeEvent) (clock : Instant) : EnrollmentFile :=
  let waits := f.openWaits.filter fun w =>
    w.eventKey = some event.key && payloadMatches event.payload w.payload
  waits.foldl (fun f w => f.resolveWait w.id "event" event.context clock) f

/-- `handleReply`, for one enrollment. -/
def handleReply (specs : Nat → Option JourneySpec) (f : EnrollmentFile) (reply : Reply)
    (clock : Instant) : Option EnrollmentFile :=
  if !f.row.state.isOpen ||
      (f.row.conversationId ≠ some reply.conversationId && !reply.inThread) then some f
  else (specs f.row.version).bind fun spec =>
    match reply.lastMessage.bind f.step with
    | none => some f
    | some lastMessage =>
      let lastReply : Json := .obj [("conversationId", .str reply.conversationId),
        ("messageId", textOrNull reply.messageId), ("eventId", .str reply.eventId)]
      let onReply := match spec.node lastMessage.nodeId with
        | some (.message node) => node.onReply.filter (· ≠ "")
        | _ => none
      match onReply with
      | some to' => some ((f.closeOpenSteps "the contact replied" clock).updateRow fun e =>
          { e with
            state := .active, currentNode := to', visits := e.visits.enter to'
            nextRunAt := clock, context := setField e.context "lastReply" lastReply })
      | none =>
        if f.openWaits.any (·.kind = .conversationClose) then some f
        else some ((f.openWait lastMessage.id
          { kind := .conversationClose, eventKey := "conversation.status_changed",
            payload := [("conversationId", .str reply.conversationId), ("status", .str "closed")],
            timeoutAt := clock + REPLY_HOLD_MS } clock).updateRow fun e =>
          { e with context := setField e.context "lastReply" lastReply })

/-- What `submitDecision`, `submitDraft` and `submitFields` check of the node, and what they write:
the output of the run as it was read before the lock, and the context. -/
def submission (seen : StepRun) (node : JourneyNode) (e : Enrollment) :
    Submission → Option (Record × Record)
  | .decision edge decision =>
    match node with
    | .agent n =>
      if n.mode = .decide && truthy ((n.edges.getD []).lookup edge) then
        some (setField seen.output "decision" (.obj decision), e.context)
      else none
    | _ => none
  | .draft subject body draft =>
    match node with
    | .message n =>
      let limit := match n.channel with
        | .email => 20000
        | .sms => JOURNEY_SMS_MAX_CHARS
        | .chat => JOURNEY_CHAT_MAX_CHARS
        | .voice => JOURNEY_CALL_OPENING_MAX_CHARS
      if n.draftBy = some .agent && (n.channel = .email) = truthy subject &&
          jsLength body ≤ limit then
        some (setField seen.output "draft" (.obj draft), e.context)
      else none
    | _ => none
  | .fields values filledBy =>
    match node with
    | .agent n =>
      if n.mode = .enrich && values.all (fun v => (n.fields.getD []).any (·.key = v.1)) then
        some (setField (setField seen.output "fields" (.obj values)) "filledBy" (.str filledBy),
          setField e.context "enriched"
            (.obj (Record.spread ((e.context.object "enriched").getD []) values)))
      else none
    | _ => none

/-- `submitDecision`, `submitDraft` and `submitFields`, with the run as it was read before the
lock. -/
def submit (specs : Nat → Option JourneySpec) (f : EnrollmentFile) (seen : StepRun)
    (input : Submission) (clock : Instant) : Option EnrollmentFile :=
  (f.openWaits.find? fun w => w.stepRunId = seen.id && w.kind = .agent).bind fun wait =>
    if seen.status ≠ .waiting then none
    else (specs f.row.version).bind fun spec =>
      (spec.node seen.nodeId).bind fun node =>
        (submission seen node f.row input).map fun (output, context) =>
          ((f.updateRow fun e => { e with context }).updateSteps (·.id = seen.id)
            fun s => { s with output }).resolveWait wait.id input.resolution [] clock

/-- `decideApproval`. -/
def decideApproval (f : EnrollmentFile) (id : Nat) (approve : Bool) (clock : Instant) :
    Option EnrollmentFile :=
  (f.approvals.find? fun a => a.id = id && a.status = .pending).map fun _ =>
    let f := f.updateApprovals (fun a => a.id = id && a.status = .pending)
      fun a => { a with status := if approve then .approved else .rejected }
    match f.openWaits.find? fun w =>
        w.kind = .approval && w.payload.text "approvalId" = some (toString id) with
    | none => f
    | some wait => f.resolveWait wait.id (if approve then "approved" else "rejected") [] clock

/-- A run that `moveEnrollments` plans to move: the version and node that were read, the node to go
on at, and whether that is the same step. -/
structure PlannedMove where
  version : Nat
  currentNode : NodeId
  to' : NodeId
  resumes : Bool

/-- The plan of `moveEnrollments` for one enrollment, from its row and its waits as they were read;
a map that is
given answers for `constructor`, with no node. -/
def planMove (fromSpec toSpec : JourneySpec) (nodeMap : Option (List (NodeId × NodeId)))
    (seen : Enrollment) (held : Bool) : Option PlannedMove :=
  (seen.currentNode.filter (· ≠ "")).bind fun from' =>
    let mapped := match nodeMap.bind (·.lookup from') with
      | some to' => some to'
      | none =>
        if nodeMap.isSome ∧ from' = "constructor" then none
        else if (toSpec.node from').isSome then some from' else none
    (mapped.filter (· ≠ "")).bind fun to' =>
      (toSpec.node to').bind fun toNode =>
        let resumes := to' = from' ∧ (fromSpec.node from').map (·.type) = some toNode.type
        if ¬ resumes ∧ seen.state = .waiting ∧ held then none
        else some ⟨seen.version, from', to', resumes⟩

/-- The part of `moveEnrollments` that moves one enrollment, if it is still where it was. -/
def move (f : EnrollmentFile) (plan : PlannedMove) (toVersion : Nat) (now : Instant) :
    EnrollmentFile :=
  if f.row.version ≠ plan.version || f.row.currentNode ≠ some plan.currentNode ||
      !f.row.state.isOpen then f
  else
    let movedFrom : Json := .obj [("version", .num (.ofNat plan.version)),
      ("node", .str plan.currentNode), ("at", .str now.toISOString)]
    if plan.resumes then
      f.updateRow fun e =>
        { e with version := toVersion, context := setField e.context "movedFrom" movedFrom }
    else
      ((f.cancelWaits now).updateSteps (·.status.isOpen) fun s =>
        { s with
          status := .completed, reason := some ("moved to v" ++ toString toVersion)
          finishedAt := now }).updateRow fun e =>
        { e with
          version := toVersion, state := .active, currentNode := plan.to'
          visits := e.visits.enter plan.to', nextRunAt := now
          context := setField e.context "movedFrom" movedFrom }

/-- What `resumeNode` does to the enrollments at the node. -/
def resumeNode (f : EnrollmentFile) (node : NodeId) (clock : Instant) : EnrollmentFile :=
  if f.row.state = .active ∧ f.row.currentNode = some node ∧ f.row.nextRunAt = none then
    f.updateRow fun e => { e with nextRunAt := clock }
  else f

/-- What `purgeTraces` deletes of an old enrollment. -/
def purgeTraces (f : EnrollmentFile) : EnrollmentFile :=
  if f.row.state = .done ∨ f.row.state = .exited then
    { f with
      waits := [], steps := f.steps.filter (·.nodeType = some .split)
      row := { f.row with context := [], lastError := none } }
  else f

end EnrollmentFile

/-! ### Steps on one file -/

/-- The steps on one enrollment's file, with what they read elsewhere. -/
inductive FileAct where
  | recordStepError (message : String) (now clock : Instant)
  /-- The worker's catch of a run whose transaction threw. -/
  | reschedule (now : Instant)
  /-- A wait that is due, or that a proposal's event or an event resolves. -/
  | resolveWait (id : Nat) (resolution : String) (cause : Option RuntimeEvent) (clock : Instant)
  | event (event : RuntimeEvent) (clock : Instant)
  | reply (reply : Reply) (clock : Instant)
  | submit (seen : StepRun) (input : Submission) (clock : Instant)
  | decideApproval (id : Nat) (approve : Bool) (clock : Instant)
  | rememberThread (conversationId : Option String)
  | markGoal (clock : Instant)
  /-- `eject`, `endArchivedRuns`, `exitOtherJourneys`, idle timeouts, goals and exit rules. -/
  | finish (reason : String) (clock : Instant)
  | move (toVersion : Nat) (nodeMap : Option (List (NodeId × NodeId))) (seen : Enrollment)
      (held : Bool) (now : Instant)
  | resumeNode (node : NodeId) (clock : Instant)
  | purgeTraces

/-- The effect of a step on a file; `none` is a step that is refused or throws. -/
def FileAct.apply (specs : Nat → Option JourneySpec) (f : EnrollmentFile) :
    FileAct → Option EnrollmentFile
  | .recordStepError message now clock => (f.recordStepError specs message now clock).toOption
  | .reschedule now => some (f.updateRow fun e => { e with nextRunAt := some (now + 60000) })
  | .resolveWait id resolution cause clock =>
    f.resolveWait id resolution ((cause.map (·.context)).getD []) clock
  | .event e clock => f.onEvent e clock
  | .reply r clock => f.handleReply specs r clock
  | .submit seen input clock => f.submit specs seen input clock
  | .decideApproval id approve clock => f.decideApproval id approve clock
  | .rememberThread conversationId => f.rememberThread conversationId
  | .markGoal clock => f.markGoal clock
  | .finish reason clock => f.finish reason clock
  | .move toVersion nodeMap seen held now =>
    (specs seen.version).bind fun fromSpec => (specs toVersion).map fun toSpec =>
      match EnrollmentFile.planMove fromSpec toSpec nodeMap seen held with
      | none => f
      | some plan => f.move plan toVersion now
  | .resumeNode node clock => f.resumeNode node clock
  | .purgeTraces => f.purgeTraces

/-! ### What a step on a file can do -/

section Cases

variable {specs : Nat → Option JourneySpec} {f g : EnrollmentFile} {clock : Instant}

/-- A step that counts an error has not thrown. -/
theorem recordStepError_of_apply {message : String} {now : Instant}
    (h : FileAct.apply specs f (.recordStepError message now clock) = some g) :
    f.recordStepError specs message now clock = .ok g := by
  rw [FileAct.apply] at h
  cases hrecord : f.recordStepError specs message now clock with
  | error e => simp [hrecord, Except.toOption] at h
  | ok k => rw [show k = g by simpa [hrecord, Except.toOption] using h]

/-- A reply leaves the file as it is; or the run, which is open, goes on along `on_reply`; or it
waits for the end of the conversation. -/
theorem handleReply_eq_some {reply : Reply} (h : f.handleReply specs reply clock = some g) :
    g = f ∨ f.row.state.isOpen = true ∧ ∃ spec lastMessage lastReply,
      specs f.row.version = some spec ∧ lastMessage ∈ f.steps ∧
      ((∃ node to', spec.node lastMessage.nodeId = some (.message node) ∧
          node.onReply = some to' ∧ to' ≠ "" ∧
          g = (f.closeOpenSteps "the contact replied" clock).updateRow fun e =>
            { e with
              state := .active, currentNode := to', visits := e.visits.enter to'
              nextRunAt := clock, context := setField e.context "lastReply" lastReply }) ∨
        ∃ wait : WaitSpec, wait.kind = .conversationClose ∧
          g = (f.openWait lastMessage.id wait clock).updateRow fun e =>
            { e with context := setField e.context "lastReply" lastReply }) := by
  unfold EnrollmentFile.handleReply at h
  split at h
  · cases h
    exact .inl rfl
  · rename_i hguard
    have hopen : f.row.state.isOpen = true := by
      by_contra hclosed
      simp [Bool.eq_false_iff.2 hclosed] at hguard
    obtain ⟨spec, hspec, h⟩ := Option.bind_eq_some_iff.1 h
    split at h
    · cases h
      exact .inl rfl
    · rename_i lastMessage hlast
      obtain ⟨run, -, hstep⟩ := Option.bind_eq_some_iff.1 hlast
      have hmem : lastMessage ∈ f.steps := List.mem_of_find?_eq_some hstep
      dsimp only at h
      split at h
      · rename_i to' hto
        cases h
        split at hto
        · rename_i node hnode
          obtain ⟨hreply, hne⟩ := Option.filter_eq_some_iff.1 hto
          exact .inr ⟨hopen, spec, lastMessage, _, hspec, hmem,
            .inl ⟨node, to', hnode, hreply, of_decide_eq_true hne, rfl⟩⟩
        · cases hto
      · split at h
        · cases h
          exact .inl rfl
        · cases h
          exact .inr ⟨hopen, spec, lastMessage, _, hspec, hmem, .inr ⟨_, rfl, rfl⟩⟩

/-- What an accepted submission of an agent found, and what it wrote. -/
structure Submitted (specs : Nat → Option JourneySpec) (f g : EnrollmentFile) (seen : StepRun)
    (input : Submission) (clock : Instant) (w : JourneyWait) (node : JourneyNode)
    (output context : Record) : Prop where
  wait : w ∈ f.openWaits
  ofStep : w.stepRunId = seen.id
  kind : w.kind = .agent
  found : ∃ spec, specs f.row.version = some spec ∧ spec.node seen.nodeId = some node
  checked : EnrollmentFile.submission seen node f.row input = some (output, context)
  file : g = ((f.updateRow fun e => { e with context }).updateSteps (·.id = seen.id)
    fun s => { s with output }).resolveWait w.id input.resolution [] clock

theorem submit_eq_some {seen : StepRun} {input : Submission}
    (h : f.submit specs seen input clock = some g) :
    ∃ w node output context, Submitted specs f g seen input clock w node output context := by
  unfold EnrollmentFile.submit at h
  obtain ⟨w, hfind, h⟩ := Option.bind_eq_some_iff.1 h
  obtain ⟨hrun, hkind⟩ : w.stepRunId = seen.id ∧ w.kind = .agent := by
    simpa using List.find?_some hfind
  split at h
  · cases h
  · obtain ⟨spec, hspec, h⟩ := Option.bind_eq_some_iff.1 h
    obtain ⟨node, hnode, h⟩ := Option.bind_eq_some_iff.1 h
    obtain ⟨⟨output, context⟩, hchecked, rfl⟩ := Option.map_eq_some_iff.1 h
    exact ⟨w, node, output, context, List.mem_of_find?_eq_some hfind, hrun, hkind,
      ⟨spec, hspec, hnode⟩, hchecked, rfl⟩

/-- A move leaves the file as it is, if it is not where the plan found it; or the run, which is
open, goes on at its step, or enters another node. -/
theorem move_cases (f : EnrollmentFile) (plan : EnrollmentFile.PlannedMove) (toVersion : Nat)
    (now : Instant) :
    f.move plan toVersion now = f ∨
      f.row.version = plan.version ∧ f.row.currentNode = some plan.currentNode ∧
      f.row.state.isOpen = true ∧ ∃ movedFrom,
        (plan.resumes = true ∧ f.move plan toVersion now = f.updateRow fun e =>
          { e with version := toVersion, context := setField e.context "movedFrom" movedFrom }) ∨
        f.move plan toVersion now =
          ((f.cancelWaits now).updateSteps (·.status.isOpen) fun s =>
            { s with
              status := .completed, reason := some ("moved to v" ++ toString toVersion)
              finishedAt := now }).updateRow fun e =>
            { e with
              version := toVersion, state := .active, currentNode := plan.to'
              visits := e.visits.enter plan.to', nextRunAt := now
              context := setField e.context "movedFrom" movedFrom } := by
  unfold EnrollmentFile.move
  split
  · exact .inl rfl
  · rename_i hguard
    simp only [Bool.or_eq_true, decide_eq_true_eq, Bool.not_eq_true', not_or, not_not,
      Bool.not_eq_false] at hguard
    obtain ⟨⟨hversion, hcurrent⟩, hopen⟩ := hguard
    dsimp only
    split
    · rename_i hresumes
      exact .inr ⟨hversion, hcurrent, hopen, _, .inl ⟨hresumes, rfl⟩⟩
    · exact .inr ⟨hversion, hcurrent, hopen, _, .inr rfl⟩

/-- Only the traces of an enrollment that has ended are purged. -/
theorem purgeTraces_cases (f : EnrollmentFile) :
    f.purgeTraces = f ∨ f.row.state.isOpen = false ∧
      f.purgeTraces =
        { f with
          waits := [], steps := f.steps.filter (·.nodeType = some .split)
          row := { f.row with context := [], lastError := none } } := by
  unfold EnrollmentFile.purgeTraces
  split
  · rename_i hended
    refine .inr ⟨?_, rfl⟩
    rcases hended with hended | hended <;> rw [hended] <;> rfl
  · exact .inl rfl

end Cases

/-! ### All enrollments -/

/-- What `enroll` inserts. -/
structure NewEnrollment where
  id : String
  journeyId : String
  version : Nat
  contactId : Option String := none
  endUserId : Option String := none
  companyId : Option String := none
  subjectKey : String
  context : Record := []
  now : Instant

/-- The row of `enroll`, in the version of the spec: held out by its bucket, or at the start. -/
def NewEnrollment.file (e : NewEnrollment) (spec : JourneySpec) : EnrollmentFile where
  row :=
    let holdout := stableBucket [e.subjectKey, e.journeyId] < spec.settings.holdoutPct
    { id := e.id, journeyId := e.journeyId, version := e.version, contactId := e.contactId
      endUserId := e.endUserId, companyId := e.companyId, subjectKey := e.subjectKey
      state := if holdout then .done else .active
      currentNode := if holdout then none else some spec.start
      visits := if holdout then [] else [(spec.start, .count 1)]
      context := e.context, holdout
      nextRunAt := if holdout then none else some e.now
      idleDeadlineAt := spec.idleDays.map fun days => e.now + days * 86400000
      exitedAt := if holdout then some e.now else none
      exitReason := if holdout then some "holdout" else none }

/-- The specs of the published versions: by journey and number. -/
abbrev Specs := String → Nat → Option JourneySpec

/-- The files of all enrollments, and the rows of the inbox that tell of an end. -/
structure RuntimeState where
  files : String → Option EnrollmentFile := fun _ => none
  inbox : List JourneyExited := []

/-- The steps of the runtime. The flag of a step is whether some journey of the organisation is live
or paused, without which the sink drops events. -/
inductive RuntimeStep where
  | enroll (e : NewEnrollment)
  /-- One node of `runEnrollment`, with the enrollment that it puts into another journey. -/
  | node (id : String) (env : StepEnv) (child : Option NewEnrollment) (running : Bool)
  | act (id : String) (a : FileAct) (running : Bool)
  /-- `processInboxRow` of a `journey.exited` row, as far as its parent is concerned. -/
  | exited (row : JourneyExited) (eventId : String) (clock : Instant)
  /-- A row of the inbox is given up, after six attempts that failed. -/
  | giveUp (row : JourneyExited)

namespace RuntimeState

/-- A file written, with the events that its step emitted. -/
def write (s : RuntimeState) (id : String) (f g : EnrollmentFile) (running : Bool) :
    RuntimeState where
  files := Function.update s.files id (some g)
  inbox := s.inbox ++ if running then g.exits.drop f.exits.length else []

@[simp]
theorem files_write_self (s : RuntimeState) (id : String) (f g : EnrollmentFile) (running : Bool) :
    (s.write id f g running).files id = some g :=
  Function.update_self ..

theorem files_write_of_ne (s : RuntimeState) {id other : String} (h : other ≠ id)
    (f g : EnrollmentFile) (running : Bool) :
    (s.write id f g running).files other = s.files other :=
  Function.update_of_ne h ..

/-- An enrollment inserted. -/
def insert (s : RuntimeState) (specs : Specs) (e : NewEnrollment) : Option RuntimeState :=
  if (s.files e.id).isSome then none
  else (specs e.journeyId e.version).map fun spec =>
    { s with files := Function.update s.files e.id (some (e.file spec)) }

/-- What an insertion does. -/
theorem insert_eq_some {s t : RuntimeState} {specs : Specs} {e : NewEnrollment}
    (h : s.insert specs e = some t) :
    s.files e.id = none ∧ ∃ spec, specs e.journeyId e.version = some spec ∧
      t.files e.id = some (e.file spec) ∧ (∀ id, id ≠ e.id → t.files id = s.files id) ∧
      t.inbox = s.inbox := by
  unfold insert at h
  split at h
  · cases h
  · rename_i hnone
    obtain ⟨spec, hspec, rfl⟩ := Option.map_eq_some_iff.1 h
    refine ⟨by simpa using hnone, spec, hspec, Function.update_self .., ?_, rfl⟩
    exact fun id hid => Function.update_of_ne hid ..

/-- The context that `executeSubJourney` gives the enrollment in the other journey. -/
def childContext (row : Enrollment) : Record :=
  [("journeyDepth", .num (.ofNat (row.context.count "journeyDepth" + 1))),
    ("parent", .obj [("journeyId", .str row.journeyId), ("enrollmentId", .str row.id)])]

/-- What `enroll` answers the step: the enrollment that it inserts. -/
def answerEnroll (env : StepEnv) : Option NewEnrollment → StepEnv
  | some child => { env with enroll := .enrolled child.id }
  | none =>
    match env.enroll with
    | .enrolled _ => { env with enroll := .skipped "enroll_failed" none }
    | .skipped .. => env

/-- The payload of a `journey.exited` event. -/
def exitPayload (row : JourneyExited) : Record :=
  Record.withField
    [("journeyId", .str row.journeyId), ("enrollmentId", .str row.enrollmentId),
      ("reason", .str row.reason), ("contactId", textOrNull row.contactId),
      ("endUserId", textOrNull row.endUserId), ("companyId", textOrNull row.companyId)]
    "parentEnrollmentId" (row.parentEnrollmentId.map .str)

/-- One node of an enrollment, and the enrollment it puts into another journey. -/
def runNode (specs : Specs) (s : RuntimeState) (id : String) (env : StepEnv)
    (child : Option NewEnrollment) (running : Bool) : Option RuntimeState :=
  (s.files id).bind fun f =>
    match f.runNode (specs f.row.journeyId) (answerEnroll env child) with
    | .error _ => none
    | .ok (g, _) =>
      let t := s.write id f g.clearErrors running
      match child with
      | none => some t
      | some e =>
        if g.children = f.children then none
        else t.insert specs { e with context := childContext f.row }

/-- The effect of a step. -/
def step (specs : Specs) (s : RuntimeState) : RuntimeStep → Option RuntimeState
  | .enroll e => s.insert specs e
  | .node id env child running => s.runNode specs id env child running
  | .act id a running =>
    (s.files id).bind fun f =>
      (a.apply (specs f.row.journeyId) f).map fun g => s.write id f g running
  | .exited row eventId clock =>
    if row ∈ s.inbox then
      let s := { s with inbox := s.inbox.erase row }
      match row.parentEnrollmentId.bind s.files, row.parentEnrollmentId with
      | some f, some parent =>
        some (s.write parent f (f.onEvent ⟨"journey.exited", exitPayload row, eventId⟩ clock) true)
      | _, _ => some s
    else none
  | .giveUp row => if row ∈ s.inbox then some { s with inbox := s.inbox.erase row } else none

end RuntimeState

/-- The runtime: any step at any time. -/
def runtimeMachine (specs : Specs) : Machine RuntimeState RuntimeStep where
  step := RuntimeState.step specs

end Munin
