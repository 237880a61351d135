import Munin.Journeys.Runtime.Replay

/-!
# The steps of the runtime

The transactions that run an enrollment, on its file. A transaction that throws is rolled back,
which is `Except.error` here; the text is the error's.

* **`finish`, `openWait`, `resolveWait`** — the three ways a wait begins or ends, with the state of
  the enrollment that follows.
* **`runNode`** — one visit to the current node, in a savepoint.
* **`runEnrollment`** — up to fifty of them, in one transaction.
-/

namespace Munin

open Foundations

def MAX_NODES_PER_RUN : Nat := 50
def MAX_STEP_ERRORS : Nat := 5

/-- `COMPLETED_REASONS`. -/
def COMPLETED_REASONS : List String := ["reached_end", "goal_reached"]

namespace EnrollmentFile

/-! ### Waits -/

/-- `cancelWaits`. -/
def cancelWaits (f : EnrollmentFile) (clock : Instant) : EnrollmentFile :=
  f.updateWaits (·.isOpen) fun w => { w with resolvedAt := clock, resolution := "cancelled" }

/-- `closeOpenSteps`. -/
def closeOpenSteps (f : EnrollmentFile) (reason : String) (clock : Instant) : EnrollmentFile :=
  ((f.cancelWaits clock).updateApprovals (·.status = .pending)
    fun a => { a with status := .expired }).updateSteps (·.status.isOpen)
      fun s => { s with status := .cancelled, reason, finishedAt := clock }

/-- The event that tells of an enrollment's end. -/
def exitEvent (f : EnrollmentFile) (reason : String) : JourneyExited where
  journeyId := f.row.journeyId
  enrollmentId := f.row.id
  reason := reason
  contactId := f.row.contactId
  endUserId := f.row.endUserId
  companyId := f.row.companyId
  parentEnrollmentId := (f.row.context.object "parent").bind (·.text "enrollmentId")

/-- `finish`; the proposals of the run are withdrawn elsewhere. -/
def finish (f : EnrollmentFile) (reason : String) (clock : Instant) : EnrollmentFile :=
  if f.row.state.isOpen then
    let f := f.updateRow fun e =>
      { e with
        state := if reason ∈ COMPLETED_REASONS then .done else .exited
        exitReason := reason, exitedAt := clock, currentNode := none, nextRunAt := none }
    let f := f.closeOpenSteps ("the journey run ended (" ++ reason ++ ")") clock
    { f with exits := f.exits ++ [f.exitEvent reason] }
  else f

/-- The row of `openWait`. -/
def newWait (f : EnrollmentFile) (stepRunId : Nat) (wait : WaitSpec) (clock : Instant) :
    JourneyWait where
  id := f.nextId
  stepRunId := stepRunId
  kind := wait.kind
  wakeAt := wait.wakeAt
  eventKey := wait.eventKey
  payload := wait.payload
  timeoutAt := wait.timeoutAt
  createdAt := clock

/-- `openWait`. -/
def openWait (f : EnrollmentFile) (stepRunId : Nat) (wait : WaitSpec) (clock : Instant) :
    EnrollmentFile :=
  { f with
    waits := f.waits ++ [f.newWait stepRunId wait clock]
    nextId := f.nextId + 1
    row := { f.row with state := .waiting, nextRunAt := none } }

/-- Whether the enrollment goes on waiting once a wait of this kind is resolved: a reply holds
everything until its conversation is closed, and then waits for what is left. -/
def stillWaiting (f : EnrollmentFile) (kind : WaitKind) : Bool :=
  if kind = .conversationClose then !f.openWaits.isEmpty
  else f.openWaits.any (·.kind = .conversationClose)

/-- `resolveWait`. -/
def resolveWait (f : EnrollmentFile) (id : Nat) (resolution : String) (context : Record)
    (clock : Instant) : EnrollmentFile :=
  match f.openWaits.find? (·.id = id) with
  | none => f
  | some wait =>
    let f := f.updateWaits (fun w => w.id = id && w.isOpen)
      fun w => { w with resolvedAt := clock, resolution }
    if f.row.state ≠ .waiting then f
    else
      let f := f.updateRow fun e => { e with context := e.context.spread context }
      if f.stillWaiting wait.kind then f
      else f.updateRow fun e => { e with state := .active, nextRunAt := clock }

/-- `latestWait`: the newest wait of a step, if it is resolved. -/
def latestWait (f : EnrollmentFile) (stepRunId : Nat) : Option JourneyWait :=
  let waits := f.waits.filter fun w => w.stepRunId = stepRunId && w.kind ≠ .conversationClose
  let newest := waits.foldl (fun best w =>
    if best.any fun b => w.createdAt < b.createdAt then best else some w) none
  newest.filter (·.resolvedAt.isSome)

/-! ### Step runs -/

/-- A row added to `journey_step_runs`. -/
def insertRun (f : EnrollmentFile) (run : StepRun) (executed : Bool) : EnrollmentFile :=
  { f with
    steps := f.steps ++ [run]
    nextId := f.nextId + 1
    inserted := f.inserted ++ [⟨run.nodeId, run.visit, run.version, executed⟩] }

/-- The row of `insertStepRun`. -/
def newRun (f : EnrollmentFile) (node : JourneyNode) (visit : Nat) : StepRun where
  id := f.nextId
  nodeId := node.id
  nodeType := node.type
  version := f.row.version
  visit := visit
  status := .running

/-- `updateStepRun`. -/
def updateStepRun (f : EnrollmentFile) (id : Nat) (patch : StepRun → StepRun) : EnrollmentFile :=
  f.updateSteps (·.id = id) patch

/-- The way on to the next node. -/
def moveOn (f : EnrollmentFile) (env : StepEnv) (spec : JourneySpec) (to' : NodeId) :
    EnrollmentFile :=
  f.updateRow fun e =>
    { e with
      currentNode := to', visits := e.visits.enter to', nextRunAt := env.now
      idleDeadlineAt := match spec.idleDays with
        | some days => some (env.now + days * 86400000)
        | none => e.idleDeadlineAt }

/-- The end of `runNode`: what an outcome that is stored as completed leads to, and whether the loop
goes on. -/
def leave (f : EnrollmentFile) (env : StepEnv) (spec : JourneySpec) :
    Outcome → EnrollmentFile × Bool
  | .exit reason _ => (f.finish reason env.clock, false)
  | .advance _ to' _ _ =>
    match to'.filter (· ≠ "") with
    | none => (f.finish "reached_end" env.clock, false)
    | some id => (f.moveOn env spec id, true)
  | .wait .. | .retry .. => (f, false)

/-- What `runNode` writes of a step's outcome, before it leaves the node. -/
def settle (f : EnrollmentFile) (env : StepEnv) (spec : JourneySpec) (runId attempt : Nat) :
    Outcome → EnrollmentFile × Bool
  | .retry at' reason =>
    let f := f.updateStepRun runId fun s =>
      { s with status := .retrying, attempt, reason := some reason }
    (f.updateRow fun e => { e with nextRunAt := at' }, false)
  | .wait wait output reason =>
    let f := f.updateStepRun runId fun s =>
      { s with
        status := .waiting, attempt, output := output.getD s.output
        reason := reason.orElse fun _ => s.reason }
    (f.openWait runId wait env.clock, false)
  | .advance edge to' output reason =>
    let f := f.updateStepRun runId fun s =>
      { s with
        status := .completed, attempt, output := output.getD s.output, edgeTaken := edge, reason
        finishedAt := env.clock }
    f.leave env spec (.advance edge to' output reason)
  | .exit reason output =>
    let f := f.updateStepRun runId fun s =>
      { s with
        status := .completed, attempt, output := output.getD s.output, edgeTaken := none
        reason := some reason, finishedAt := env.clock }
    f.leave env spec (.exit reason output)

/-! ### Running -/

/-- The visit of a node to a step's first run or to one of its later ones: the run, with the file
that has it, and what resumes or repeats it. -/
def enterRun (f : EnrollmentFile) (node : JourneyNode) (visit : Nat) :
    EnrollmentFile × StepRun × Option JourneyWait × Nat :=
  match f.visitRun node.id visit with
  | some run =>
    (f, run, if run.status = .waiting then f.latestWait run.id else none,
      if run.status = .retrying then run.attempt + 1 else 1)
  | none => (f.insertRun (f.newRun node visit) true, f.newRun node visit, none, 1)

/-- Whether a journey has paused a node; every object answers for `constructor`. -/
def nodePaused (env : StepEnv) (id : NodeId) : Bool :=
  id ∈ env.pausedNodes || id = "constructor"

/-- One visit to the current node, once its number is known. -/
def runVisit (f : EnrollmentFile) (env : StepEnv) (spec : JourneySpec) (node : JourneyNode)
    (visit : Nat) : Except String (EnrollmentFile × Bool) :=
  let existing := f.visitRun node.id visit
  if existing.isNone && nodePaused env node.id then
    .ok (f.updateRow fun e => { e with nextRunAt := none }, false)
  else match existing.filter (·.status = .completed) with
    | some run => .ok (f.leave env spec (storedOutcome node run))
    | none =>
      let (g, run, resumed, attempt) := f.enterRun node visit
      match env.failure with
      | some message => .error message
      | none =>
        match execute env { run, enrollment := f.row, spec, attempt, resumed } node g with
        | .error message => .error message
        | .ok (h, outcome) => .ok (h.settle env spec run.id attempt outcome)

/-- `runNode`: the file, and whether the loop goes on. -/
def runNode (specs : Nat → Option JourneySpec) (env : StepEnv) (f : EnrollmentFile) :
    Except String (EnrollmentFile × Bool) :=
  match f.row.state, f.row.currentNode.filter (· ≠ "") with
  | .active, some current =>
    if !env.journeyLive then .ok (f, false)
    else match specs f.row.version with
      | none => .error "journeys_not_found: the journey has no such version"
      | some spec =>
        match spec.node current with
        | none => .ok (f.finish "node_missing" env.clock, false)
        | some node =>
          match f.row.visits.current node.id with
          | .text => .error "invalid input syntax for type integer"
          | .count visit =>
            if spec.settings.maxVisitsPerNode < visit then
              .ok (f.finish "loop_detected" env.clock, false)
            else f.runVisit env spec node visit
  | _, _ => .ok (f, false)

/-- The part of `recordStepError` that gives a step up: its run, recorded as failed. -/
def recordFailed (specs : Nat → Option JourneySpec) (f : EnrollmentFile) (message : String)
    (clock : Instant) : Except String EnrollmentFile :=
  match f.row.currentNode.filter (· ≠ "") with
  | none => .ok f
  | some current =>
    match specs f.row.version with
    | none => .error "journeys_not_found: the journey has no such version"
    | some spec =>
      match f.row.visits.current current with
      | .text => .error "invalid input syntax for type integer"
      | .count visit =>
        match f.visitRun current visit with
        | some run => .ok (f.updateSteps (·.id = run.id) fun s =>
            { s with
              status := .failed, reason := some "step_failed", attempt := f.row.stepErrors
              finishedAt := clock })
        | none => .ok (f.insertRun
            { id := f.nextId, nodeId := current, nodeType := (spec.node current).map (·.type),
              version := f.row.version, visit, attempt := f.row.stepErrors, status := .failed,
              reason := some "step_failed", output := [("error", .str message)],
              finishedAt := clock } false)

/-- `recordStepError`. -/
def recordStepError (specs : Nat → Option JourneySpec) (f : EnrollmentFile) (message : String)
    (now clock : Instant) : Except String EnrollmentFile :=
  if f.row.state ≠ .active then .ok f
  else
    let f := f.updateRow fun e =>
      { e with stepErrors := e.stepErrors + 1, lastError := some (jsTake 1000 message) }
    match if f.row.stepErrors < MAX_STEP_ERRORS then retryDelayMs f.row.stepErrors else none with
    | some delay => .ok (f.updateRow fun e => { e with nextRunAt := now + delay })
    | none => (f.recordFailed specs (jsTake 1000 message) clock).map (·.finish "step_failed" clock)

/-- What a node that ran leaves of earlier errors. -/
def clearErrors (f : EnrollmentFile) : EnrollmentFile :=
  if 0 < f.row.stepErrors then f.updateRow fun e => { e with stepErrors := 0, lastError := none }
  else f

/-- The loop of `runEnrollment`, with the answers that each node finds. -/
def runLoop (specs : Nat → Option JourneySpec) :
    List StepEnv → EnrollmentFile → Except String EnrollmentFile
  | [], f => .ok f
  | env :: envs, f =>
    match f.runNode specs env with
    | .error message => f.recordStepError specs message env.now env.clock
    | .ok (g, more) => if more then runLoop specs envs g.clearErrors else .ok g.clearErrors

/-- `runEnrollment`. -/
def runEnrollment (specs : Nat → Option JourneySpec) (envs : List StepEnv) (f : EnrollmentFile) :
    Except String EnrollmentFile :=
  if f.row.state = .active then f.runLoop specs (envs.take MAX_NODES_PER_RUN) else .ok f

/-! ### What a run can do -/

variable {f g : EnrollmentFile} {env : StepEnv} {more : Bool}

/-- What a visit comes to: nothing while the node is paused, the stored outcome of a completed run,
or an execution. -/
theorem runVisit_cases {spec : JourneySpec} {node : JourneyNode} {visit : Nat}
    (h : f.runVisit env spec node visit = .ok (g, more)) :
    (f.visitRun node.id visit = none ∧ g = f.updateRow (fun e => { e with nextRunAt := none }) ∧
      more = false) ∨
    (∃ run, f.visitRun node.id visit = some run ∧ run.status = .completed ∧
      (g, more) = f.leave env spec (storedOutcome node run)) ∨
    ∃ k outcome, execute env
        { run := (f.enterRun node visit).2.1, enrollment := f.row, spec,
          attempt := (f.enterRun node visit).2.2.2, resumed := (f.enterRun node visit).2.2.1 }
        node (f.enterRun node visit).1 = .ok (k, outcome) ∧
      (g, more) = k.settle env spec (f.enterRun node visit).2.1.id
        (f.enterRun node visit).2.2.2 outcome := by
  unfold runVisit at h
  dsimp only at h
  split at h
  · rename_i hpaused
    obtain ⟨rfl, rfl⟩ := Prod.mk.inj (Except.ok.inj h)
    have hnone : f.visitRun node.id visit = none := by
      simpa using (Bool.and_eq_true_iff.1 hpaused).1
    exact .inl ⟨hnone, rfl, rfl⟩
  · split at h
    · rename_i run hrun
      obtain ⟨hsome, hcompleted⟩ := Option.filter_eq_some_iff.1 hrun
      exact .inr (.inl ⟨run, hsome, of_decide_eq_true hcompleted, (Except.ok.inj h).symm⟩)
    · split at h
      · cases h
      · split at h
        · cases h
        · rename_i k outcome hexec
          exact .inr (.inr ⟨k, outcome, hexec, (Except.ok.inj h).symm⟩)

/-- What one round of the loop comes to: nothing, an end, or a visit to the current node that the
visit cap admits. -/
theorem runNode_cases {specs : Nat → Option JourneySpec} (h : f.runNode specs env = .ok (g, more)) :
    (g = f ∧ more = false) ∨
    (f.row.state = .active ∧ ∃ current spec, f.row.currentNode = some current ∧
      specs f.row.version = some spec ∧
      ((∃ reason, g = f.finish reason env.clock ∧ more = false) ∨
        ∃ node visit, spec.node current = some node ∧
          f.row.visits.current node.id = .count visit ∧ visit ≤ spec.settings.maxVisitsPerNode ∧
          f.runVisit env spec node visit = .ok (g, more))) := by
  unfold runNode at h
  split at h
  · rename_i current hactive hcurrent
    have hnode : f.row.currentNode = some current := (Option.filter_eq_some_iff.1 hcurrent).1
    split at h
    · obtain ⟨rfl, rfl⟩ := Prod.mk.inj (Except.ok.inj h)
      exact .inl ⟨rfl, rfl⟩
    · split at h
      · cases h
      · rename_i spec hspec
        refine .inr ⟨hactive, current, spec, hnode, hspec, ?_⟩
        split at h
        · obtain ⟨rfl, rfl⟩ := Prod.mk.inj (Except.ok.inj h)
          exact .inl ⟨_, rfl, rfl⟩
        · rename_i node hfound
          split at h
          · cases h
          · rename_i visit hvisit
            split at h
            · obtain ⟨rfl, rfl⟩ := Prod.mk.inj (Except.ok.inj h)
              exact .inl ⟨_, rfl, rfl⟩
            · rename_i hcap
              exact .inr ⟨node, visit, hfound, hvisit, Nat.le_of_not_lt hcap, h⟩
  · obtain ⟨rfl, rfl⟩ := Prod.mk.inj (Except.ok.inj h)
    exact .inl ⟨rfl, rfl⟩

variable {specs : Nat → Option JourneySpec} {message : String} {now clock : Instant}

/-- What is recorded of a step that is given up: nothing, or its failure, in the run of its visit or
in one that is inserted for it. -/
theorem recordFailed_eq_ok (h : f.recordFailed specs message clock = .ok g) :
    g = f ∨ ∃ current visit,
      (∃ run, g = f.updateSteps (·.id = run) fun s =>
        { s with
          status := .failed, reason := some "step_failed", attempt := f.row.stepErrors
          finishedAt := clock }) ∨
      f.visitRun current visit = none ∧ ∃ nodeType, g = f.insertRun
        { id := f.nextId, nodeId := current, nodeType, version := f.row.version, visit
          attempt := f.row.stepErrors, status := .failed, reason := some "step_failed"
          output := [("error", .str message)], finishedAt := clock } false := by
  unfold recordFailed at h
  split at h
  · cases h
    exact .inl rfl
  · rename_i current _
    split at h
    · cases h
    · split at h
      · cases h
      · rename_i visit _
        refine .inr ⟨current, visit, ?_⟩
        split at h
        · cases h
          exact .inl ⟨_, rfl⟩
        · rename_i hnone
          cases h
          exact .inr ⟨hnone, _, rfl⟩

/-- An error of an active enrollment is counted; then its next run is put off, or it is given up. -/
theorem recordStepError_eq_ok (h : f.recordStepError specs message now clock = .ok g) :
    g = f ∨ f.row.state = .active ∧ ∃ k, k = f.updateRow (fun e =>
        { e with stepErrors := e.stepErrors + 1, lastError := some (jsTake 1000 message) }) ∧
      ((∃ delay, g = k.updateRow fun e => { e with nextRunAt := delay }) ∨
        ∃ l, k.recordFailed specs (jsTake 1000 message) clock = .ok l ∧
          g = l.finish "step_failed" clock) := by
  unfold recordStepError at h
  split at h
  · cases h
    exact .inl rfl
  · rename_i hactive
    refine .inr ⟨not_not.1 hactive, _, rfl, ?_⟩
    dsimp only at h
    split at h
    · cases h
      exact .inl ⟨_, rfl⟩
    · generalize recordFailed _ _ _ _ = given at h ⊢
      cases given with
      | error e => cases h
      | ok l =>
        cases h
        exact .inr ⟨l, rfl, rfl⟩

end EnrollmentFile

/-- What `finish` leaves has ended. -/
theorem isOpen_finish (f : EnrollmentFile) (reason : String) (clock : Instant) :
    (f.finish reason clock).row.state.isOpen = false := by
  unfold EnrollmentFile.finish
  split
  · change (if reason ∈ COMPLETED_REASONS then EnrollmentState.done else .exited).isOpen = false
    split <;> rfl
  · rename_i hclosed
    exact Bool.eq_false_iff.2 hclosed

end Munin
