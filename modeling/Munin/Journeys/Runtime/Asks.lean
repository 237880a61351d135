import Munin.Journeys.Runtime.AskRows

/-!
# Whom the steps ask

Each transaction on an enrollment keeps what its rows say of the steps that ask for an answer, and a
step asks only once.

* **`asksOk_apply`** — the transactions that run no node.
* **`ExecutesAsking`** — whom an execution asks, and what it does to the approvals.
* **`VisitOk`** — where the enrollment stands while a step run is executed; `asksOk_settle`: what is
  written of the outcome.
* **`asksAndWaits_reachable`** — the invariant in every state reached.
-/

namespace Munin

open Foundations

/-! ### The steps on one file -/

/-- The step is a submission of an agent for this step run. -/
def FileAct.Submits (run : Nat) : FileAct → Prop
  | .submit seen _ _ => seen.id = run
  | .recordStepError .. | .reschedule _ | .resolveWait .. | .event .. | .reply ..
  | .decideApproval .. | .rememberThread _ | .markGoal _ | .finish .. | .move .. | .resumeNode ..
  | .purgeTraces => False

/-- The step moves the run to another version. -/
def FileAct.Moves : FileAct → Prop
  | .move .. => True
  | .recordStepError .. | .reschedule _ | .resolveWait .. | .event .. | .reply .. | .submit ..
  | .decideApproval .. | .rememberThread _ | .markGoal _ | .finish .. | .resumeNode ..
  | .purgeTraces => False

/-- A write that moves no step and leaves the row where it stands; it may change what the touched
steps have put out. -/
structure Steady (touched : Nat → Prop) (f g : EnrollmentFile) : Prop where
  rewrites : ∃ onStep, Rewrites f g onStep ∧ (∀ s, (onStep s).status = s.status) ∧
    ∀ s, ¬ touched s.id → (onStep s).output = s.output
  version : g.row.version = f.row.version
  currentNode : g.row.currentNode = f.row.currentNode
  visits : g.row.visits = f.row.visits
  isOpen : g.row.state.isOpen = f.row.state.isOpen

/-- A write to the row that keeps a run at its step, which is of the type that it was. -/
structure StaysAtStep (specs : Nat → Option JourneySpec) (p : Enrollment → Enrollment)
    (e : Enrollment) : Prop where
  state : (p e).state = e.state
  node : (p e).currentNode = e.currentNode
  visits : (p e).visits = e.visits
  type : ∀ current, e.currentNode = some current → ∃ fromSpec toSpec,
    specs e.version = some fromSpec ∧ specs (p e).version = some toSpec ∧
      (fromSpec.node current).map (·.type) = (toSpec.node current).map (·.type)

/-- What a step on a file comes to. -/
inductive ActCase (specs : Nat → Option JourneySpec) (a : FileAct) (f g : EnrollmentFile) : Prop
  | ended (hclosed : g.row.state.isOpen = false) (hnone : ∀ a ∈ g.approvals, a.status ≠ .pending)
  | steady (h : Steady (fun run => a.Submits run) f g)
  /-- The run goes on at a node that it enters: at a message's `onReply`, or in another version. -/
  | entered (hopen : f.row.state.isOpen = true) (onStep : StepRun → StepRun)
      (h : Rewrites f g onStep) (hclosed : ∀ s, (onStep s).status.isOpen = false)
      (hnone : g.openWaits = []) (node : NodeId) (hnode : g.row.currentNode = some node)
      (hvisits : g.row.visits = f.row.visits.enter node) (hg : g.row.state.isOpen = true)
  /-- The run goes on at its step in another version, where the node has the type that it had. -/
  | moved (hopen : f.row.state.isOpen = true) (hmoves : a.Moves) (p : Enrollment → Enrollment)
      (hg : g = f.updateRow p) (hstays : StaysAtStep specs p f.row)
  /-- A reply opens the wait for the end of its conversation. -/
  | reply (hopen : f.row.state.isOpen = true) (run : StepRun) (hrun : run ∈ f.steps)
      (wait : WaitSpec) (hkind : wait.kind = .conversationClose) (clock : Instant)
      (p : Enrollment → Enrollment) (hg : g = (f.openWait run.id wait clock).updateRow p)
      (hrow : ∀ e, (p e).version = e.version ∧ (p e).currentNode = e.currentNode ∧
        (p e).visits = e.visits ∧ (p e).state = e.state)

section Acts

variable {specs : Nat → Option JourneySpec} {f g h : EnrollmentFile} {touched : Nat → Prop}

theorem Steady.refl (f : EnrollmentFile) : Steady touched f f where
  rewrites := ⟨id, .refl f, fun _ => rfl, fun _ _ => rfl⟩
  version := rfl
  currentNode := rfl
  visits := rfl
  isOpen := rfl

theorem Steady.trans (hfg : Steady touched f g) (hgh : Steady touched g h) : Steady touched f h where
  rewrites := by
    obtain ⟨p, hp, hstatus, houtput⟩ := hfg.rewrites
    obtain ⟨q, hq, hstatus', houtput'⟩ := hgh.rewrites
    refine ⟨q ∘ p, hp.trans hq, fun s => (hstatus' _).trans (hstatus s), fun s hs => ?_⟩
    have hid : (p s).id = s.id := (hp.same s).id
    exact (houtput' _ (hid ▸ hs)).trans (houtput s hs)
  version := hgh.version.trans hfg.version
  currentNode := hgh.currentNode.trans hfg.currentNode
  visits := hgh.visits.trans hfg.visits
  isOpen := hgh.isOpen.trans hfg.isOpen

variable {p : Enrollment → Enrollment} {specs' : Nat → Option JourneySpec} {clock : Instant}
  {a : FileAct}

/-- A write to the row that leaves it where it stands. -/
theorem steady_updateRow (f : EnrollmentFile) (hversion : (p f.row).version = f.row.version)
    (hnode : (p f.row).currentNode = f.row.currentNode) (hvisits : (p f.row).visits = f.row.visits)
    (hopen : (p f.row).state.isOpen = f.row.state.isOpen) : Steady touched f (f.updateRow p) :=
  ⟨⟨id, rewrites_updateRow f p, fun _ => rfl, fun _ _ => rfl⟩, hversion, hnode, hvisits, hopen⟩

theorem steady_resolveWait (f : EnrollmentFile) (id' : Nat) (resolution : String)
    (context : Record) (clock : Instant) :
    Steady touched f (f.resolveWait id' resolution context clock) := by
  refine ⟨⟨id, rewrites_resolveWait f id' resolution context clock, fun _ => rfl, fun _ _ => rfl⟩,
    ?_, ?_, ?_, isOpen_resolveWait f id' resolution context clock⟩
  all_goals
    rcases resolveWait_cases f id' resolution context clock with
      ⟨-, heq⟩ | ⟨-, heq | ⟨-, p, heq, rfl | rfl⟩⟩ <;> rw [heq] <;> rfl

theorem steady_onEvent (f : EnrollmentFile) (event : RuntimeEvent) (clock : Instant) :
    Steady touched f (f.onEvent event clock) :=
  onEvent_rule (P := Steady touched f) (.refl f) fun k _ hk =>
    hk.trans (steady_resolveWait k _ _ _ _)

/-- What is put out by the touched steps. -/
theorem steady_output (f : EnrollmentFile) (run : Nat) (output : Record) :
    Steady (fun id => run = id) f
      (f.updateSteps (fun s => decide (s.id = run)) fun s => { s with output }) := by
  refine ⟨⟨_, rewrites_updateSteps f _ fun _ => ⟨rfl, rfl, rfl, rfl⟩, fun s => ?_, fun s hs => ?_⟩,
    rfl, rfl, rfl, rfl⟩
  · split <;> rfl
  · rw [if_neg]
    simpa using fun hid => hs hid.symm

theorem steady_updateApprovals (f : EnrollmentFile) (p : JourneyApproval → Bool)
    (status : ApprovalStatus) (hp : ∀ a, p a = true → a.status = .pending) :
    Steady touched f (f.updateApprovals p fun a => { a with status }) :=
  ⟨⟨id, rewrites_updateApprovals f p status hp, fun _ => rfl, fun _ _ => rfl⟩, rfl, rfl, rfl, rfl⟩

theorem AsksOk.steady (hf : AsksOk specs f) (h : Steady touched f g) : AsksOk specs g := by
  obtain ⟨onStep, hrewrites, hstatus, -⟩ := h.rewrites
  exact hf.rewrites hrewrites hstatus h.version h.currentNode h.visits h.isOpen

theorem AsksOk.updateRow (hf : AsksOk specs f) (hversion : (p f.row).version = f.row.version)
    (hnode : (p f.row).currentNode = f.row.currentNode) (hvisits : (p f.row).visits = f.row.visits)
    (hopen : (p f.row).state.isOpen = f.row.state.isOpen) : AsksOk specs (f.updateRow p) := by
  have hsteady : Steady (fun _ => False) f (f.updateRow p) :=
    steady_updateRow f hversion hnode hvisits hopen
  exact hf.steady hsteady

theorem AsksOk.resolveWait (hf : AsksOk specs f) (id : Nat) (resolution : String)
    (context : Record) (clock : Instant) :
    AsksOk specs (f.resolveWait id resolution context clock) := by
  have hsteady : Steady (fun _ => False) f (f.resolveWait id resolution context clock) :=
    steady_resolveWait f id resolution context clock
  exact hf.steady hsteady

/-- An end leaves nothing to approve. -/
theorem actCase_finish (hf : AsksOk specs f) (a : FileAct) (reason : String) (clock : Instant) :
    ActCase specs a f (f.finish reason clock) := by
  cases hopen : f.row.state.isOpen with
  | true =>
    exact .ended (isOpen_finish f reason clock)
      ((hf.finish reason clock).ended (isOpen_finish f reason clock))
  | false =>
    unfold EnrollmentFile.finish
    rw [hopen, if_neg Bool.false_ne_true]
    exact .steady (.refl f)

/-- The record of an error leaves a run where it stands, or ends it. -/
theorem recordStepError_cases {message : String}
    {now : Instant} (h : f.recordStepError specs' message now clock = .ok g) :
    Steady touched f g ∨
      ∃ k : EnrollmentFile, k.row.state.isOpen = true ∧ g = k.finish "step_failed" clock := by
  rcases EnrollmentFile.recordStepError_eq_ok h with rfl | ⟨hactive, k, hk, hcase⟩
  · exact .inl (.refl _)
  have hopen : k.row.state.isOpen = true := hk ▸ isOpen_iff.2 (.inl hactive)
  have hcounted : Steady touched f k := hk ▸ steady_updateRow f rfl rfl rfl rfl
  rcases hcase with ⟨_, rfl⟩ | ⟨l, hfailed, rfl⟩
  · exact .inl (hcounted.trans (steady_updateRow k rfl rfl rfl rfl))
  · refine .inr ⟨l, ?_, rfl⟩
    rcases EnrollmentFile.recordFailed_eq_ok hfailed with
      rfl | ⟨_, _, ⟨_, rfl⟩ | ⟨-, _, rfl⟩⟩ <;> exact hopen

theorem actCase_recordStepError {message : String} {now : Instant}
    (h : f.recordStepError specs' message now clock = .ok g) : ActCase specs a f g := by
  rcases recordStepError_cases h with hsteady | ⟨k, hopen, rfl⟩
  · exact .steady hsteady
  · have hended : AsksOk specs (k.finish "step_failed" clock) := asksOk_finish hopen _ _
    exact .ended (isOpen_finish k _ _) (hended.ended (isOpen_finish k _ _))

theorem actCase_handleReply {reply : Reply} (h : f.handleReply specs' reply clock = some g) :
    ActCase specs a f g := by
  rcases handleReply_eq_some h with
    rfl | ⟨hopen, _, lastMessage, _, -, hmem, ⟨_, _, -, -, -, rfl⟩ | ⟨wait, hkind, rfl⟩⟩
  · exact .steady (.refl _)
  · exact .entered hopen _
      ((rewrites_closeOpenSteps f "the contact replied" clock).trans (rewrites_updateRow _ _))
      (fun s => closed_closeStep _ _ s)
      (openWaits_closeOpenSteps f "the contact replied" clock) _ rfl rfl rfl
  · exact .reply hopen lastMessage hmem wait hkind clock _ rfl fun e => ⟨rfl, rfl, rfl, rfl⟩

theorem steady_submit {seen : StepRun} {input : Submission}
    (h : f.submit specs' seen input clock = some g) :
    Steady (fun run => seen.id = run) f g := by
  obtain ⟨_, _, _, _, hsubmitted⟩ := submit_eq_some h
  rw [hsubmitted.file]
  exact ((steady_updateRow f rfl rfl rfl rfl).trans (steady_output _ seen.id _)).trans
    (steady_resolveWait _ _ _ _ _)

theorem steady_decideApproval {id : Nat} {approve : Bool}
    (h : f.decideApproval id approve clock = some g) : Steady touched f g := by
  unfold EnrollmentFile.decideApproval at h
  obtain ⟨approval, -, rfl⟩ := Option.map_eq_some_iff.1 h
  have hdecided : Steady touched f _ := steady_updateApprovals f
    (fun a => decide (a.id = id) && decide (a.status = .pending))
    (if approve then .approved else .rejected)
    fun a ha => of_decide_eq_true (Bool.and_eq_true_iff.1 ha).2
  dsimp only
  split
  · exact hdecided
  · exact hdecided.trans (steady_resolveWait _ _ _ _ _)

/-- **A move to another version**: of a run that goes on at its step, the node there has the type
that it had; any other run enters a node. -/
theorem actCase_move (ha : a.Moves) {fromSpec toSpec : JourneySpec}
    {plan : EnrollmentFile.PlannedMove} {toVersion : Nat} (now : Instant)
    (hfrom : specs plan.version = some fromSpec) (hto : specs toVersion = some toSpec)
    (htype : plan.resumes = true → (fromSpec.node plan.currentNode).map (·.type) =
      (toSpec.node plan.currentNode).map (·.type)) :
    ActCase specs a f (f.move plan toVersion now) := by
  rcases move_cases f plan toVersion now with
    hsame | ⟨hversion, hcurrent, hopen, _, ⟨hresumes, hmove⟩ | hmove⟩
  · rw [hsame]
    exact .steady (.refl f)
  · rw [hmove]
    refine .moved hopen ha _ rfl ⟨rfl, rfl, rfl, fun current hat => ?_⟩
    obtain rfl : plan.currentNode = current := Option.some.inj (hcurrent.symm.trans hat)
    exact ⟨fromSpec, toSpec, hversion ▸ hfrom, hto, htype hresumes⟩
  · have hdone := (rewrites_cancelWaits f now).trans
      (rewrites_updateSteps (f.cancelWaits now) (·.status.isOpen)
        (q := fun s => { s with
          status := .completed, reason := some ("moved to v" ++ toString toVersion)
          finishedAt := now }) fun _ => ⟨rfl, rfl, rfl, rfl⟩)
    rw [hmove]
    refine .entered hopen _ (hdone.trans (rewrites_updateRow _ _)) (fun s => ?_)
      (openWaits_cancelWaits f now) _ rfl rfl rfl
    simp only [Function.comp_apply, id_eq]
    split
    · rfl
    · rename_i hclosed
      exact Bool.eq_false_iff.2 hclosed

/-- **What a step on a file comes to.** -/
theorem act_cases (hf : AsksOk specs f) (h : a.apply specs f = some g) : ActCase specs a f g := by
  cases a with
  | recordStepError message now clock =>
    exact actCase_recordStepError (recordStepError_of_apply h)
  | reschedule now =>
    cases h
    exact .steady (steady_updateRow f rfl rfl rfl rfl)
  | resolveWait id resolution cause clock =>
    cases h
    exact .steady (steady_resolveWait f _ _ _ _)
  | event e clock =>
    cases h
    exact .steady (steady_onEvent f e clock)
  | reply r clock => exact actCase_handleReply h
  | submit seen input clock => exact .steady (steady_submit h)
  | decideApproval id approve clock => exact .steady (steady_decideApproval h)
  | rememberThread conversationId =>
    cases h
    unfold EnrollmentFile.rememberThread
    split
    · exact .steady (steady_updateRow f rfl rfl rfl rfl)
    · exact .steady (.refl f)
  | markGoal clock =>
    cases h
    unfold EnrollmentFile.markGoal
    split
    · exact .steady (steady_updateRow f rfl rfl rfl rfl)
    · exact .steady (.refl f)
  | finish reason clock =>
    cases h
    exact actCase_finish hf _ _ _
  | move toVersion nodeMap seen held now =>
    obtain ⟨fromSpec, hfrom, h⟩ := Option.bind_eq_some_iff.1 h
    obtain ⟨toSpec, hto, rfl⟩ := Option.map_eq_some_iff.1 h
    split
    · exact .steady (.refl f)
    · rename_i plan hplan
      obtain ⟨hversion, htype⟩ := planMove_eq_some hplan
      exact actCase_move (by trivial) now (hversion ▸ hfrom) hto htype
  | resumeNode node clock =>
    cases h
    unfold EnrollmentFile.resumeNode
    split
    · exact .steady (steady_updateRow f rfl rfl rfl rfl)
    · exact .steady (.refl f)
  | purgeTraces =>
    cases h
    rcases purgeTraces_cases f with hsame | ⟨hclosed, hpurged⟩
    · rw [hsame]
      exact .steady (.refl f)
    · rw [hpurged]
      exact .ended hclosed (hf.ended hclosed)

/-- A run that goes on at its step in another version. -/
theorem AsksOk.moved (hf : AsksOk specs f) (hopen : f.row.state.isOpen = true)
    (hstays : StaysAtStep specs p f.row) : AsksOk specs (f.updateRow p) := by
  have hstanding := hf.standing hopen
  obtain ⟨hstate, hnode, hvisits, htype⟩ := hstays
  have hrow : (f.updateRow p).row = p f.row := rfl
  have hat : ∀ s, (f.updateRow p).row.AtVisit s ↔ f.row.AtVisit s := by
    intro s
    unfold Enrollment.AtVisit
    rw [hrow, hnode, hvisits]
  refine asksOk_of_open ((hf.records hopen).rewrites (rewrites_updateRow f p)) ?_
    (by rw [hrow, hstate, hopen])
  refine
    { counted := fun s hs => ?_, entered := fun node hcurrent => ?_
      current := fun s hs ho => (hat s).2 (hstanding.current s hs ho)
      resumable := fun s hs hvisit => hstanding.resumable s hs ((hat s).1 hvisit)
      typed := fun s hs ho => ?_, retrying := hstanding.retrying
      waiting := hstanding.waiting, asking := hstanding.asking }
  · rw [hrow, hvisits]
    exact hstanding.counted s hs
  · rw [hrow, hnode] at hcurrent
    rw [hrow, hvisits]
    exact hstanding.entered node hcurrent
  · obtain ⟨spec, node, hspec, hfound, hstype⟩ := hstanding.typed s hs ho
    obtain ⟨fromSpec, toSpec, hfrom, hto, hsame⟩ := htype _ (hstanding.current s hs ho).1
    obtain rfl : fromSpec = spec := Option.some.inj (hfrom.symm.trans hspec)
    rw [hfound, Option.map_some] at hsame
    obtain ⟨node', hnode', htype'⟩ := Option.map_eq_some_iff.1 hsame.symm
    exact ⟨toSpec, node', hto, hnode', by rw [hstype, htype']⟩

/-- **Every step on a file** keeps the invariant. -/
theorem asksOk_apply (hf : AsksOk specs f) (h : a.apply specs f = some g) : AsksOk specs g := by
  cases act_cases hf h with
  | ended hclosed hnone => exact asksOk_of_ended hclosed hnone
  | steady hsteady => exact hf.steady hsteady
  | entered hopen onStep hrewrites hclosed hnone node hnode hvisits hg =>
    exact hf.enter hopen hrewrites (fun s _ => hclosed s) hnone hnode hvisits hg
  | moved hopen hmoves p hg hstays => exact hg ▸ hf.moved hopen hstays
  | reply hopen run hrun wait hkind clock p hg hrow =>
    subst hg
    obtain ⟨hversion, hnode, hvisits, hstate⟩ := hrow (f.openWait run.id wait clock).row
    have hrecords := hf.records hopen
    refine AsksOk.updateRow ?_ hversion hnode hvisits (by rw [hstate])
    refine asksOk_of_open (hrecords.openWait (hrecords.fresh run hrun) ?_
      (fun hno => absurd hkind hno) ?_ ?_) ((hf.standing hopen).openReply hkind) rfl
    all_goals
      rw [hkind]
      intro hno
      cases hno

end Acts

/-! ### Executions -/

/-- An outcome that asks nobody; only actions are tried again. -/
def Outcome.Silent (node : JourneyNode) : Outcome → Prop
  | .wait w _ _ => w.kind.asks = false
  | .retry .. => node.type = .action
  | .advance .. | .exit .. => True

/-- What an execution does to the approvals, and whom it asks. Only a step that no wait resumes
asks: of the kind of its node. -/
inductive ExecutesAsking (step : StepContext) (node : JourneyNode) (f g : EnrollmentFile)
    (outcome : Outcome) : Prop
  | silent (onApproval : JourneyApproval → JourneyApproval)
      (happrovals : g.approvals = f.approvals.map onApproval)
      (hsame : ∀ a, SameApproval a (onApproval a)) (hnext : g.nextId = f.nextId)
      (hsilent : outcome.Silent node)
  | agent (hresumed : step.resumed = none) (htype : node.type = .agent ∨ node.type = .message)
      (hfile : g = f) (wait : WaitSpec) (output : Option Record) (reason : Option String)
      (houtcome : outcome = .wait wait output reason) (hkind : wait.kind = .agent)
  | approval (hresumed : step.resumed = none) (htype : node.type = .approval)
      (a : JourneyApproval) (hrun : a.stepRunId = step.run.id) (wait : WaitSpec)
      (output : Option Record) (reason : Option String)
      (houtcome : outcome = .wait wait output reason) (hkind : wait.kind = .approval)
      (hpayload : wait.payload = [("approvalId", .str (toString a.id))])
      (hfile : a ∈ f.approvals ∧ g = f ∨
        (∀ b ∈ f.approvals, b.stepRunId ≠ step.run.id) ∧ a.id = f.nextId ∧
          g = { f with approvals := f.approvals ++ [a], nextId := f.nextId + 1 })

section Executions

variable {env : StepEnv} {step : StepContext} {f g : EnrollmentFile} {outcome : Outcome}

theorem executesAsking_silent {node : JourneyNode} (happrovals : g.approvals = f.approvals)
    (hnext : g.nextId = f.nextId) (hsilent : outcome.Silent node) :
    ExecutesAsking step node f g outcome :=
  .silent id (by rw [happrovals, List.map_id]) .refl hnext hsilent

theorem requestAgent_eq (env : StepEnv) (step : StepContext) (timeout : String) (output : Record)
    (reason : String) : ∃ wait output' reason',
      requestAgent env step timeout output reason = .wait wait output' reason' ∧
        wait.kind = .agent := by
  unfold requestAgent
  split <;> exact ⟨_, _, _, rfl, rfl⟩

theorem silent_awaitChatSeen (env : StepEnv) (node : MessageNode) (previous : Record)
    (proposalId : Option Json) :
    (awaitChatSeen env node previous proposalId).Silent (.message node) := by
  unfold awaitChatSeen
  dsimp only
  split
  · trivial
  · rfl

theorem silent_companyMessageOutcome (env : StepEnv) (step : StepContext) (node : MessageNode)
    (resolution : Option String) :
    (companyMessageOutcome env step node resolution).Silent (.message node) := by
  unfold companyMessageOutcome
  dsimp only
  repeat' split
  all_goals first
    | rfl
    | trivial

theorem silent_resumeMessage (env : StepEnv) (step : StepContext) (node : MessageNode)
    (previous : Record) (wait : JourneyWait) :
    (resumeMessage env step node previous wait).Silent (.message node) := by
  unfold resumeMessage
  repeat' split
  all_goals first
    | exact silent_awaitChatSeen _ _ _ _
    | rfl
    | trivial

/-- What is sent asks nobody, and leaves the approvals alone. -/
theorem silent_sendMessage (env : StepEnv) (step : StepContext) (node : MessageNode)
    (previous : Record) (f : EnrollmentFile) :
    (sendMessage env step node previous f).1.approvals = f.approvals ∧
      (sendMessage env step node previous f).1.nextId = f.nextId ∧
      (sendMessage env step node previous f).2.Silent (.message node) := by
  have hthread : ∀ (k : EnrollmentFile) conversationId,
      (k.rememberThread conversationId).approvals = k.approvals ∧
        (k.rememberThread conversationId).nextId = k.nextId := by
    intro k conversationId
    unfold EnrollmentFile.rememberThread
    split <;> exact ⟨rfl, rfl⟩
  unfold sendMessage
  split
  · exact ⟨rfl, rfl, trivial⟩
  · split
    · exact ⟨rfl, rfl, trivial⟩
    · dsimp only
      split
      · split
        · exact ⟨rfl, rfl, silent_awaitChatSeen env node previous (some (.str _))⟩
        · split
          · exact ⟨(hthread _ _).1, (hthread _ _).2, trivial⟩
          · exact ⟨rfl, rfl, trivial⟩
      · exact ⟨rfl, rfl, trivial⟩
      · exact ⟨rfl, rfl, rfl⟩

theorem asking_executeMessage (env : StepEnv) (step : StepContext) (node : MessageNode)
    (f : EnrollmentFile) : ExecutesAsking step (.message node) f
      (executeMessage env step node f).1 (executeMessage env step node f).2 := by
  unfold executeMessage executeCompanyMessage
  dsimp only
  split
  · split
    · exact executesAsking_silent rfl rfl (silent_companyMessageOutcome _ _ _ _)
    · split
      · exact executesAsking_silent rfl rfl trivial
      · split
        · exact executesAsking_silent rfl rfl trivial
        · exact executesAsking_silent rfl rfl (silent_companyMessageOutcome _ _ _ _)
  · split
    · split
      · rename_i hresumed
        split
        · exact executesAsking_silent rfl rfl trivial
        · obtain ⟨wait, output, reason, heq, hkind⟩ := requestAgent_eq env step node.draftTimeout
            [("draftRequested", .bool true),
              ("inputs", inputsJson (node.draftInputs.getD [.contact, .events]))]
            "waiting for the agent to draft"
          exact .agent hresumed (.inr rfl) rfl wait output reason heq hkind
      · obtain ⟨happrovals, hnext, hsilent⟩ := silent_sendMessage env step node step.run.output f
        exact executesAsking_silent happrovals hnext hsilent
    · split
      · exact executesAsking_silent rfl rfl (silent_resumeMessage _ _ _ _ _)
      · obtain ⟨happrovals, hnext, hsilent⟩ := silent_sendMessage env step node step.run.output f
        exact executesAsking_silent happrovals hnext hsilent

theorem asking_executeApproval (env : StepEnv) (step : StepContext) (node : ApprovalNode)
    (f : EnrollmentFile) : ExecutesAsking step (.approval node) f
      (executeApproval env step node f).1 (executeApproval env step node f).2 := by
  unfold executeApproval
  split
  · split
    · exact executesAsking_silent rfl rfl trivial
    · split
      · dsimp only
        refine executesAsking_silent rfl rfl ?_
        split <;> trivial
      · have hexpired := rewrites_updateApprovals f
          (fun a => decide (a.stepRunId = step.run.id) && decide (a.status = .pending)) .expired
          fun a ha => of_decide_eq_true (Bool.and_eq_true_iff.1 ha).2
        obtain ⟨onApproval, happrovals, hsame⟩ := hexpired.approvals
        refine .silent onApproval happrovals hsame rfl ?_
        dsimp only
        split <;> trivial
  · rename_i hresumed
    dsimp only
    cases hfind : f.approvals.find? (·.stepRunId = step.run.id) with
    | some a =>
      have hrun : a.stepRunId = step.run.id := by simpa using List.find?_some hfind
      exact .approval hresumed rfl a hrun _ _ _ rfl rfl rfl
        (.inl ⟨List.mem_of_find?_eq_some hfind, rfl⟩)
    | none =>
      have hfresh : ∀ b ∈ f.approvals, b.stepRunId ≠ step.run.id := by
        simpa using List.find?_eq_none.1 hfind
      exact .approval hresumed rfl { id := f.nextId, stepRunId := step.run.id } rfl _ _ _ rfl rfl
        rfl (.inr ⟨hfresh, rfl, rfl⟩)

/-- **Whom a step asks.** -/
theorem asking_execute {node : JourneyNode} (h : execute env step node f = .ok (g, outcome)) :
    ExecutesAsking step node f g outcome := by
  cases node with
  | message n =>
    have hg : (executeMessage env step n f).1 = g := congrArg Prod.fst (Except.ok.inj h)
    have ho : (executeMessage env step n f).2 = outcome := congrArg Prod.snd (Except.ok.inj h)
    exact hg ▸ ho ▸ asking_executeMessage env step n f
  | approval n =>
    have hg : (executeApproval env step n f).1 = g := congrArg Prod.fst (Except.ok.inj h)
    have ho : (executeApproval env step n f).2 = outcome := congrArg Prod.snd (Except.ok.inj h)
    exact hg ▸ ho ▸ asking_executeApproval env step n f
  | agent n =>
    cases h
    -- An agent is asked where no wait resumes the step, in either mode.
    unfold executeAgent
    dsimp only
    split
    · exact executesAsking_silent rfl rfl trivial
    · rename_i hresumed
      obtain ⟨wait, output, reason, heq, hkind⟩ := requestAgent_eq env step n.timeout
        [("inputs", inputsJson n.inputs)] "waiting for the agent to fill fields"
      exact .agent hresumed (.inl rfl) rfl wait output reason heq hkind
    · split <;> exact executesAsking_silent rfl rfl trivial
    · rename_i hresumed
      obtain ⟨wait, output, reason, heq, hkind⟩ := requestAgent_eq env step n.timeout
        [("inputs", inputsJson n.inputs)] "waiting for the agent to decide"
      exact .agent hresumed (.inl rfl) rfl wait output reason heq hkind
  | split n =>
    simp only [execute] at h
    cases hs : executeSplit env step n with
    | error e => simp [hs, Except.map] at h
    | ok o =>
      rw [hs] at h
      cases h
      refine executesAsking_silent rfl rfl ?_
      unfold executeSplit at hs
      dsimp only at hs
      repeat' split at hs
      all_goals cases hs
      all_goals trivial
  | wait n =>
    cases h
    refine executesAsking_silent rfl rfl ?_
    unfold executeWait
    dsimp only
    repeat' split
    all_goals first
      | rfl
      | trivial
  | waitFor n =>
    cases h
    refine executesAsking_silent rfl rfl ?_
    unfold executeWaitFor
    repeat' split
    all_goals first
      | rfl
      | trivial
  | branch n =>
    cases h
    refine executesAsking_silent rfl rfl ?_
    unfold executeBranch
    split <;> trivial
  | goal n =>
    cases h
    have hmark : (f.markGoal env.clock).approvals = f.approvals ∧
        (f.markGoal env.clock).nextId = f.nextId := by
      unfold EnrollmentFile.markGoal
      split <;> exact ⟨rfl, rfl⟩
    refine executesAsking_silent hmark.1 hmark.2 ?_
    split <;> trivial
  | action n =>
    cases h
    refine executesAsking_silent rfl rfl ?_
    unfold executeAction
    repeat' split
    all_goals first
      | rfl
      | trivial
  | subJourney n =>
    have hg : (executeSubJourney env step n f).1 = g := congrArg Prod.fst (Except.ok.inj h)
    have ho : (executeSubJourney env step n f).2 = outcome := congrArg Prod.snd (Except.ok.inj h)
    subst hg ho
    unfold executeSubJourney
    dsimp only
    repeat' split
    all_goals first
      | exact executesAsking_silent rfl rfl trivial
      | exact executesAsking_silent rfl rfl rfl
  | jump n | exit n =>
    cases h
    exact executesAsking_silent rfl rfl trivial

end Executions

/-! ### Visits -/

/-- Where an enrollment stands while one of its step runs is executed. -/
structure VisitOk (specs : Nat → Option JourneySpec) (f : EnrollmentFile) (node : JourneyNode)
    (run : Nat) : Prop where
  counted : ∀ s ∈ f.steps, ∃ n, f.row.visits.get s.nodeId = some (.count n) ∧ s.visit ≤ n
  entered : ∀ node, f.row.currentNode = some node → (f.row.visits.get node).isSome
  current : f.row.currentNode = some node.id
  present : ∃ s ∈ f.steps, s.id = run
  visit : ∀ s ∈ f.steps, s.id = run → f.row.AtVisit s ∧ s.nodeType = some node.type
  others : ∀ s ∈ f.steps, s.id ≠ run → s.status.isOpen = false ∧ ¬ f.row.AtVisit s
  typed : ∃ spec, specs f.row.version = some spec ∧ spec.node node.id = some node

section Visits

variable {specs : Nat → Option JourneySpec} {f g : EnrollmentFile} {env : StepEnv}
  {spec : JourneySpec} {node : JourneyNode} {visit : Nat}

/-- The newest of some waits is one of them. -/
theorem newest_mem (waits : List JourneyWait) (best : Option JourneyWait)
    (h : best.isSome ∨ waits ≠ []) :
    ∃ w, waits.foldl (fun best w =>
        if best.any fun b => w.createdAt < b.createdAt then best else some w) best = some w ∧
      (w ∈ waits ∨ best = some w) := by
  induction waits generalizing best with
  | nil =>
    obtain ⟨w, hw⟩ := Option.isSome_iff_exists.1 (h.resolve_right fun hne => hne rfl)
    exact ⟨w, hw, .inr hw⟩
  | cons v vs ih =>
    rw [List.foldl_cons]
    split
    · rename_i hnewer
      have hbest : best.isSome := by
        cases best with
        | none => cases hnewer
        | some b => rfl
      obtain ⟨w, hw, hmem⟩ := ih best (.inl hbest)
      exact ⟨w, hw, hmem.imp_left (List.mem_cons_of_mem v)⟩
    · obtain ⟨w, hw, hmem⟩ := ih (some v) (.inl rfl)
      refine ⟨w, hw, .inl ?_⟩
      rcases hmem with hmem | hmem
      · exact List.mem_cons_of_mem v hmem
      · exact Option.some.inj hmem ▸ List.mem_cons_self

variable {run : Nat}

/-- A step whose waits are all resolved has a newest one. -/
theorem latestWait_isSome (hsome : f.waitsOf run ≠ []) (hnone : f.openWaits = []) :
    (f.latestWait run).isSome := by
  obtain ⟨w, hw, hmem⟩ := newest_mem (f.waitsOf run) none (.inr hsome)
  have hmem' : w ∈ f.waits := by
    rcases hmem with hmem | hmem
    · exact List.mem_of_mem_filter hmem
    · cases hmem
  have hresolved : w.isOpen = false := by
    refine Bool.eq_false_iff.2 fun hopen => ?_
    have hin : w ∈ f.openWaits := List.mem_filter.2 ⟨hmem', hopen⟩
    simp [hnone] at hin
  have hsome' : w.resolvedAt.isSome = true := by
    simpa [JourneyWait.isOpen] using hresolved
  have hlatest : f.latestWait run = (some w).filter (·.resolvedAt.isSome) :=
    congrArg (Option.filter fun v : JourneyWait => v.resolvedAt.isSome) hw
  rw [hlatest, Option.filter_some, if_pos hsome']
  rfl

/-- Two step runs of one visit are one. -/
theorem RecordsOk.eq_of_visit (hf : RecordsOk f) {s t : StepRun} (hs : s ∈ f.steps)
    (ht : t ∈ f.steps) (hs' : f.row.AtVisit s) (ht' : f.row.AtVisit t) : s = t := by
  have hnode : s.nodeId = t.nodeId := Option.some.inj (hs'.1.symm.trans ht'.1)
  have hvisit : s.visit = t.visit := by
    have hcount := hs'.2.symm.trans (hnode ▸ ht'.2)
    simpa using hcount
  exact List.inj_on_of_nodup_map hf.keys hs ht (by rw [hnode, hvisit])

/-- The run of a visit that was not there before. -/
theorem RecordsOk.insertRun (hf : RecordsOk f) {run : StepRun} {executed : Bool}
    (hid : run.id = f.nextId) (hnew : f.visitRun run.nodeId run.visit = none) :
    RecordsOk (f.insertRun run executed) := by
  have hkeep : ∀ {P : StepRun → Prop}, (∃ s ∈ f.steps, P s) →
      ∃ s ∈ (f.insertRun run executed).steps, P s := by
    rintro P ⟨s, hs, hP⟩
    exact ⟨s, List.mem_append_left _ hs, hP⟩
  refine
    { ids := ?_, keys := ?_, fresh := fun s hs => ?_
      waitFresh := fun w hw => Nat.lt_succ_of_lt (hf.waitFresh w hw)
      waitType := fun w hw hasks => hkeep (hf.waitType w hw hasks)
      asksFirst := hf.asksFirst, named := hf.named
      approvalFresh := fun a ha => Nat.lt_succ_of_lt (hf.approvalFresh a ha)
      approvalIds := hf.approvalIds, approvalRuns := hf.approvalRuns
      approvalType := fun a ha => hkeep (hf.approvalType a ha) }
  · have hmap : (f.insertRun run executed).steps.map (·.id) = f.steps.map (·.id) ++ [run.id] :=
      List.map_append ..
    rw [hmap]
    refine List.nodup_append.2 ⟨hf.ids, List.nodup_singleton _, fun a ha b hb => ?_⟩
    obtain ⟨s, hs, rfl⟩ := List.mem_map.1 ha
    rw [List.mem_singleton.1 hb, hid]
    exact Nat.ne_of_lt (hf.fresh s hs)
  · have hmap : (f.insertRun run executed).steps.map (fun s => (s.nodeId, s.visit)) =
        f.steps.map (fun s => (s.nodeId, s.visit)) ++ [(run.nodeId, run.visit)] :=
      List.map_append ..
    rw [hmap]
    refine List.nodup_append.2 ⟨hf.keys, List.nodup_singleton _, fun a ha b hb heq => ?_⟩
    obtain ⟨s, hs, rfl⟩ := List.mem_map.1 ha
    rw [List.mem_singleton.1 hb] at heq
    obtain ⟨hnode, hvisit⟩ := Prod.mk.inj heq
    exact visitRun_eq_none hnew ⟨s, hs, hnode, hvisit⟩
  · have hnext : (f.insertRun run executed).nextId = f.nextId + 1 := rfl
    rw [hnext]
    rcases List.mem_append.1 hs with hs | hs
    · exact Nat.lt_succ_of_lt (hf.fresh s hs)
    · rw [List.mem_singleton.1 hs, hid]
      exact Nat.lt_succ_self _

/-- **A visit begins**, or its run is found again. A run that no wait resumes has none yet, save an
action's. -/
theorem visitOk_enterRun (hrecords : RecordsOk f) (hf : StandingOk specs f)
    (hnone : f.openWaits = []) (hspec : specs f.row.version = some spec)
    (hnode : spec.node node.id = some node) (hcurrent : f.row.currentNode = some node.id)
    (hvisit : f.row.visits.current node.id = .count visit) :
    RecordsOk (f.enterRun node visit).1 ∧
      VisitOk specs (f.enterRun node visit).1 node (f.enterRun node visit).2.1.id ∧
      ((f.enterRun node visit).2.2.1 = none → node.type ≠ .action →
        (f.enterRun node visit).1.waitsOf (f.enterRun node visit).2.1.id = []) := by
  have hat : ∀ s : StepRun, s.nodeId = node.id → s.visit = visit → f.row.AtVisit s :=
    fun _ => hf.atVisit hcurrent hvisit
  have hcount : f.row.visits.get node.id = some (.count visit) :=
    (hat (f.newRun node visit) rfl rfl).2
  unfold EnrollmentFile.enterRun
  split
  -- The visit's run is there already: its step waits or is tried again.
  · rename_i run hfind
    obtain ⟨hmem, hkey⟩ := visitRun_eq_some hfind
    have hrun := hat run hkey.1 hkey.2
    have hresumable := hf.resumable run hmem hrun
    have hopen : run.status.isOpen = true := by
      rcases hresumable with h | h <;> rw [h] <;> rfl
    have htype : run.nodeType = some node.type := by
      obtain ⟨spec', node', hspec', hnode', htype⟩ := hf.typed run hmem hopen
      obtain rfl := Option.some.inj (hspec.symm.trans hspec')
      rw [hkey.1, hnode] at hnode'
      rw [htype, Option.some.inj hnode']
    have hsame : ∀ s ∈ f.steps, s.id = run.id → s = run :=
      fun s hs hid => List.inj_on_of_nodup_map hrecords.ids hs hmem hid
    refine ⟨hrecords,
      ⟨hf.counted, hf.entered, hcurrent, ⟨run, hmem, rfl⟩, ?_, ?_, spec, hspec, hnode⟩, ?_⟩
    · intro s hs hid
      rw [hsame s hs hid]
      exact ⟨hrun, htype⟩
    · intro s hs hid
      have hnot : ¬ f.row.AtVisit s := by
        intro hs'
        exact hid (by rw [hrecords.eq_of_visit hs hmem hs' hrun])
      refine ⟨Bool.eq_false_iff.2 fun hso => hnot (hf.current s hs hso), hnot⟩
    · intro hresumed hother
      rcases hresumable with hwaiting | hretrying
      · -- A step that waits is resumed by its newest wait.
        have hlatest := latestWait_isSome (hf.waiting run hmem hwaiting) hnone
        simp only [hwaiting, if_true] at hresumed
        rw [hresumed] at hlatest
        cases hlatest
      · have haction := hf.retrying run hmem hretrying
        rw [htype] at haction
        exact absurd (Option.some.inj haction) hother
  · rename_i hfind
    refine ⟨hrecords.insertRun rfl hfind,
      ⟨?_, hf.entered, hcurrent, ?_, ?_, ?_, spec, hspec, hnode⟩, ?_⟩
    · intro s hs
      rcases List.mem_append.1 hs with hs | hs
      · exact hf.counted s hs
      · rw [List.mem_singleton.1 hs]
        exact ⟨visit, hcount, Nat.le_refl _⟩
    · exact ⟨_, List.mem_append_right _ (List.mem_singleton_self _), rfl⟩
    · intro s hs hid
      rcases List.mem_append.1 hs with hs | hs
      · exact absurd hid (Nat.ne_of_lt (hrecords.fresh s hs))
      · rw [List.mem_singleton.1 hs]
        exact ⟨hat _ rfl rfl, rfl⟩
    · intro s hs hid
      rcases List.mem_append.1 hs with hs | hs
      · have hnot : ¬ f.row.AtVisit s := by
          rintro ⟨hs', hs''⟩
          have hnodeId : s.nodeId = node.id := Option.some.inj (hs'.symm.trans hcurrent)
          have hcount' := hs''.symm.trans (hnodeId ▸ hcount)
          exact visitRun_eq_none hfind ⟨s, hs, hnodeId, by simpa using hcount'⟩
        exact ⟨Bool.eq_false_iff.2 fun hso => hnot (hf.current s hs hso), hnot⟩
      · exact absurd (congrArg StepRun.id (List.mem_singleton.1 hs)) hid
    · intro _ _
      refine List.filter_eq_nil_iff.2 fun w hw => ?_
      have hlt : w.stepRunId ≠ f.nextId := Nat.ne_of_lt (hrecords.waitFresh w hw)
      have hid : (f.newRun node visit).id = f.nextId := rfl
      simp [hid, hlt]

/-- The run of a visit waits or tries again. -/
theorem VisitOk.standing (hf : VisitOk specs f node run)
    {onStep : StepRun → StepRun} (hsteps : g.steps = f.steps.map onStep)
    (hsame : ∀ s, SameRun s (onStep s)) (hversion : g.row.version = f.row.version)
    (hnode : g.row.currentNode = f.row.currentNode) (hvisits : g.row.visits = f.row.visits)
    (hother : ∀ s : StepRun, s.id ≠ run → (onStep s).status = s.status)
    (hstatus : ∀ s : StepRun, s.id = run →
      (onStep s).status = .waiting ∧ g.waitsOf run ≠ [] ∨
        (onStep s).status = .retrying ∧ node.type = .action)
    (hasking : ∀ w ∈ g.waits, w.isOpen = true → w.kind.asks = true → w.stepRunId = run ∧
      ∀ s : StepRun, s.id = run → (onStep s).status = .waiting) : StandingOk specs g := by
  have hat : ∀ s, g.row.AtVisit (onStep s) ↔ f.row.AtVisit s := by
    intro s
    unfold Enrollment.AtVisit
    rw [hnode, hvisits, (hsame s).nodeId, (hsame s).visit]
  have hmem : ∀ {P : StepRun → Prop}, (∀ s ∈ f.steps, P (onStep s)) → ∀ s ∈ g.steps, P s :=
    fun hP => hsteps ▸ List.forall_mem_map.2 hP
  have hrun : ∀ s ∈ f.steps, (onStep s).status.isOpen = true → s.id = run := by
    intro s hs hopen
    by_contra hid
    rw [hother s hid, (hf.others s hs hid).1] at hopen
    cases hopen
  refine
    { counted := hmem fun s hs => ?_, entered := ?_
      current := hmem fun s hs hopen => (hat s).2 (hf.visit s hs (hrun s hs hopen)).1
      resumable := hmem fun s hs hvisit => ?_, typed := hmem fun s hs hopen => ?_
      retrying := hmem fun s hs hretry => ?_, waiting := hmem fun s hs hwaiting => ?_
      asking := fun w hw hopen hasks => ?_ }
  · rw [hvisits, (hsame s).nodeId, (hsame s).visit]
    exact hf.counted s hs
  · rw [hnode, hvisits]
    exact hf.entered
  · have hid : s.id = run := by
      by_contra hid
      exact (hf.others s hs hid).2 ((hat s).1 hvisit)
    exact (hstatus s hid).imp And.left And.left
  · have hid := hrun s hs hopen
    obtain ⟨spec, hspec, hfound⟩ := hf.typed
    obtain ⟨hvisit, htype⟩ := hf.visit s hs hid
    have hnodeId : node.id = s.nodeId := Option.some.inj (hf.current.symm.trans hvisit.1)
    refine ⟨spec, node, hversion ▸ hspec, ?_, ?_⟩
    · rw [(hsame s).nodeId, ← hnodeId, hfound]
    · rw [(hsame s).nodeType, htype]
  · have hid := hrun s hs (by rw [hretry]; rfl)
    rcases hstatus s hid with ⟨hwaiting, -⟩ | ⟨-, haction⟩
    · rw [hwaiting] at hretry
      cases hretry
    · rw [(hsame s).nodeType, (hf.visit s hs hid).2, haction]
  · have hid := hrun s hs (by rw [hwaiting]; rfl)
    rcases hstatus s hid with ⟨-, hsome⟩ | ⟨hretry, -⟩
    · rwa [(hsame s).id, hid]
    · rw [hretry] at hwaiting
      cases hwaiting
  · obtain ⟨hstep, hwaiting⟩ := hasking w hw hopen hasks
    obtain ⟨s, hs, hid⟩ := hf.present
    refine ⟨onStep s, hsteps ▸ List.mem_map_of_mem hs, ?_, hwaiting s hid⟩
    rw [(hsame s).id, hid, hstep]

/-- An execution keeps where the enrollment stands. -/
theorem VisitOk.kept (hf : VisitOk specs f node run) (h : Kept f g) : VisitOk specs g node run := by
  obtain ⟨thread, goal, hrow⟩ := h.row
  obtain ⟨proposal, hsteps⟩ := h.steps
  have hat : ∀ s : StepRun, g.row.AtVisit s ↔ f.row.AtVisit s := by
    intro s
    rw [hrow]
    rfl
  have hmem : ∀ {P : StepRun → Prop},
      (∀ s ∈ f.steps, P { s with proposalId := proposal s }) → ∀ s ∈ g.steps, P s :=
    fun hP => hsteps ▸ List.forall_mem_map.2 hP
  refine
    { counted := hmem fun s hs => ?_, entered := ?_, current := ?_, present := ?_
      visit := hmem fun s hs hid => ?_, others := hmem fun s hs hid => ?_, typed := ?_ }
  · rw [hrow]
    exact hf.counted s hs
  · rw [hrow]
    exact hf.entered
  · rw [hrow]
    exact hf.current
  · obtain ⟨s, hs, hid⟩ := hf.present
    have hin := List.mem_map_of_mem
      (f := fun s : StepRun => { s with proposalId := proposal s }) hs
    exact ⟨{ s with proposalId := proposal s }, hsteps ▸ hin, hid⟩
  · obtain ⟨hvisit, htype⟩ := hf.visit s hs hid
    exact ⟨(hat _).2 hvisit, htype⟩
  · obtain ⟨hclosed, hnot⟩ := hf.others s hs hid
    exact ⟨hclosed, fun hvisit => hnot ((hat _).1 hvisit)⟩
  · rw [hrow]
    exact hf.typed

/-- An execution that inserts no approval only rewrites rows. -/
theorem Kept.rewrites (h : Kept f g)
    (happrovals : ∃ onApproval, g.approvals = f.approvals.map onApproval ∧
      ∀ a, SameApproval a (onApproval a)) (hnext : g.nextId = f.nextId) :
    ∃ onStep, Rewrites f g onStep := by
  obtain ⟨proposal, hsteps⟩ := h.steps
  exact ⟨_, hsteps, fun s => ⟨rfl, rfl, rfl, rfl⟩,
    ⟨id, by rw [h.waits, List.map_id], .refl⟩, happrovals, hnext⟩

/-- An approval that is asked for. -/
theorem RecordsOk.insertApproval (hf : RecordsOk f) {a : JourneyApproval} (hid : a.id = f.nextId)
    (hfresh : ∀ b ∈ f.approvals, b.stepRunId ≠ a.stepRunId)
    (htype : ∃ s ∈ f.steps, s.id = a.stepRunId ∧ s.nodeType = some .approval) :
    RecordsOk { f with approvals := f.approvals ++ [a], nextId := f.nextId + 1 } := by
  have hmem : ∀ {P : JourneyApproval → Prop}, (∀ b ∈ f.approvals, P b) → P a →
      ∀ b ∈ f.approvals ++ [a], P b :=
    fun hold hnew => List.forall_mem_append.2 ⟨hold, List.forall_mem_singleton.2 hnew⟩
  refine
    { ids := hf.ids, keys := hf.keys, fresh := fun s hs => Nat.lt_succ_of_lt (hf.fresh s hs)
      waitFresh := fun w hw => Nat.lt_succ_of_lt (hf.waitFresh w hw)
      waitType := hf.waitType, asksFirst := hf.asksFirst, named := fun w hw hkind => ?_
      approvalFresh := hmem (fun b hb => Nat.lt_succ_of_lt (hf.approvalFresh b hb)) ?_
      approvalIds := ?_, approvalRuns := ?_, approvalType := hmem hf.approvalType htype }
  · obtain ⟨b, hb, hrun, hpayload⟩ := hf.named w hw hkind
    exact ⟨b, List.mem_append_left _ hb, hrun, hpayload⟩
  · rw [hid]
    exact Nat.lt_succ_self _
  · rw [List.map_append, List.map_singleton]
    refine List.nodup_append.2 ⟨hf.approvalIds, List.nodup_singleton _, fun x hx y hy => ?_⟩
    obtain ⟨b, hb, rfl⟩ := List.mem_map.1 hx
    rw [List.mem_singleton.1 hy, hid]
    exact Nat.ne_of_lt (hf.approvalFresh b hb)
  · rw [List.map_append, List.map_singleton]
    refine List.nodup_append.2 ⟨hf.approvalRuns, List.nodup_singleton _, fun x hx y hy => ?_⟩
    obtain ⟨b, hb, rfl⟩ := List.mem_map.1 hx
    rw [List.mem_singleton.1 hy]
    exact hfresh b hb

/-- What is known of an outcome before it is written: only actions are tried again, and a wait that
asks is the first of its step. -/
def Admissible (f : EnrollmentFile) (node : JourneyNode) (run : Nat) : Outcome → Prop
  | .wait w _ _ => w.kind ≠ .conversationClose ∧
    (w.kind.asks = true → w.kind.Of (some node.type) ∧ f.waitsOf run = []) ∧
    (w.kind = .approval → ∃ a ∈ f.approvals, a.stepRunId = run ∧
      w.payload = [("approvalId", .str (toString a.id))])
  | .retry .. => node.type = .action
  | .advance .. | .exit .. => True

/-- A step's result, once its run is completed. -/
theorem asksOk_leave (hrecords : RecordsOk f) (hf : VisitOk specs f node run)
    (hnone : f.openWaits = []) (hopen : f.row.state.isOpen = true)
    {done : StepRun → StepRun} (hdone : ∀ s, SameRun s (done s))
    (hclosed : ∀ s, (done s).status = .completed) (outcome : Outcome)
    (houtcome : outcome.waitKind = none) (hretry : ∀ at' reason, outcome ≠ .retry at' reason) :
    AsksOk specs ((f.updateStepRun run done).leave env spec outcome).1 := by
  have hrewrites := rewrites_updateSteps f (fun s => decide (s.id = run)) hdone
  have hfinish : ∀ reason,
      AsksOk specs ((f.updateStepRun run done).finish reason env.clock) :=
    fun reason => asksOk_finish (f := f.updateStepRun run done) hopen reason env.clock
  unfold EnrollmentFile.leave
  split
  · exact hfinish _
  · split
    · exact hfinish _
    · refine asksOk_of_open
        (hrecords.rewrites (hrewrites.trans (rewrites_moveOn _ env spec _))) ?_ hopen
      refine standingOk_enter hf.counted (hrewrites.trans (rewrites_moveOn _ env spec _))
        (fun s hs => ?_) hnone rfl rfl
      simp only [Function.comp_apply, id_eq, decide_eq_true_eq]
      split
      · rw [hclosed]
        rfl
      · rename_i hid
        exact (hf.others s hs hid).1
  · cases houtcome
  · exact absurd rfl (hretry _ _)

/-- **What is written of an outcome** keeps the invariant. -/
theorem asksOk_settle (hrecords : RecordsOk f) (hf : VisitOk specs f node run)
    (hnone : f.openWaits = []) (hopen : f.row.state.isOpen = true) (attempt : Nat)
    {outcome : Outcome} (hadmissible : Admissible f node run outcome) :
    AsksOk specs (f.settle env spec run attempt outcome).1 := by
  have hno : ∀ w ∈ f.waits, w.isOpen = true → False := by
    intro w hw ho
    have hmem : w ∈ f.openWaits := List.mem_filter.2 ⟨hw, ho⟩
    simp [hnone] at hmem
  obtain ⟨s₀, hs₀, hid₀⟩ := hf.present
  have hrun : run < f.nextId := hid₀ ▸ hrecords.fresh s₀ hs₀
  unfold EnrollmentFile.settle
  split
  · rename_i at' reason
    have hstep := rewrites_updateSteps f (fun s => decide (s.id = run))
      (q := fun s => { s with status := .retrying, attempt, reason := some reason })
      fun _ => ⟨rfl, rfl, rfl, rfl⟩
    dsimp only
    refine asksOk_of_open (hrecords.rewrites (hstep.trans (rewrites_updateRow _ _))) ?_ hopen
    refine hf.standing hstep.steps hstep.same rfl rfl rfl (fun s hid => ?_) (fun s hid => ?_)
      fun w hw ho => (hno w hw ho).elim
    · simp [hid]
    · exact .inr ⟨by simp [hid], hadmissible⟩
  · rename_i wait output reason
    obtain ⟨hclose, hasks, hnamed⟩ := hadmissible
    have hstep := rewrites_updateSteps f (fun s => decide (s.id = run))
      (q := fun s => { s with
        status := .waiting, attempt, output := output.getD s.output
        reason := reason.orElse fun _ => s.reason }) fun _ => ⟨rfl, rfl, rfl, rfl⟩
    have hrecords' := hrecords.rewrites hstep
    refine asksOk_of_open (hrecords'.openWait hrun (fun h => ?_) (fun _ => hnone)
      (fun h => (hasks h).2) hnamed) ?_ rfl
    · refine ⟨_, hstep.steps ▸ List.mem_map_of_mem hs₀, ?_, ?_⟩
      · rw [(hstep.same s₀).id, hid₀]
      · rw [(hstep.same s₀).nodeType, (hf.visit s₀ hs₀ hid₀).2]
        exact (hasks h).1
    · refine hf.standing hstep.steps hstep.same rfl rfl rfl (fun s hid => ?_) (fun s hid => ?_)
        fun w hw ho hasks' => ?_
      · simp [hid]
      · refine .inl ⟨by simp [hid], ?_⟩
        rw [waitsOf_openWait, if_pos ⟨rfl, hclose⟩]
        simp
      · rcases List.mem_append.1 hw with hw | hw
        · exact (hno w hw ho).elim
        · exact ⟨by rw [List.mem_singleton.1 hw]; rfl, fun s hid => by simp [hid]⟩
  · rename_i edge to' output reason
    dsimp only
    refine asksOk_leave hrecords hf hnone hopen ?_ ?_ (.advance edge to' output reason) rfl nofun
    · exact fun _ => ⟨rfl, rfl, rfl, rfl⟩
    · exact fun _ => rfl
  · rename_i reason output
    dsimp only
    refine asksOk_leave hrecords hf hnone hopen ?_ ?_ (.exit reason output) rfl nofun
    · exact fun _ => ⟨rfl, rfl, rfl, rfl⟩
    · exact fun _ => rfl

/-- What an execution asks is admissible: a run that no wait resumes has none yet. -/
theorem admissible_execute {run : StepRun} {attempt : Nat} {resumed : Option JourneyWait}
    {e : Enrollment} {outcome : Outcome}
    (h : execute env { run, enrollment := e, spec, attempt, resumed } node f = .ok (g, outcome))
    (hrecords : RecordsOk f) (hf : VisitOk specs f node run.id)
    (hasks : resumed = none → node.type ≠ .action → f.waitsOf run.id = []) :
    RecordsOk g ∧ Admissible g node run.id outcome := by
  have hkept := kept_execute h
  have hclose := waitKind_execute h
  have hof : g.waitsOf run.id = f.waitsOf run.id := by
    rw [EnrollmentFile.waitsOf, EnrollmentFile.waitsOf, hkept.waits]
  cases asking_execute h with
  | silent onApproval happrovals hsame hnext hsilent =>
    obtain ⟨onStep, hrewrites⟩ := hkept.rewrites ⟨onApproval, happrovals, hsame⟩ hnext
    refine ⟨hrecords.rewrites hrewrites, ?_⟩
    cases outcome with
    | wait w output reason =>
      have hsilent' : w.kind.asks = false := hsilent
      refine ⟨fun hkind => hclose (congrArg some hkind), fun ha => ?_, fun hkind => ?_⟩
      · rw [hsilent'] at ha
        cases ha
      · rw [hkind] at hsilent'
        cases hsilent'
    | retry at' reason => exact hsilent
    | advance | exit => trivial
  | agent hresumed htype hfile w output reason houtcome hkind =>
    subst hfile houtcome
    refine ⟨hrecords, fun hclose' => ?_, fun _ => ⟨?_, ?_⟩, fun happroval => ?_⟩
    · rw [hkind] at hclose'
      cases hclose'
    · rw [hkind]
      exact htype.imp (congrArg some) (congrArg some)
    · refine hasks hresumed fun haction => ?_
      rcases htype with htype | htype <;> rw [htype] at haction <;> cases haction
    · rw [hkind] at happroval
      cases happroval
  | approval hresumed htype a hrun w output reason houtcome hkind hpayload hfile =>
    subst houtcome
    have hstep : ∃ s ∈ f.steps, s.id = a.stepRunId ∧ s.nodeType = some .approval := by
      obtain ⟨s, hs, hid⟩ := hf.present
      exact ⟨s, hs, hid.trans hrun.symm, by rw [(hf.visit s hs hid).2, htype]⟩
    have hnoaction : node.type ≠ .action := by
      rw [htype]
      decide
    have hadmissible : ∀ k : EnrollmentFile, a ∈ k.approvals → k.waitsOf run.id = [] →
        Admissible k node run.id (.wait w output reason) := by
      intro k ha hnone
      refine ⟨fun hclose' => ?_, fun _ => ⟨?_, hnone⟩, fun _ => ⟨a, ha, hrun, hpayload⟩⟩
      · rw [hkind] at hclose'
        cases hclose'
      · rw [hkind]
        exact congrArg some htype
    rcases hfile with ⟨ha, rfl⟩ | ⟨hfresh, hid, rfl⟩
    · exact ⟨hrecords, hadmissible _ ha (hasks hresumed hnoaction)⟩
    · refine ⟨hrecords.insertApproval hid (fun b hb => hrun ▸ hfresh b hb) hstep, ?_⟩
      exact hadmissible _ (List.mem_append_right _ (List.mem_singleton_self a))
        (hof.trans (hasks hresumed hnoaction))

theorem asksOk_runVisit (hf : AsksOk specs f) (hactive : f.row.state = .active)
    (hnone : f.openWaits = []) (hspec : specs f.row.version = some spec)
    (hnode : spec.node node.id = some node) (hcurrent : f.row.currentNode = some node.id)
    (hvisit : f.row.visits.current node.id = .count visit) {more : Bool}
    (h : f.runVisit env spec node visit = .ok (g, more)) : AsksOk specs g := by
  have hopen : f.row.state.isOpen = true := isOpen_iff.2 (.inl hactive)
  have hstanding := hf.standing hopen
  rcases EnrollmentFile.runVisit_cases h with
    ⟨-, rfl, -⟩ | ⟨run, hrun, hcompleted, -⟩ | ⟨k, outcome, hexec, hg⟩
  · exact hf.updateRow rfl rfl rfl rfl
  · -- The run of the current visit is open.
    obtain ⟨hmem, hkey⟩ := visitRun_eq_some hrun
    have hat : f.row.AtVisit run := hstanding.atVisit hcurrent hvisit hkey.1 hkey.2
    rcases hstanding.resumable run hmem hat with h | h <;> rw [hcompleted] at h <;> cases h
  · obtain ⟨hrecords, hvisitok, hasks⟩ := visitOk_enterRun (hf.records hopen) hstanding hnone hspec
      hnode hcurrent hvisit
    obtain ⟨hrow, hwaits⟩ := enterRun_frame f node visit
    have hkept := kept_execute hexec
    obtain ⟨hrecords', hadmissible⟩ := admissible_execute hexec hrecords hvisitok hasks
    have hknone : k.openWaits = [] := by
      rw [EnrollmentFile.openWaits, hkept.waits, ← EnrollmentFile.openWaits, hwaits, hnone]
    have hkopen : k.row.state.isOpen = true := by
      obtain ⟨thread, goal, hk⟩ := hkept.row
      rw [hk, hrow]
      exact hopen
    have hsettled : g = (k.settle env spec (f.enterRun node visit).2.1.id
      (f.enterRun node visit).2.2.2 outcome).1 := congrArg Prod.fst hg
    rw [hsettled]
    exact asksOk_settle hrecords' (hvisitok.kept hkept) hknone hkopen _ hadmissible

/-- **A node that runs** keeps the invariant. -/
theorem asksOk_runNode {late : Prop} (hf : AsksOk specs f) (hwaits : WaitsOk late f) {more : Bool}
    (h : f.runNode specs env = .ok (g, more)) : AsksOk specs g := by
  rcases EnrollmentFile.runNode_cases h with ⟨rfl, -⟩ | ⟨hactive, current, spec, hcurrent, hspec,
      ⟨reason, rfl, -⟩ | ⟨node, visit, hnode, hvisit, -, hrun⟩⟩
  · exact hf
  · exact hf.finish _ _
  · obtain ⟨rfl, -⟩ := node_eq_some hnode
    exact asksOk_runVisit hf hactive (hwaits.active hactive) hspec hnode hcurrent hvisit hrun

theorem AsksOk.clearErrors (hf : AsksOk specs f) : AsksOk specs f.clearErrors := by
  unfold EnrollmentFile.clearErrors
  split
  · exact hf.updateRow rfl rfl rfl rfl
  · exact hf

end Visits

/-! ### Every enrollment -/

/-- An enrollment that was just inserted. -/
theorem asksOk_file (specs : Nat → Option JourneySpec) (e : NewEnrollment) (spec : JourneySpec) :
    AsksOk specs (e.file spec) := by
  have hno : ∀ {α : Type} {P : α → Prop}, ∀ x ∈ ([] : List α), P x :=
    fun x hx => absurd hx List.not_mem_nil
  refine
    { records := fun _ => ⟨.nil, .nil, hno, hno, hno, hno, hno, hno, .nil, .nil, hno⟩
      standing := fun hopen => ⟨hno, fun node hnode => ?_, hno, hno, hno, hno, hno, hno⟩
      ended := fun _ => hno }
  simp only [NewEnrollment.file] at hopen hnode ⊢
  split at hnode
  · cases hnode
  · rename_i hheld
    obtain rfl := Option.some.inj hnode
    rw [if_neg hheld, Visits.get, List.lookup_cons_self]
    rfl

/-- The invariant of every file, with that of the waits. -/
def AsksAndWaits (specs : Specs) (f : EnrollmentFile) : Prop :=
  WaitsOk True f ∧ AsksOk (specs f.row.journeyId) f

variable {s : RuntimeState}

theorem asksAndWaits_step {specs : Specs} {t : RuntimeState}
    (hs : EveryFile (AsksAndWaits specs) s) {a : RuntimeStep}
    (h : (runtimeMachine specs).step s a = some t) : EveryFile (AsksAndWaits specs) t := by
  refine everyFile_step hs (fun e spec => ⟨waitsOk_file e spec, asksOk_file _ e spec⟩) ?_ ?_ ?_ h
  · intro f g env more hf hrun
    have hclear : NoNewAwait (specs f.row.journeyId) g g.clearErrors := noNewAwait_clearErrors g
    refine ⟨waitsOk_clearErrors (waitsOk_runNode hf.1 hrun), ?_⟩
    rw [hclear.journey, (told_runNode hf.1 hrun).1.journey]
    exact (asksOk_runNode hf.2 hf.1 hrun).clearErrors
  · intro id act running f g _ _ hf happly
    refine ⟨waitsOk_apply hf.1 (.inl trivial) happly, ?_⟩
    rw [(noNewAwait_apply happly).journey]
    exact asksOk_apply hf.2 happly
  · intro f event clock hf
    have hevent : NoNewAwait (specs f.row.journeyId) f (f.onEvent event clock) :=
      noNewAwait_onEvent f event clock
    refine ⟨waitsOk_onEvent hf.1 event clock, ?_⟩
    rw [hevent.journey]
    exact onEvent_rule hf.2 fun k w hk => hk.resolveWait _ _ _ _

/-- **In every state reached** the files keep the invariant. -/
theorem asksAndWaits_reachable {specs : Specs}
    (h : (runtimeMachine specs).Reachable NoEnrollments s) :
    EveryFile (AsksAndWaits specs) s := by
  refine h.invariant (I := EveryFile (AsksAndWaits specs)) (fun s hs id f hf => ?_)
    fun s t a _ hs _ hstep => asksAndWaits_step hs hstep
  rw [hs] at hf
  cases hf

end Munin
