import Munin.Journeys.Runtime.AnsweredSteps
import Mathlib.Data.Multiset.Count

/-!
# Messages to companies

A message step of a company's enrollment proposes one message for each recipient and waits until all
of these are decided. The proposals live in the outbox, which tells of every decision by an event;
the handling of an event looks whether any proposal of the step is open still.

* **`OutboxRow`, `ProposalEvent`, `Resolver`** — the rows of the outbox and of the inbox, and a
  transaction that has found a wait to resolve.
* **`CompanyState`, `companyMachine`** — an enrollment with its outbox and inbox; any step at any
  time.
* **`companyVerdict`** — what the decisions come to, as a multiset; `companyMessageOutcome_eq`: the
  step's outcome is that.
-/

namespace Munin

open Foundations

/-! ### The outbox and its events -/

deriving instance DecidableEq for RunProposal

/-- A proposal of a step's run, in the outbox. -/
structure OutboxRow where
  stepRunId : Nat
  proposal : RunProposal

/-- `PROPOSAL_RESOLUTIONS`, by the status that the event tells of. -/
def ProposalStatus.resolution : ProposalStatus → Option String
  | .sent => some "proposal_sent"
  | .dismissed => some "proposal_dismissed"
  | .withdrawn => some "proposal_withdrawn"
  | .failed => some "proposal_failed"
  | .pending | .approved => none

/-- A row of the inbox that tells of a proposal's decision. -/
structure ProposalEvent where
  proposalId : String
  resolution : String
  conversationId : Option String := none
  channel : Option ChannelType := none
  deriving DecidableEq

/-- The condition of `rememberThread` in `handleProposalEvent`. -/
def ProposalEvent.opensThread (e : ProposalEvent) : Bool :=
  e.resolution = "proposal_sent" && e.channel ≠ some .sms && e.channel ≠ some .voice &&
    e.channel ≠ some .chat

/-- A transaction that has found a wait to resolve. -/
inductive Resolver where
  /-- The handling of an event; `named` is whether the wait names the proposal itself. -/
  | event (waitId : Nat) (event : ProposalEvent) (named : Bool)
  /-- The sweep of the waits that are due. -/
  | due (waitId : Nat) (timedOut : Bool) (now : Instant)
  deriving DecidableEq

namespace Resolver

def waitId : Resolver → Nat
  | .event id _ _ | .due id _ _ => id

def resolution : Resolver → String
  | .event _ e _ => e.resolution
  | .due _ timedOut _ => if timedOut then "timeout" else "timer"

/-- The thread that an event gives the enrollment. -/
def remember (f : EnrollmentFile) : Resolver → EnrollmentFile
  | .event _ e named => if named && e.opensThread then f.rememberThread e.conversationId else f
  | .due .. => f

/-- The event that is handled with the transaction. -/
def handled (inbox : List ProposalEvent) : Resolver → List ProposalEvent
  | .event _ e _ => inbox.erase e
  | .due .. => inbox

end Resolver

/-! ### The machine -/

/-- An enrollment, its proposals, the events that were not handled yet, and the transactions that
have found a wait and not resolved it yet. -/
structure CompanyState where
  file : EnrollmentFile
  outbox : List OutboxRow := []
  inbox : List ProposalEvent := []
  found : List Resolver := []

inductive CompanyAct where
  /-- One node of `runEnrollment`. -/
  | run (env : StepEnv)
  /-- A proposal is sent, dismissed, withdrawn or given up, and its event emitted. -/
  | decide (event : ProposalEvent) (status : ProposalStatus)
  /-- A proposal is approved, taken back or scheduled. -/
  | revise (id : String) (status : ProposalStatus) (scheduledSendAt : Option Instant)
  /-- `handleProposalEvent`, up to the wait that it finds. -/
  | look (event : ProposalEvent)
  /-- `resolveDueWaits`, up to the waits that it finds. -/
  | lookDue (now : Instant)
  | resolve (r : Resolver) (clock : Instant)
  /-- The transaction is rolled back. -/
  | drop (r : Resolver)

/-- The node that an enrollment stands at, and the visit. -/
def EnrollmentFile.visiting (specs : Nat → Option JourneySpec) (f : EnrollmentFile) :
    Option (JourneyNode × Nat) :=
  f.row.currentNode.bind fun current => (specs f.row.version).bind fun spec =>
    (spec.node current).bind fun node =>
      match f.row.visits.current node.id with
      | .count visit => some (node, visit)
      | .text => none

/-- The id that the run of a visit has, or will have. -/
def EnrollmentFile.runIdOf (f : EnrollmentFile) (node : JourneyNode) (visit : Nat) : Nat :=
  ((f.visitRun node.id visit).map (·.id)).getD f.nextId

/-- An enrollment of a company, and of no contact. -/
def Enrollment.ofCompany (e : Enrollment) : Bool :=
  truthy e.companyId && !truthy e.contactId

/-- The rows that `executeCompanyMessage` adds to the outbox, where its step runs first: one for
each recipient. -/
def EnrollmentFile.companyDrafts (f : EnrollmentFile) (env : StepEnv) (node : JourneyNode)
    (visit : Nat) : List OutboxRow :=
  match node with
  | .message n =>
    if (f.visitRun n.id visit).isNone && n.approval ≠ .off && f.row.ofCompany then
      env.companyRecipients.map fun contactId =>
        let p := env.propose contactId
        ⟨f.nextId, ⟨p.id, contactId, p.status, p.scheduledSendAt⟩⟩
    else []
  | _ => []

namespace CompanyState

/-- The proposals of a step's run. -/
def rowsOf (outbox : List OutboxRow) (run : Nat) : List OutboxRow :=
  outbox.filter (·.stepRunId = run)

/-- The events of proposals that are decided as they are made. -/
def toldOf (rows : List OutboxRow) : List ProposalEvent :=
  rows.filterMap fun r => r.proposal.status.resolution.map (⟨r.proposal.id, ·, none, none⟩)

/-- A write to one proposal. -/
def writeProposal (outbox : List OutboxRow) (id : String) (g : RunProposal → RunProposal) :
    List OutboxRow :=
  outbox.map fun r => if r.proposal.id = id then { r with proposal := g r.proposal } else r

/-- The wait that `handleProposalEvent` finds, and whether it names the proposal: one that waits for
this proposal alone, else the one of the proposal's step, which no other proposal of the step keeps
open. -/
def waitOf (s : CompanyState) (proposalId : String) : Option (JourneyWait × Bool) :=
  match s.file.openWaits.find? fun w =>
      w.kind = .proposal && w.payload.text "proposalId" = some proposalId with
  | some w => some (w, true)
  | none =>
    (s.outbox.find? (·.proposal.id = proposalId)).bind fun row =>
      (s.file.openWaits.find? fun w =>
        w.kind = .proposal && w.payload.text "stepRunId" = some (toString row.stepRunId)).bind
          fun w =>
            if (rowsOf s.outbox row.stepRunId).any fun r => !r.proposal.status.terminal then none
            else some (w, false)

/-- Whether a wait is due. -/
def due (w : JourneyWait) (now : Instant) : Bool :=
  w.wakeAt.any (· ≤ now) || w.timeoutAt.any (· ≤ now)

/-- What the node of an enrollment reads of the outbox: the proposals of its run, in any order. -/
def Reads (env : StepEnv) (outbox : List OutboxRow) (run : Nat) : Prop :=
  env.runProposals.Perm ((rowsOf outbox run).map (·.proposal)) ∧
    (outbox.map (·.proposal.id)).Nodup

instance (env : StepEnv) (outbox : List OutboxRow) (run : Nat) :
    Decidable (Reads env outbox run) :=
  inferInstanceAs (Decidable (_ ∧ _))

/-- One node, with the proposals that it makes. -/
def runNode (specs : Nat → Option JourneySpec) (s : CompanyState) (env : StepEnv) :
    Option CompanyState :=
  match s.file.runNode specs env with
  | .error _ => none
  | .ok (g, _) =>
    match s.file.visiting specs with
    | none => some { s with file := g.clearErrors }
    | some (node, visit) =>
      let drafts :=
        if (g.visitRun node.id visit).isSome then s.file.companyDrafts env node visit else []
      if Reads env (s.outbox ++ drafts) (s.file.runIdOf node visit) then
        some { s with
          file := g.clearErrors, outbox := s.outbox ++ drafts, inbox := s.inbox ++ toldOf drafts }
      else none

/-- The effect of a step. -/
def step (specs : Nat → Option JourneySpec) (s : CompanyState) : CompanyAct → Option CompanyState
  | .run env => s.runNode specs env
  | .decide event status =>
    if status.resolution = some event.resolution ∧
        ∃ r ∈ s.outbox, r.proposal.id = event.proposalId then
      some { s with
        outbox := writeProposal s.outbox event.proposalId fun p => { p with status }
        inbox := s.inbox ++ [event] }
    else none
  | .revise id status scheduledSendAt =>
    if status.terminal = false ∧
        ∀ r ∈ s.outbox, r.proposal.id = id → r.proposal.status.terminal = false then
      some { s with
        outbox := writeProposal s.outbox id fun p => { p with status, scheduledSendAt } }
    else none
  | .look event =>
    match s.waitOf event.proposalId with
    | none => some { s with inbox := s.inbox.erase event }
    | some (w, named) => some { s with found := s.found ++ [.event w.id event named] }
  | .lookDue now =>
    let waits := s.file.openWaits.filter (due · now)
    let resolvers := waits.map fun w => .due w.id (!w.wakeAt.any (· ≤ now)) now
    some { s with found := s.found ++ resolvers }
  | .resolve r clock =>
    if r ∈ s.found then
      some { s with
        file := (r.remember s.file).resolveWait r.waitId r.resolution [] clock
        inbox := r.handled s.inbox
        found := s.found.erase r }
    else none
  | .drop r => some { s with found := s.found.erase r }

/-- The statuses of the proposals of a step's run. -/
def statuses (s : CompanyState) (run : Nat) : Multiset ProposalStatus :=
  ((rowsOf s.outbox run).map (·.proposal.status) : List ProposalStatus)

/-- Every recipient's proposal has been decided. -/
def Decided (s : CompanyState) (run : Nat) : Prop :=
  ∀ st ∈ s.statuses run, st.terminal = true

end CompanyState

/-- The enrollment of a company, its proposals and their events: any step at any time. -/
def companyMachine (specs : Nat → Option JourneySpec) : Machine CompanyState CompanyAct where
  step := CompanyState.step specs

/-! ### What the decisions come to -/

/-- What the statuses of the proposals come to: the edge that the step takes, if it does not end the
run, and the reason. -/
def companyVerdict (statuses : Multiset ProposalStatus) : Option String × String :=
  if statuses = 0 then (none, "no_recipients")
  else if 0 < statuses.count .sent ∨ 0 < statuses.count .withdrawn then
    (some "next",
      "sent to " ++ toString (statuses.count .sent) ++ " of " ++ toString statuses.card)
  else if 0 < statuses.count .pending ∨ 0 < statuses.count .approved then
    (none, "approval_timeout")
  else if statuses.count .failed = statuses.card then (none, "message_blocked")
  else (none, "proposal_dismissed")

/-- The outcome of a verdict. -/
def verdictOutcome (node : MessageNode) (output : Option Record) :
    Option String × String → Outcome
  | (some edge, reason) => .advance edge node.next output reason
  | (none, reason) => .exit reason output

/-- What `companyMessageOutcome` stores of the proposals. -/
def proposalsOutput (rows : List RunProposal) : Record :=
  [("proposals", .arr (rows.map fun r =>
    .obj [("id", .str r.id), ("contactId", .str r.contactId), ("status", .str r.status.text)]))]

/-- What `companyMessageOutcome` waits for. -/
def companyWait (env : StepEnv) (run : Nat) : WaitSpec where
  kind := .proposal
  payload := [("stepRunId", .str (toString run))]
  timeoutAt :=
    let open' := env.runProposals.filter fun r => r.status = .pending || r.status = .approved
    (open'.map fun r => r.scheduledSendAt.getD 0).foldl max env.now + APPROVAL_TIMEOUT_MS

section Outcomes

variable {env : StepEnv} {step : StepContext} {node : MessageNode} {resolution : Option String}

/-- The statuses that keep a proposal open. -/
theorem terminal_eq_false {st : ProposalStatus} :
    st.terminal = false ↔ st = .pending ∨ st = .approved := by
  cases st <;> simp [ProposalStatus.terminal]

variable {rows : List RunProposal}

/-- A proposal with one of two statuses, in the words of the counts. -/
theorem count_pos_or (a b : ProposalStatus) :
    (0 < Multiset.count a (rows.map (·.status) : Multiset ProposalStatus) ∨
      0 < Multiset.count b (rows.map (·.status) : Multiset ProposalStatus)) ↔
      ∃ r ∈ rows, r.status = a ∨ r.status = b := by
  simp only [Multiset.count_pos, Multiset.mem_coe, List.mem_map]
  constructor
  · rintro (⟨r, hr, h⟩ | ⟨r, hr, h⟩)
    · exact ⟨r, hr, .inl h⟩
    · exact ⟨r, hr, .inr h⟩
  · rintro ⟨r, hr, h | h⟩
    · exact .inl ⟨r, hr, h⟩
    · exact .inr ⟨r, hr, h⟩

/-- The proposals that `companyMessageOutcome` finds open. -/
theorem open_isEmpty :
    (rows.filter fun r => r.status = .pending || r.status = .approved).isEmpty = true ↔
      ∀ r ∈ rows, r.status.terminal = true := by
  rw [List.isEmpty_iff, List.filter_eq_nil_iff]
  refine forall₂_congr fun r _ => ?_
  cases r.status <;> simp [ProposalStatus.terminal]

/-- While a proposal is open and the time is not up, the step waits. -/
theorem companyMessageOutcome_wait (step : StepContext) (node : MessageNode)
    (hopen : ∃ r ∈ env.runProposals, r.status.terminal = false)
    (htime : resolution ≠ some "timeout") :
    ∃ output reason, companyMessageOutcome env step node resolution =
      .wait (companyWait env step.run.id) output reason := by
  have hsome : (env.runProposals.filter fun r => r.status = .pending || r.status = .approved).isEmpty
      = false := by
    rw [Bool.eq_false_iff]
    intro hempty
    obtain ⟨r, hr, hstatus⟩ := hopen
    rw [open_isEmpty.1 hempty r hr] at hstatus
    cases hstatus
  unfold companyMessageOutcome
  dsimp only
  rw [if_pos (by simp [hsome, htime])]
  exact ⟨_, _, rfl⟩

/-- **The step goes on as its decisions say**, in whatever order the outbox lists them. -/
theorem companyMessageOutcome_eq (hrows : env.runProposals ≠ [])
    (hdone : (∀ r ∈ env.runProposals, r.status.terminal = true) ∨ resolution = some "timeout") :
    companyMessageOutcome env step node resolution =
      verdictOutcome node (proposalsOutput env.runProposals)
        (companyVerdict (env.runProposals.map (·.status) : List ProposalStatus)) := by
  generalize hst : (env.runProposals.map (·.status) : List ProposalStatus) = statuses
  have hne : (statuses : Multiset ProposalStatus) ≠ 0 := by
    rw [← hst]
    simpa using hrows
  have hcard : (statuses : Multiset ProposalStatus).card = env.runProposals.length := by
    rw [← hst]
    simp
  have hsent : (statuses : Multiset ProposalStatus).count .sent =
      env.runProposals.countP fun r => r.status = .sent := by
    rw [← hst, Multiset.coe_count, List.count, List.countP_map]
    exact List.countP_congr fun r _ => by simp
  have hfailed : (statuses : Multiset ProposalStatus).count .failed =
      (statuses : Multiset ProposalStatus).card ↔ ∀ r ∈ env.runProposals, r.status = .failed := by
    rw [Multiset.count_eq_card, ← hst]
    simp only [Multiset.mem_coe, List.mem_map, forall_exists_index, and_imp,
      forall_apply_eq_imp_iff₂]
    exact forall₂_congr fun r _ => eq_comm
  have hwait : ¬ (!(env.runProposals.filter fun r =>
      r.status = .pending || r.status = .approved).isEmpty && resolution ≠ some "timeout") = true := by
    rcases hdone with hdone | hdone
    · simp only [open_isEmpty.2 hdone, Bool.not_true, Bool.false_and]
      exact Bool.false_ne_true
    · simp [hdone]
  have hnext : (0 < (env.runProposals.countP fun r => r.status = .sent) ||
      env.runProposals.any (·.status = .withdrawn)) = true ↔
        0 < Multiset.count .sent (statuses : Multiset ProposalStatus) ∨
          0 < Multiset.count .withdrawn (statuses : Multiset ProposalStatus) := by
    rw [hsent, ← hst]
    simp
  have hopen : (!(env.runProposals.filter fun r =>
      r.status = .pending || r.status = .approved).isEmpty) = true ↔
        0 < Multiset.count .pending (statuses : Multiset ProposalStatus) ∨
          0 < Multiset.count .approved (statuses : Multiset ProposalStatus) := by
    rw [← hst, count_pos_or, Bool.not_eq_true', Bool.eq_false_iff, Ne, open_isEmpty]
    simp [← terminal_eq_false]
  have hblocked : (!env.runProposals.isEmpty && env.runProposals.all (·.status = .failed)) = true ↔
      (statuses : Multiset ProposalStatus).count .failed =
        (statuses : Multiset ProposalStatus).card := by
    rw [hfailed]
    simp [hrows]
  unfold companyMessageOutcome companyVerdict
  dsimp only
  rw [if_neg hwait, if_neg hne, hcard, hsent]
  split
  · rename_i h
    rw [if_pos (hsent ▸ hnext.1 h)]
    rfl
  · rename_i h
    rw [if_neg fun h' => h (hnext.2 (hsent ▸ h'))]
    split
    · rename_i h₂
      rw [if_pos (hopen.1 h₂)]
      rfl
    · rename_i h₂
      rw [if_neg fun h' => h₂ (hopen.2 h')]
      split
      · rename_i h₃
        rw [if_pos (hcard ▸ hblocked.1 h₃)]
        rfl
      · rename_i h₃
        rw [if_neg fun h' => h₃ (hblocked.2 (hcard ▸ h'))]
        rfl

/-- A verdict that ends the run gives a reason of its own. -/
theorem not_completed_of_verdict (statuses : Multiset ProposalStatus)
    (h : (companyVerdict statuses).1 = none) :
    (companyVerdict statuses).2 ∉ COMPLETED_REASONS := by
  revert h
  unfold companyVerdict
  split_ifs
  · exact fun _ => by decide
  · exact fun h => by cases h
  · exact fun _ => by decide
  · exact fun _ => by decide
  · exact fun _ => by decide

end Outcomes

/-! ### Leaving a step -/

section Leaving

variable {specs : Nat → Option JourneySpec} {f g k : EnrollmentFile} {env : StepEnv}
  {spec : JourneySpec} {node : MessageNode} {run attempt : Nat}

/-- The step was left with a verdict: completed with its edge and reason, and the run goes on at the
next node, or has ended. -/
structure Concluded (node : MessageNode) (g : EnrollmentFile) (run : Nat)
    (verdict : Option String × String) : Prop where
  step : ∃ t ∈ g.steps, t.id = run ∧ t.status = .completed ∧ t.edgeTaken = verdict.1 ∧
    t.reason = some verdict.2
  place : match verdict.1, node.next with
    | some _, some next => g.row.state = .active ∧ g.row.currentNode = some next
    | some _, none => g.row.state = .done ∧ g.row.exitReason = some "reached_end"
    | none, _ => g.row.state = .exited ∧ g.row.exitReason = some verdict.2

variable {verdict : Option String × String}

/-- **A verdict, written.** -/
theorem concluded_settle (hrun : ∃ s ∈ k.steps, s.id = run) (hactive : k.row.state = .active)
    (hnext : node.next ≠ some "") (output : Option Record)
    (hreason : verdict.1 = none → verdict.2 ∉ COMPLETED_REASONS) :
    Concluded node (k.settle env spec run attempt (verdictOutcome node output verdict)).1 run
      verdict := by
  obtain ⟨s, hs, rfl⟩ := hrun
  have hdone : ∀ patch : StepRun → StepRun, patch s ∈ (k.updateStepRun s.id patch).steps :=
    fun patch => List.mem_map.2 ⟨s, hs, by simp⟩
  obtain ⟨edge, reason⟩ := verdict
  cases edge with
  | some edge =>
    refine ⟨⟨_, mem_steps_leave (hdone _) rfl _, rfl, rfl, rfl, rfl⟩, ?_⟩
    have hplace : LeftAlong (k.settle env spec s.id attempt
        (verdictOutcome node output (some edge, reason))).1 s.id edge node.next :=
      (leftAlong_settle ⟨s, hs, rfl⟩ hactive edge _ output reason).of_ne hnext
    have hto := hplace.place
    cases hn : node.next with
    | none =>
      rw [hn] at hto
      exact hto
    | some next =>
      rw [hn] at hto
      exact hto
  | none =>
    refine ⟨⟨_, mem_steps_finish (hdone _) rfl _ _, rfl, rfl, rfl, rfl⟩, ?_⟩
    have hopen : ∀ patch : StepRun → StepRun,
        (k.updateStepRun s.id patch).row.state.isOpen = true := fun patch =>
      isOpen_iff.2 (.inl hactive)
    refine ⟨?_, ?_⟩
    · change (EnrollmentFile.finish _ reason env.clock).row.state = .exited
      rw [(rows_finish (hopen _) reason env.clock).1]
      exact if_neg (hreason rfl)
    · change (EnrollmentFile.finish _ reason env.clock).row.exitReason = some reason
      rw [(rows_finish (hopen _) reason env.clock).1]

theorem Concluded.clearErrors
    (h : Concluded node g run verdict) : Concluded node g.clearErrors run verdict := by
  unfold EnrollmentFile.clearErrors
  split
  · exact ⟨h.step, h.place⟩
  · exact h

/-- What leaves completed steps as they are, their proposals apart, and takes no step back. -/
structure KeepsDone (f g : EnrollmentFile) : Prop where
  forth : ∀ t ∈ f.steps, t.status = .completed → ∃ proposalId, { t with proposalId } ∈ g.steps
  back : ∀ u ∈ g.steps, u.id < f.nextId →
    ∃ t ∈ f.steps, t.id = u.id ∧ (t.status = .completed → u.status = .completed)
  nextId : f.nextId ≤ g.nextId

theorem KeepsDone.trans (hfg : KeepsDone f g) (hgk : KeepsDone g k) : KeepsDone f k where
  forth t ht hdone := by
    obtain ⟨p, hp⟩ := hfg.forth t ht hdone
    obtain ⟨q, hq⟩ := hgk.forth _ hp hdone
    exact ⟨q, hq⟩
  back u hu hlt := by
    obtain ⟨v, hv, hvid, hvdone⟩ := hgk.back u hu (Nat.lt_of_lt_of_le hlt hfg.nextId)
    obtain ⟨t, ht, htid, htdone⟩ := hfg.back v hv (hvid ▸ hlt)
    exact ⟨t, ht, htid.trans hvid, hvdone ∘ htdone⟩
  nextId := Nat.le_trans hfg.nextId hgk.nextId

/-- A write to steps that are not completed. -/
theorem keepsDone_map (onStep : StepRun → StepRun) (hsteps : g.steps = f.steps.map onStep)
    (hid : ∀ s, (onStep s).id = s.id)
    (hdone : ∀ s ∈ f.steps, s.status = .completed → ∃ proposalId, onStep s = { s with proposalId })
    (hnext : f.nextId ≤ g.nextId) : KeepsDone f g where
  forth t ht hcompleted := by
    obtain ⟨p, hp⟩ := hdone t ht hcompleted
    exact ⟨p, hsteps ▸ List.mem_map.2 ⟨t, ht, hp⟩⟩
  back u hu _ := by
    rw [hsteps] at hu
    obtain ⟨s, hs, rfl⟩ := List.mem_map.1 hu
    refine ⟨s, hs, (hid s).symm, fun hcompleted => ?_⟩
    obtain ⟨p, hp⟩ := hdone s hs hcompleted
    rw [hp]
    exact hcompleted
  nextId := hnext

/-- A step that is added under a new id. -/
theorem keepsDone_insertRun (f : EnrollmentFile) {s : StepRun} (hid : s.id = f.nextId)
    (executed : Bool) : KeepsDone f (f.insertRun s executed) where
  forth t ht _ := ⟨t.proposalId, List.mem_append_left _ ht⟩
  back u hu hlt := by
    rcases List.mem_append.1 hu with hu | hu
    · exact ⟨u, hu, rfl, fun h => h⟩
    · rw [List.mem_singleton.1 hu, hid] at hlt
      exact absurd hlt (Nat.lt_irrefl _)
  nextId := Nat.le_succ _

/-- A file with the same steps. -/
theorem keepsDone_of_steps (hsteps : g.steps = f.steps) (hnext : f.nextId ≤ g.nextId) :
    KeepsDone f g :=
  keepsDone_map id (by rw [hsteps, List.map_id]) (fun _ => rfl) (fun s _ _ => ⟨s.proposalId, rfl⟩)
    hnext

theorem keepsDone_finish (f : EnrollmentFile) (reason : String) (clock : Instant) :
    KeepsDone f (f.finish reason clock) := by
  by_cases hopen : f.row.state.isOpen = true
  · have hnext : (f.finish reason clock).nextId = f.nextId := by
      unfold EnrollmentFile.finish
      rw [if_pos hopen]
      rfl
    refine keepsDone_map _ (rows_finish hopen reason clock).2 (fun s => ?_)
      (fun s _ hdone => ⟨s.proposalId, ?_⟩) hnext.ge
    · unfold closeStep
      split <;> rfl
    · exact if_neg (by simp [hdone, StepStatus.isOpen])
  · have hsame : f.finish reason clock = f := by
      unfold EnrollmentFile.finish
      rw [if_neg hopen]
    exact keepsDone_of_steps (by rw [hsame]) (by rw [hsame])

theorem keepsDone_leave (f : EnrollmentFile) (env : StepEnv) (spec : JourneySpec)
    (outcome : Outcome) : KeepsDone f (f.leave env spec outcome).1 := by
  unfold EnrollmentFile.leave
  split
  · exact keepsDone_finish f _ _
  · split
    · exact keepsDone_finish f _ _
    · exact keepsDone_of_steps rfl (Nat.le_refl _)
  · exact keepsDone_of_steps rfl (Nat.le_refl _)
  · exact keepsDone_of_steps rfl (Nat.le_refl _)

/-- What is written of the outcome of a step that was not completed. -/
theorem keepsDone_settle (hrun : ∀ s ∈ f.steps, s.status = .completed → s.id ≠ run)
    (env : StepEnv) (spec : JourneySpec) (attempt : Nat) (outcome : Outcome) :
    KeepsDone f (f.settle env spec run attempt outcome).1 := by
  have hthen : ∀ {g : EnrollmentFile} {patch : StepRun → StepRun},
      KeepsDone (f.updateStepRun run patch) g → (∀ s, (patch s).id = s.id) → KeepsDone f g := by
    intro g patch hg hid
    have hpatch : KeepsDone f (f.updateStepRun run patch) := by
      refine keepsDone_map _ rfl (fun s => ?_) (fun s hs hdone => ⟨s.proposalId, ?_⟩) (Nat.le_refl _)
      · split
        · exact hid s
        · rfl
      · rw [if_neg (by simp [hrun s hs hdone])]
    exact hpatch.trans hg
  unfold EnrollmentFile.settle
  split
  · exact hthen (keepsDone_of_steps rfl (Nat.le_refl _)) fun _ => rfl
  · exact hthen (keepsDone_of_steps rfl (Nat.le_succ _)) fun _ => rfl
  · exact hthen (keepsDone_leave _ _ _ _) fun _ => rfl
  · exact hthen (keepsDone_leave _ _ _ _) fun _ => rfl

theorem nextId_settle (k : EnrollmentFile) (env : StepEnv) (spec : JourneySpec)
    (run attempt : Nat) (outcome : Outcome) :
    k.nextId ≤ (k.settle env spec run attempt outcome).1.nextId := by
  have hleave : ∀ (patch : StepRun → StepRun) (o : Outcome),
      k.nextId ≤ ((k.updateStepRun run patch).leave env spec o).1.nextId :=
    fun patch o => (keepsDone_leave (k.updateStepRun run patch) env spec o).nextId
  unfold EnrollmentFile.settle
  split
  · exact Nat.le_refl _
  · exact Nat.le_succ _
  · exact hleave _ _
  · exact hleave _ _

/-- What is written of a verdict completes the step. -/
theorem completed_settle (hrun : run < k.nextId) (output : Option Record)
    (verdict : Option String × String) : ∀ t ∈
      (k.settle env spec run attempt (verdictOutcome node output verdict)).1.steps,
        t.id = run → t.status = .completed := by
  have hpatch : ∀ (patch : StepRun → StepRun) (outcome : Outcome),
      (∀ s, (patch s).id = s.id ∧ (patch s).status = .completed) →
      ∀ t ∈ ((k.updateStepRun run patch).leave env spec outcome).1.steps, t.id = run →
        t.status = .completed := by
    intro patch outcome hp t ht hid
    obtain ⟨u, hu, huid, hdone⟩ := (keepsDone_leave _ env spec outcome).back t ht (hid ▸ hrun)
    obtain ⟨s, -, rfl⟩ := List.mem_map.1 hu
    refine hdone ?_
    dsimp only at huid ⊢
    split at huid
    · rename_i heq
      rw [if_pos heq]
      exact (hp s).2
    · rename_i hne
      exact absurd (decide_eq_true (huid.trans hid)) hne
  obtain ⟨edge, reason⟩ := verdict
  cases edge with
  | some edge => exact hpatch _ _ fun _ => ⟨rfl, rfl⟩
  | none => exact hpatch _ _ fun _ => ⟨rfl, rfl⟩

/-- The visit whose outcome is written keeps its run. -/
theorem hasRun_settle {nodeId : NodeId} {visit : Nat} (h : k.HasRun nodeId visit)
    (outcome : Outcome) : (k.settle env spec run attempt outcome).1.HasRun nodeId visit := by
  have hfinish : ∀ {f : EnrollmentFile} (reason : String), f.HasRun nodeId visit →
      (f.finish reason env.clock).HasRun nodeId visit := by
    intro f reason hf
    by_cases hopen : f.row.state.isOpen = true
    · unfold EnrollmentFile.HasRun
      rw [(rows_finish hopen reason env.clock).2]
      refine hasRun_map (fun s => ?_) hf
      unfold closeStep
      split <;> exact ⟨rfl, rfl⟩
    · unfold EnrollmentFile.finish
      rwa [if_neg hopen]
  have hleave : ∀ {f : EnrollmentFile} (o : Outcome), f.HasRun nodeId visit →
      (f.leave env spec o).1.HasRun nodeId visit := by
    intro f o hf
    unfold EnrollmentFile.leave
    split
    · exact hfinish _ hf
    · split
      · exact hfinish _ hf
      · exact hf
    · exact hf
    · exact hf
  have hpatch : ∀ patch : StepRun → StepRun,
      (∀ s, (patch s).nodeId = s.nodeId ∧ (patch s).visit = s.visit) →
      (k.updateStepRun run patch).HasRun nodeId visit := by
    intro patch hp
    refine hasRun_map (fun s => ?_) h
    split
    · exact hp s
    · exact ⟨rfl, rfl⟩
  unfold EnrollmentFile.settle
  split
  · exact hpatch _ fun _ => ⟨rfl, rfl⟩
  · exact hpatch _ fun _ => ⟨rfl, rfl⟩
  · exact hleave _ (hpatch _ fun _ => ⟨rfl, rfl⟩)
  · exact hleave _ (hpatch _ fun _ => ⟨rfl, rfl⟩)

theorem keepsDone_clearErrors (f : EnrollmentFile) : KeepsDone f f.clearErrors := by
  unfold EnrollmentFile.clearErrors
  split <;> exact keepsDone_of_steps rfl (Nat.le_refl _)

/-- **A completed step stays as it is** while its enrollment runs. -/
theorem keepsDone_runNode (hasks : AsksOk specs f) {more : Bool}
    (h : f.runNode specs env = .ok (g, more)) : KeepsDone f g := by
  rcases EnrollmentFile.runNode_cases h with ⟨rfl, -⟩ | ⟨hactive, current, spec, hcurrent, hspec,
      ⟨reason, rfl, -⟩ | ⟨node, visit, hnode, hvisit, -, hrun⟩⟩
  · exact keepsDone_of_steps rfl (Nat.le_refl _)
  · exact keepsDone_finish f _ _
  · have hopen : f.row.state.isOpen = true := isOpen_iff.2 (.inl hactive)
    have hrecords := hasks.records hopen
    have hstanding := hasks.standing hopen
    obtain ⟨rfl, -⟩ := node_eq_some hnode
    rcases EnrollmentFile.runVisit_cases hrun with
      ⟨-, rfl, -⟩ | ⟨stored, -, -, hg⟩ | ⟨k, outcome, hexec, hg⟩
    · exact keepsDone_of_steps rfl (Nat.le_refl _)
    · have hleft : g = (f.leave env spec (storedOutcome node stored)).1 := congrArg Prod.fst hg
      exact hleft ▸ keepsDone_leave f env spec _
    · -- The step that is executed is open or new.
      have hentered : KeepsDone f (f.enterRun node visit).1 ∧
          ∀ s ∈ (f.enterRun node visit).1.steps, s.status = .completed →
            s.id ≠ (f.enterRun node visit).2.1.id := by
        unfold EnrollmentFile.enterRun
        split
        · rename_i run hfind
          refine ⟨keepsDone_of_steps rfl (Nat.le_refl _), fun t ht hdone hid => ?_⟩
          obtain ⟨hmem, hkey⟩ := visitRun_eq_some hfind
          obtain rfl := List.inj_on_of_nodup_map hrecords.ids ht hmem hid
          have hat : f.row.AtVisit t := hstanding.atVisit hcurrent hvisit hkey.1 hkey.2
          rcases hstanding.resumable t ht hat with hs | hs <;> rw [hdone] at hs <;> cases hs
        · refine ⟨keepsDone_insertRun f rfl true, fun t ht hdone => ?_⟩
          rcases List.mem_append.1 ht with ht | ht
          · exact Nat.ne_of_lt (hrecords.fresh t ht)
          · rw [List.mem_singleton.1 ht] at hdone
            cases hdone
      obtain ⟨proposal, hsteps⟩ := (kept_execute hexec).steps
      have hnext : (f.enterRun node visit).1.nextId ≤ k.nextId := by
        cases asking_execute hexec with
        | silent _ _ _ hnext => exact hnext.ge
        | agent _ _ hfile => exact hfile ▸ Nat.le_refl _
        | approval _ _ b _ _ _ _ _ _ _ hfile =>
          rcases hfile with ⟨-, rfl⟩ | ⟨-, -, rfl⟩
          · exact Nat.le_refl _
          · exact Nat.le_succ _
      have hkept : KeepsDone (f.enterRun node visit).1 k :=
        keepsDone_map _ hsteps (fun _ => rfl) (fun s _ _ => ⟨_, rfl⟩) hnext
      have hsettled : g = (k.settle env spec (f.enterRun node visit).2.1.id
        (f.enterRun node visit).2.2.2 outcome).1 := congrArg Prod.fst hg
      rw [hsettled]
      refine (hentered.1.trans hkept).trans (keepsDone_settle (fun s hs hdone => ?_) _ _ _ _)
      rw [hsteps] at hs
      obtain ⟨t, ht, rfl⟩ := List.mem_map.1 hs
      exact hentered.2 t ht hdone

end Leaving

/-! ### One run of a company's message step -/

/-- An open enrollment of a company at a visit to a message node that the visit cap admits and that
sends. -/
structure AtMessage (specs : Nat → Option JourneySpec) (spec : JourneySpec) (node : MessageNode)
    (visit : Nat) (f : EnrollmentFile) : Prop where
  waits : WaitsOk True f
  asks : AsksOk specs f
  inVersion : specs f.row.version = some spec
  conforms : spec.conforms = true
  isNode : spec.node node.id = some (.message node)
  current : f.row.currentNode = some node.id
  count : f.row.visits.current node.id = .count visit
  admitted : visit ≤ spec.settings.maxVisitsPerNode
  company : f.row.ofCompany = true
  approval : node.approval ≠ .off

section Running

variable {specs : Nat → Option JourneySpec} {spec : JourneySpec} {node : MessageNode}
  {visit run : Nat} {f g : EnrollmentFile} {env : StepEnv}

section AtMessage

variable (h : AtMessage specs spec node visit f)

include h

theorem AtMessage.nodeConforms :
    (JourneyNode.message node).conforms = true :=
  spec.conforms_node h.conforms (List.mem_of_find?_eq_some h.isNode)

theorem AtMessage.next_ne : node.next ≠ some "" := by
  have hconforms := h.nodeConforms
  simp only [JourneyNode.conforms, Bool.and_eq_true] at hconforms
  exact ne_of_all_isNodeId hconforms.2.1.1.1.1.1.1.2

/-- A write to the row that leaves alone where the enrollment stands. -/
theorem AtMessage.updateRow
    {p : Enrollment → Enrollment} (hversion : (p f.row).version = f.row.version)
    (hnode : (p f.row).currentNode = f.row.currentNode)
    (hvisits : (p f.row).visits = f.row.visits) (hstate : (p f.row).state = f.row.state)
    (hopen : f.row.state.isOpen = true) (hcompany : (p f.row).ofCompany = f.row.ofCompany) :
    AtMessage specs spec node visit (f.updateRow p) where
  waits := h.waits.updateRow hstate hnode (.inl hopen)
  asks := h.asks.updateRow hversion hnode hvisits (by rw [hstate])
  inVersion := hversion ▸ h.inVersion
  conforms := h.conforms
  isNode := h.isNode
  current := hnode.trans h.current
  count := by
    change (p f.row).visits.current node.id = .count visit
    rw [hvisits, h.count]
  admitted := h.admitted
  company := hcompany.trans h.company
  approval := h.approval

/-- A node that runs, at the message. -/
theorem AtMessage.runNode_eq (hactive : f.row.state = .active) (env : StepEnv) :
    f.runNode specs env =
      if env.journeyLive then f.runVisit env spec (.message node) visit else .ok (f, false) := by
  have hid : node.id ≠ "" := JourneyNode.id_ne_empty h.nodeConforms
  unfold EnrollmentFile.runNode
  rw [hactive, h.current, Option.filter_some, if_pos (decide_eq_true hid)]
  dsimp only
  cases env.journeyLive with
  | false => rfl
  | true =>
    simp only [Bool.not_true, Bool.false_eq_true, if_false, if_true]
    rw [h.inVersion]
    dsimp only
    rw [h.isNode]
    dsimp only
    rw [show (JourneyNode.message node).id = node.id from rfl, h.count]
    dsimp only
    rw [if_neg (Nat.not_lt.2 h.admitted)]

theorem AtMessage.visiting_eq :
    f.visiting specs = some (.message node, visit) := by
  unfold EnrollmentFile.visiting
  rw [h.current, Option.bind_some, h.inVersion, Option.bind_some, h.isNode, Option.bind_some,
    show (JourneyNode.message node).id = node.id from rfl, h.count]

omit h in
/-- The message step's execution, for a company. -/
theorem execute_company (env : StepEnv) (step : StepContext) (node : MessageNode)
    (f : EnrollmentFile) (hcompany : step.enrollment.ofCompany = true) :
    execute env step (.message node) f = .ok (executeCompanyMessage env step node f) := by
  have hcond : (truthy step.enrollment.companyId && !truthy step.enrollment.contactId) = true :=
    hcompany
  unfold execute executeMessage
  dsimp only
  rw [if_pos hcond]

/-- **The first run**: nothing while the node is paused; else the step proposes its messages, and
its outcome is written. -/
theorem AtMessage.runVisit_first (hnew : f.visitRun node.id visit = none) {more : Bool}
    (hrun : f.runVisit env spec (.message node) visit = .ok (g, more)) :
    g = f.updateRow (fun e => { e with nextRunAt := none }) ∨
    ∃ k : EnrollmentFile, k.row = f.row ∧ k.waits = f.waits ∧ k.nextId = f.nextId + 1 ∧
      (∃ s ∈ k.steps, s.id = f.nextId ∧ s.nodeId = node.id ∧ s.visit = visit) ∧
      g = (k.settle env spec f.nextId 1
        (if env.companyRecipients = [] then .exit "no_recipients" none
        else companyMessageOutcome env
          { run := f.newRun (.message node) visit, enrollment := f.row, spec } node none)).1 := by
  rcases EnrollmentFile.runVisit_cases hrun with
    ⟨-, rfl, -⟩ | ⟨stored, hstored, -⟩ | ⟨k, outcome, hexec, hg⟩
  · exact .inl rfl
  · exact absurd (hnew.symm.trans hstored) (by simp)
  · have hentered : f.enterRun (.message node) visit =
        (f.insertRun (f.newRun (.message node) visit) true, f.newRun (.message node) visit, none,
          1) := by
      unfold EnrollmentFile.enterRun
      rw [show (JourneyNode.message node).id = node.id from rfl, hnew]
    have hg' : g = (k.settle env spec (f.enterRun (.message node) visit).2.1.id
      (f.enterRun (.message node) visit).2.2.2 outcome).1 := congrArg Prod.fst hg
    rw [hentered] at hexec hg'
    rw [execute_company _ _ _ _ h.company] at hexec
    refine .inr ⟨k, ?_⟩
    have hk := Except.ok.inj hexec
    unfold executeCompanyMessage at hk
    dsimp only at hk
    rw [if_neg h.approval] at hk
    cases hrecipients : env.companyRecipients with
    | nil =>
      rw [hrecipients] at hk
      obtain ⟨rfl, rfl⟩ := Prod.mk.inj hk
      refine ⟨rfl, rfl, rfl, ⟨_, List.mem_append_right _ (List.mem_singleton_self _), rfl, rfl, rfl⟩,
        ?_⟩
      rw [hg', if_pos rfl]
      rfl
    | cons c cs =>
      rw [hrecipients] at hk
      obtain ⟨rfl, rfl⟩ := Prod.mk.inj hk
      refine ⟨rfl, rfl, rfl, ⟨_, List.mem_map.2 ⟨f.newRun (.message node) visit,
        List.mem_append_right _ (List.mem_singleton_self _), rfl⟩, ?_⟩, ?_⟩
      · rw [if_pos (by simp [EnrollmentFile.newRun])]
        exact ⟨rfl, rfl, rfl⟩
      · rw [hg', if_neg (List.cons_ne_nil c cs)]
        rfl

/-- **A later run**, resumed by the step's only wait. -/
theorem AtMessage.runVisit_resumed {s : StepRun}
    (hs : f.visitRun node.id visit = some s) (hstatus : s.status = .waiting) {w : JourneyWait}
    (hw : f.waitsOf s.id = [w]) (hresolved : w.resolvedAt.isSome = true) (env : StepEnv) :
    f.runVisit env spec (.message node) visit =
      match env.failure with
      | some message => .error message
      | none => .ok (f.settle env spec s.id 1 (companyMessageOutcome env
          { run := s, enrollment := f.row, spec, resumed := w } node w.resolution)) := by
  have hentered : f.enterRun (.message node) visit = (f, s, some w, 1) :=
    EnrollmentFile.enterRun_of_resumed hs hstatus hw hresolved
  unfold EnrollmentFile.runVisit
  rw [show (JourneyNode.message node).id = node.id from rfl, hs]
  simp only [Option.isNone_some, Bool.false_and, Bool.false_eq_true, if_false]
  rw [Option.filter_some, hstatus, if_neg (by decide), hentered]
  dsimp only
  cases env.failure with
  | some message => rfl
  | none =>
    dsimp only
    rw [execute_company _ _ _ _ h.company]
    rfl

end AtMessage

end Running

end Munin
