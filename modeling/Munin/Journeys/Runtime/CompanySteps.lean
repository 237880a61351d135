import Munin.Journeys.Runtime.CompanyMessages

/-!
# A company's message step, from its first run to its end

Whatever comes in whatever order, a company's message step goes through four stages: it has not run
yet, it waits for its proposals, it is woken, and it is left.

* **`Entering`, `Awaiting`, `Woken`, `Done`** — the stages. `Awaiting` is the invariant that carries
  the result: as soon as every proposal is decided, the inbox has an event that was not handled and
  tells of one of them, because the last decision emitted one.
* **`Rewritten`** — what the writes of the outbox do to a step.
* **`Entering.step`, `Awaiting.step`, `Woken.step`, `Done.step_file`** — what a step of the machine
  does to each stage.
-/

namespace Munin

open Foundations

namespace CompanyState

/-! ### The outbox -/

variable {s t : CompanyState} {run : Nat}

theorem decided_iff :
    s.Decided run ↔
      ∀ r ∈ s.outbox, r.stepRunId = run → r.proposal.status.terminal = true := by
  unfold Decided statuses rowsOf
  simp only [Multiset.mem_coe, List.mem_map, List.mem_filter, decide_eq_true_eq]
  constructor
  · intro h r hr hrun
    exact h _ ⟨r, ⟨hr, hrun⟩, rfl⟩
  · rintro h st ⟨r, ⟨hr, hrun⟩, rfl⟩
    exact h r hr hrun

/-- An event that tells of a proposal of the step. -/
def Tells (s : CompanyState) (run : Nat) (e : ProposalEvent) : Prop :=
  ∃ r ∈ s.outbox, r.stepRunId = run ∧ r.proposal.id = e.proposalId

/-- The ids of the proposals are keys. -/
def Keyed (s : CompanyState) : Prop :=
  (s.outbox.map (·.proposal.id)).Nodup

theorem Keyed.eq (h : s.Keyed) {r r' : OutboxRow} (hr : r ∈ s.outbox) (hr' : r' ∈ s.outbox)
    (hid : r.proposal.id = r'.proposal.id) : r = r' :=
  List.inj_on_of_nodup_map h hr hr' hid

section Writes

variable {id : String} {g : RunProposal → RunProposal}

/-- The rows after a write to one proposal. -/
theorem mem_writeProposal {outbox : List OutboxRow} {r' : OutboxRow} :
    r' ∈ writeProposal outbox id g ↔ ∃ r ∈ outbox,
      r' = if r.proposal.id = id then { r with proposal := g r.proposal } else r := by
  unfold writeProposal
  rw [List.mem_map]
  exact exists_congr fun r => and_congr_right fun _ => eq_comm

theorem map_id_writeProposal (hid : ∀ p, (g p).id = p.id) (outbox : List OutboxRow) :
    (writeProposal outbox id g).map (·.proposal.id) = outbox.map (·.proposal.id) := by
  unfold writeProposal
  rw [List.map_map]
  refine List.map_congr_left fun r _ => ?_
  by_cases h : r.proposal.id = id
  · simp [h, hid]
  · simp [h]

/-- The step and the id of every row are kept. -/
theorem row_of_write (id : String) (hid : ∀ p, (g p).id = p.id) {r : OutboxRow} (hr : r ∈ s.outbox) :
    ∃ r' ∈ writeProposal s.outbox id g, r'.stepRunId = r.stepRunId ∧
      r'.proposal.id = r.proposal.id ∧
      (r.proposal.id ≠ id → r' = r) ∧ (r.proposal.id = id → r'.proposal = g r.proposal) := by
  refine ⟨_, mem_writeProposal.2 ⟨r, hr, rfl⟩, ?_⟩
  split
  · rename_i h
    exact ⟨rfl, hid _, fun hne => absurd h hne, fun _ => rfl⟩
  · rename_i h
    exact ⟨rfl, rfl, fun _ => rfl, fun heq => absurd heq h⟩

end Writes

/-! ### The wait that an event finds -/

/-- The wait of a company's step. -/
structure StepWait (run : Nat) (w : JourneyWait) : Prop where
  ofRun : w.stepRunId = run
  kind : w.kind = .proposal
  payload : w.payload = [("stepRunId", .str (toString run))]
  wakeAt : w.wakeAt = none

section Finding

variable {w : JourneyWait}

theorem StepWait.find_named (hw : StepWait run w) (hopen : s.file.openWaits = [w])
    (proposalId : String) :
    (s.file.openWaits.find? fun w =>
      w.kind = .proposal && w.payload.text "proposalId" = some proposalId) = none := by
  have htext : w.payload.text "proposalId" = none := by
    rw [hw.payload]
    rfl
  rw [hopen]
  simp [htext]

theorem StepWait.find_step (hw : StepWait run w) (hopen : s.file.openWaits = [w]) (run' : Nat) :
    (s.file.openWaits.find? fun w =>
      w.kind = .proposal && w.payload.text "stepRunId" = some (toString run')) =
        if run' = run then some w else none := by
  have htext : w.payload.text "stepRunId" = some (toString run) := by
    rw [hw.payload]
    rfl
  rw [hopen]
  by_cases hrun : run' = run
  · simp [hrun, htext, hw.kind]
  · have hne : toString run ≠ toString run' := fun h => hrun (toString_nat_inj h).symm
    rw [if_neg hrun, List.find?_cons_of_neg, List.find?_nil]
    rw [htext, Bool.and_eq_true, decide_eq_true_eq, decide_eq_true_eq, Option.some_inj]
    exact fun h => hne h.2

/-- What an event finds is the step's wait, and every proposal of the step is decided. -/
theorem StepWait.of_waitOf (hw : StepWait run w) (hopen : s.file.openWaits = [w])
    {proposalId : String} {v : JourneyWait} {named : Bool}
    (h : s.waitOf proposalId = some (v, named)) : v = w ∧ named = false ∧ s.Decided run := by
  unfold waitOf at h
  rw [hw.find_named hopen] at h
  dsimp only at h
  obtain ⟨row, -, h⟩ := Option.bind_eq_some_iff.1 h
  rw [hw.find_step hopen] at h
  obtain ⟨v', hv', h⟩ := Option.bind_eq_some_iff.1 h
  split at hv'
  · rename_i hrun
    obtain rfl := Option.some.inj hv'
    split at h
    · cases h
    · rename_i hnone
      cases h
      refine ⟨rfl, rfl, decided_iff.2 fun r hr hr' => ?_⟩
      have hin : r ∈ rowsOf s.outbox row.stepRunId :=
        List.mem_filter.2 ⟨hr, by simp [hr', hrun]⟩
      have hall := List.any_eq_false.1 (Bool.eq_false_iff.2 hnone) r hin
      simpa using hall
  · cases hv'

/-- Once every proposal is decided, each event of the step finds its wait. -/
theorem StepWait.waitOf_eq (hw : StepWait run w) (hopen : s.file.openWaits = [w])
    (hkeyed : s.Keyed) (hdecided : s.Decided run) {e : ProposalEvent} (he : s.Tells run e) :
    s.waitOf e.proposalId = some (w, false) := by
  obtain ⟨r, hr, hrun, hid⟩ := he
  have hfind : s.outbox.find? (·.proposal.id = e.proposalId) = some r := by
    cases hfound : s.outbox.find? (·.proposal.id = e.proposalId) with
    | none =>
      have hnot := List.find?_eq_none.1 hfound r hr
      simp [hid] at hnot
    | some r' =>
      have hid' : r'.proposal.id = e.proposalId := by simpa using List.find?_some hfound
      rw [hkeyed.eq (List.mem_of_find?_eq_some hfound) hr (hid'.trans hid.symm)]
  unfold waitOf
  rw [hw.find_named hopen]
  dsimp only
  rw [hfind, Option.bind_some, hw.find_step hopen, if_pos hrun, Option.bind_some, if_neg]
  intro hany
  obtain ⟨r', hr', hstatus⟩ := List.any_eq_true.1 hany
  obtain ⟨hmem, hrun'⟩ := List.mem_filter.1 hr'
  rw [decided_iff.1 hdecided r' hmem ((of_decide_eq_true hrun').trans hrun)] at hstatus
  cases hstatus

end Finding

/-! ### The stages -/

/-- The step has not run yet. -/
structure Entering (specs : Nat → Option JourneySpec) (spec : JourneySpec) (node : MessageNode)
    (visit run : Nat) (s : CompanyState) : Prop where
  place : AtMessage specs spec node visit s.file
  active : s.file.row.state = .active
  first : s.file.visitRun node.id visit = none
  next : s.file.nextId = run
  nobody : s.found = []
  older : ∀ r ∈ s.outbox, r.stepRunId < run
  keyed : s.Keyed

/-- The row of a step that waits. -/
def WaitingRow (node : MessageNode) (visit run : Nat) (f : EnrollmentFile) : Prop :=
  ∃ t ∈ f.steps, t.id = run ∧ t.status = .waiting ∧ t.nodeId = node.id ∧ t.visit = visit

/-- A transaction has found the wait of the step with good reason. -/
def Resolves (s : CompanyState) (run : Nat) (w : JourneyWait) : Resolver → Prop
  | .event id _ named => id = w.id ∧ named = false ∧ s.Decided run
  | .due id timedOut now => id = w.id ∧ timedOut = true ∧ w.timeoutAt.any (· ≤ now) = true

/-- The step waits for its proposals. -/
structure Awaiting (specs : Nat → Option JourneySpec) (spec : JourneySpec) (node : MessageNode)
    (visit run : Nat) (s : CompanyState) : Prop where
  place : AtMessage specs spec node visit s.file
  row : WaitingRow node visit run s.file
  wait : ∃ w, StepWait run w ∧ s.file.waitsOf run = [w] ∧ s.file.openWaits = [w] ∧
    ∀ r ∈ s.found, s.Resolves run w r
  told : s.Decided run → ∃ e ∈ s.inbox, s.Tells run e
  proposed : ∃ r ∈ s.outbox, r.stepRunId = run
  keyed : s.Keyed

/-- The step's wait is resolved, and its node has not run since. -/
structure Woken (specs : Nat → Option JourneySpec) (spec : JourneySpec) (node : MessageNode)
    (visit run : Nat) (s : CompanyState) : Prop where
  place : AtMessage specs spec node visit s.file
  active : s.file.row.state = .active
  row : WaitingRow node visit run s.file
  wait : ∃ w, s.file.waitsOf run = [w] ∧ w.resolvedAt.isSome = true ∧
    (s.Decided run ∨ w.resolution = some "timeout")
  proposed : ∃ r ∈ s.outbox, r.stepRunId = run
  keyed : s.Keyed

/-- The step was left. -/
structure Done (specs : Nat → Option JourneySpec) (run : Nat) (s : CompanyState) : Prop where
  waits : WaitsOk True s.file
  asks : AsksOk specs s.file
  fresh : run < s.file.nextId
  row : ∃ t ∈ s.file.steps, t.id = run
  completed : ∀ t ∈ s.file.steps, t.id = run → t.status = .completed

/-- The time of the step's wait is up. -/
def TimedOut (s : CompanyState) (run : Nat) : Prop :=
  ∃ w ∈ s.file.waits, w.stepRunId = run ∧ w.resolution = some "timeout"

/-- The step was left, with what the statuses of its proposals come to. -/
def Leaves (node : MessageNode) (run : Nat) (s t : CompanyState) : Prop :=
  Concluded node t.file run (companyVerdict (t.statuses run)) ∧ (t.Decided run ∨ s.TimedOut run)

section Stages

variable {specs : Nat → Option JourneySpec} {spec : JourneySpec} {node : MessageNode}
  {visit : Nat} {env : StepEnv}

/-- **A node that runs at the message**: the file's own run, with the proposals that it makes. -/
theorem runNode_eq_some (h : AtMessage specs spec node visit s.file)
    (hrun : s.runNode specs env = some t) :
    ∃ g more, s.file.runNode specs env = .ok (g, more) ∧
      let drafts := if (g.visitRun node.id visit).isSome then
        s.file.companyDrafts env (.message node) visit else []
      t = { s with
        file := g.clearErrors, outbox := s.outbox ++ drafts, inbox := s.inbox ++ toldOf drafts } ∧
      Reads env t.outbox (s.file.runIdOf (.message node) visit) := by
  unfold runNode at hrun
  split at hrun
  · cases hrun
  · rename_i g more hfile
    rw [h.visiting_eq] at hrun
    dsimp only at hrun
    obtain ⟨hreads, ht⟩ := Option.ite_none_right_eq_some.1 hrun
    obtain rfl := Option.some.inj ht
    exact ⟨g, more, hfile, rfl, hreads⟩

/-- What the step reads, in the words of its outbox. -/
theorem Reads.statuses_eq (h : Reads env t.outbox run) :
    ((env.runProposals.map (·.status) : List ProposalStatus) : Multiset ProposalStatus) =
      t.statuses run := by
  have hperm := h.1.map (·.status)
  rw [List.map_map] at hperm
  exact Multiset.coe_eq_coe.2 hperm

theorem Reads.decided (h : Reads env t.outbox run) (hdecided : t.Decided run) :
    ∀ p ∈ env.runProposals, p.status.terminal = true := by
  intro p hp
  refine hdecided _ ?_
  rw [← h.statuses_eq]
  exact Multiset.mem_coe.2 (List.mem_map_of_mem hp)

theorem Reads.ne_nil (h : Reads env t.outbox run) (hproposed : ∃ r ∈ t.outbox, r.stepRunId = run) :
    env.runProposals ≠ [] := by
  obtain ⟨r, hr, hrun⟩ := hproposed
  intro hnil
  have hmem : r.proposal ∈ env.runProposals :=
    h.1.mem_iff.2 (List.mem_map_of_mem (List.mem_filter.2 ⟨hr, by simp [hrun]⟩))
  rw [hnil] at hmem
  cases hmem

variable {f : EnrollmentFile} {e : ProposalEvent} {status : ProposalStatus} {id : String}
  {r : Resolver} {u : StepRun} {a : CompanyAct}

/-- The place of an enrollment whose errors are cleared. -/
theorem atMessage_clearErrors (h : AtMessage specs spec node visit f)
    (hopen : f.row.state.isOpen = true) : AtMessage specs spec node visit f.clearErrors := by
  unfold EnrollmentFile.clearErrors
  split
  · exact h.updateRow rfl rfl rfl rfl hopen rfl
  · exact h

theorem clearErrors_rows (f : EnrollmentFile) : f.clearErrors.steps = f.steps ∧
    f.clearErrors.waits = f.waits ∧ f.clearErrors.nextId = f.nextId ∧
      f.clearErrors.row.state = f.row.state := by
  unfold EnrollmentFile.clearErrors
  split <;> exact ⟨rfl, rfl, rfl, rfl⟩

/-! ### Steps that leave the file alone -/

/-- A decision is written to the outbox, and told. -/
theorem step_decide (h : step specs s (.decide e status) = some t) :
    status.terminal = true ∧ (∃ r ∈ s.outbox, r.proposal.id = e.proposalId) ∧ t = { s with
      outbox := writeProposal s.outbox e.proposalId fun p => { p with status }
      inbox := s.inbox ++ [e] } := by
  obtain ⟨⟨hresolution, hrow⟩, ht⟩ := Option.ite_none_right_eq_some.1 h
  refine ⟨?_, hrow, (Option.some.inj ht).symm⟩
  cases status with
  | pending | approved => cases hresolution
  | sent | dismissed | withdrawn | failed => rfl

variable {at' : Option Instant}

theorem step_revise (h : step specs s (.revise id status at') = some t) : status.terminal = false ∧
      (∀ r ∈ s.outbox, r.proposal.id = id → r.proposal.status.terminal = false) ∧ t = { s with
        outbox := writeProposal s.outbox id fun p => { p with status, scheduledSendAt := at' }
    } := by
  obtain ⟨⟨hstatus, hrows⟩, ht⟩ := Option.ite_none_right_eq_some.1 h
  exact ⟨hstatus, hrows, (Option.some.inj ht).symm⟩

/-- What the writes of the outbox do to a step: its proposals stay decided, and those that are
decided now were decided before, unless the decision told of one of them. -/
structure Rewritten (run : Nat) (s t : CompanyState) : Prop where
  file : t.file = s.file
  found : t.found = s.found
  rows : ∀ r ∈ t.outbox, ∃ r' ∈ s.outbox, r'.stepRunId = r.stepRunId
  keyed : s.Keyed → t.Keyed
  tells : ∀ e, s.Tells run e → t.Tells run e
  inbox : ∀ e ∈ s.inbox, e ∈ t.inbox
  decided : s.Decided run → t.Decided run
  told : t.Decided run → s.Decided run ∨ ∃ e ∈ t.inbox, t.Tells run e

/-- A write to one proposal that does not open it again; if it decides it, the inbox tells. -/
theorem rewritten_write {g : RunProposal → RunProposal}
    (hout : t.outbox = writeProposal s.outbox id g) (hid : ∀ p, (g p).id = p.id)
    (hfile : t.file = s.file) (hfound : t.found = s.found) (hinbox : ∀ e ∈ s.inbox, e ∈ t.inbox)
    (hkeep : ∀ r ∈ s.outbox, r.proposal.id = id → r.proposal.status.terminal = true →
      (g r.proposal).status.terminal = true)
    (htold : ∀ r ∈ s.outbox, r.proposal.id = id → (g r.proposal).status.terminal = true →
      ∃ e ∈ t.inbox, e.proposalId = id) : Rewritten run s t := by
  have htells : ∀ e, s.Tells run e → t.Tells run e := by
    rintro e ⟨r, hr, hrun, hre⟩
    obtain ⟨r', hr', hrun', hid', -⟩ := row_of_write id hid hr
    exact ⟨r', hout ▸ hr', hrun'.trans hrun, hid'.trans hre⟩
  refine ⟨hfile, hfound, fun r hr => ?_, fun hk => ?_, htells, hinbox,
    fun hd => decided_iff.2 fun r hr hrun => ?_, fun hd => ?_⟩
  · rw [hout] at hr
    obtain ⟨r', hr', rfl⟩ := mem_writeProposal.1 hr
    refine ⟨r', hr', ?_⟩
    split <;> rfl
  · unfold Keyed
    rw [hout, map_id_writeProposal hid]
    exact hk
  · rw [hout] at hr
    obtain ⟨r', hr', rfl⟩ := mem_writeProposal.1 hr
    split at hrun
    · rename_i heq
      rw [if_pos heq]
      exact hkeep r' hr' heq (decided_iff.1 hd r' hr' hrun)
    · rw [if_neg ‹_›]
      exact decided_iff.1 hd r' hr' hrun
  · by_cases hof : ∃ r ∈ s.outbox, r.stepRunId = run ∧ r.proposal.id = id
    · -- The proposal that was written is decided now.
      obtain ⟨r, hr, hrun, hre⟩ := hof
      obtain ⟨r', hr', hrun', -, -, hwritten⟩ := row_of_write _ hid hr
      have hdone := decided_iff.1 hd r' (hout ▸ hr') (hrun'.trans hrun)
      rw [hwritten hre] at hdone
      obtain ⟨e, he, hof⟩ := htold r hr hre hdone
      exact .inr ⟨e, he, htells e ⟨r, hr, hrun, hre.trans hof.symm⟩⟩
    · refine .inl (decided_iff.2 fun r hr hrun => ?_)
      obtain ⟨r', hr', hrun', -, hsame, -⟩ := row_of_write _ hid hr
      have hdone := decided_iff.1 hd r' (hout ▸ hr') (hrun'.trans hrun)
      rwa [hsame fun heq => hof ⟨r, hr, hrun, heq⟩] at hdone

theorem rewritten_decide (h : step specs s (.decide e status) = some t) : Rewritten run s t := by
  obtain ⟨hterminal, -, rfl⟩ := step_decide h
  exact rewritten_write (g := fun p => { p with status }) rfl (fun _ => rfl) rfl rfl
    (fun _ he => List.mem_append_left _ he) (fun _ _ _ _ => hterminal)
    fun _ _ _ _ => ⟨e, List.mem_append_right _ (List.mem_singleton_self e), rfl⟩

theorem rewritten_revise
    (h : step specs s (.revise id status at') = some t) : Rewritten run s t := by
  obtain ⟨hopen, hrows, rfl⟩ := step_revise h
  refine rewritten_write (g := fun p => { p with status, scheduledSendAt := at' }) rfl
    (fun _ => rfl) rfl rfl (fun _ he => he) (fun r hr hid hdone => ?_) fun r _ _ hdone => ?_
  · rw [hrows r hr hid] at hdone
    cases hdone
  · exact absurd (hopen.symm.trans hdone) Bool.false_ne_true

theorem Rewritten.proposed (h : Rewritten run s t) (hs : ∃ r ∈ s.outbox, r.stepRunId = run) :
    ∃ r ∈ t.outbox, r.stepRunId = run := by
  obtain ⟨r, hr, hrun⟩ := hs
  obtain ⟨r', hr', hrun', -⟩ := h.tells ⟨r.proposal.id, "", none, none⟩ ⟨r, hr, hrun, rfl⟩
  exact ⟨r', hr', hrun'⟩

theorem Resolves.mono {w : JourneyWait} (hd : s.Decided run → t.Decided run)
    (h : s.Resolves run w r) : t.Resolves run w r := by
  cases r with
  | event id e named => exact ⟨h.1, h.2.1, hd h.2.2⟩
  | due id timedOut now => exact h

theorem Entering.rewritten (hs : Entering specs spec node visit run s) (h : Rewritten run s t) :
    Entering specs spec node visit run t where
  place := h.file ▸ hs.place
  active := h.file ▸ hs.active
  first := h.file ▸ hs.first
  next := h.file ▸ hs.next
  nobody := h.found.trans hs.nobody
  older r hr := by
    obtain ⟨r', hr', hrun⟩ := h.rows r hr
    exact hrun ▸ hs.older r' hr'
  keyed := h.keyed hs.keyed

theorem Awaiting.rewritten (hs : Awaiting specs spec node visit run s) (h : Rewritten run s t) :
    Awaiting specs spec node visit run t where
  place := h.file ▸ hs.place
  row := h.file ▸ hs.row
  wait := by
    obtain ⟨w, hw, hof, hopen, hfound⟩ := hs.wait
    refine ⟨w, hw, h.file ▸ hof, h.file ▸ hopen, fun r hr => ?_⟩
    exact (hfound r (h.found ▸ hr)).mono h.decided
  told hd := by
    rcases h.told hd with hbefore | htold
    · obtain ⟨e, he, htells⟩ := hs.told hbefore
      exact ⟨e, h.inbox e he, h.tells e htells⟩
    · exact htold
  proposed := h.proposed hs.proposed
  keyed := h.keyed hs.keyed

theorem Woken.rewritten (hs : Woken specs spec node visit run s) (h : Rewritten run s t) :
    Woken specs spec node visit run t where
  place := h.file ▸ hs.place
  active := h.file ▸ hs.active
  row := h.file ▸ hs.row
  wait := by
    obtain ⟨w, hof, hresolved, hwhy⟩ := hs.wait
    exact ⟨w, h.file ▸ hof, hresolved, hwhy.imp_left h.decided⟩
  proposed := h.proposed hs.proposed
  keyed := h.keyed hs.keyed

/-! ### Transactions that look for a wait -/

theorem step_look (h : step specs s (.look e) = some t) :
    (s.waitOf e.proposalId = none ∧ t = { s with inbox := s.inbox.erase e }) ∨
      ∃ w named, s.waitOf e.proposalId = some (w, named) ∧
        t = { s with found := s.found ++ [.event w.id e named] } := by
  unfold step at h
  dsimp only at h
  split at h
  · exact .inl ⟨‹_›, (Option.some.inj h).symm⟩
  · exact .inr ⟨_, _, ‹_›, (Option.some.inj h).symm⟩

/-- Without an open wait nothing is found. -/
theorem waitOf_eq_none (hnone : s.file.openWaits = []) (proposalId : String) :
    s.waitOf proposalId = none := by
  unfold waitOf
  rw [hnone, List.find?_nil]
  dsimp only
  cases s.outbox.find? (·.proposal.id = proposalId) with
  | none => rfl
  | some row =>
    rw [Option.bind_some, List.find?_nil]
    rfl

theorem found_look (hnone : s.file.openWaits = [])
    (h : step specs s (.look e) = some t) : t = { s with inbox := s.inbox.erase e } := by
  rcases step_look h with ⟨-, ht⟩ | ⟨w, named, hw, -⟩
  · exact ht
  · rw [waitOf_eq_none hnone] at hw
    cases hw

theorem found_lookDue (hnone : s.file.openWaits = []) {now : Instant}
    (h : step specs s (.lookDue now) = some t) : t = s := by
  have ht := Option.some.inj h
  rw [hnone, List.filter_nil, List.map_nil, List.append_nil] at ht
  exact ht.symm

theorem Awaiting.look (hs : Awaiting specs spec node visit run s)
    (h : step specs s (.look e) = some t) : Awaiting specs spec node visit run t := by
  obtain ⟨w, hw, hof, hopen, hfound⟩ := hs.wait
  rcases step_look h with ⟨hnone, rfl⟩ | ⟨v, named, hv, rfl⟩
  · refine { hs with wait := ⟨w, hw, hof, hopen, hfound⟩, told := fun hd => ?_ }
    obtain ⟨e', he', htells⟩ := hs.told hd
    refine ⟨e', (List.mem_erase_of_ne fun heq => ?_).2 he', htells⟩
    -- An event of the step would have found its wait.
    rw [← heq, hw.waitOf_eq hopen hs.keyed hd htells] at hnone
    cases hnone
  · obtain ⟨rfl, rfl, hd⟩ := hw.of_waitOf hopen hv
    refine { hs with wait := ⟨v, hw, hof, hopen, fun r hr => ?_⟩ }
    rcases List.mem_append.1 hr with hr | hr
    · exact hfound r hr
    · rw [List.mem_singleton.1 hr]
      exact ⟨rfl, rfl, hd⟩

theorem Awaiting.lookDue (hs : Awaiting specs spec node visit run s) {now : Instant}
    (h : step specs s (.lookDue now) = some t) : Awaiting specs spec node visit run t := by
  obtain ⟨w, hw, hof, hopen, hfound⟩ := hs.wait
  obtain rfl := Option.some.inj h
  refine { hs with wait := ⟨w, hw, hof, hopen, fun r hr => ?_⟩ }
  rcases List.mem_append.1 hr with hr | hr
  · exact hfound r hr
  · obtain ⟨v, hv, rfl⟩ := List.mem_map.1 hr
    obtain ⟨hmem, hdue⟩ := List.mem_filter.1 hv
    rw [hopen] at hmem
    obtain rfl := List.mem_singleton.1 hmem
    have htime : v.timeoutAt.any (· ≤ now) = true := by
      simpa [due, hw.wakeAt] using hdue
    exact ⟨rfl, by simp [hw.wakeAt], htime⟩

theorem Awaiting.drop (hs : Awaiting specs spec node visit run s) (r : Resolver) :
    Awaiting specs spec node visit run { s with found := s.found.erase r } := by
  obtain ⟨w, hw, hof, hopen, hfound⟩ := hs.wait
  exact { hs with wait := ⟨w, hw, hof, hopen, fun r' hr' => hfound r' (List.mem_of_mem_erase hr')⟩ }

/-! ### Transactions that resolve a wait -/

/-- The thread that an event gives is all that it changes before it resolves a wait. -/
theorem remember_eq (f : EnrollmentFile) (r : Resolver) :
    ∃ thread, r.remember f = f.updateRow fun e => { e with conversationId := thread } := by
  have hsame : f = f.updateRow fun e => { e with conversationId := f.row.conversationId } := rfl
  unfold Resolver.remember
  split
  · split
    · unfold EnrollmentFile.rememberThread
      split
      · exact ⟨_, rfl⟩
      · exact ⟨_, hsame⟩
    · exact ⟨_, hsame⟩
  · exact ⟨_, hsame⟩

theorem resolveWait_of_none (hnone : f.openWaits = []) (id : Nat)
    (resolution : String) (context : Record) (clock : Instant) :
    f.resolveWait id resolution context clock = f := by
  unfold EnrollmentFile.resolveWait
  rw [hnone, List.find?_nil]

theorem steps_resolveWait (f : EnrollmentFile) (id : Nat) (resolution : String)
    (context : Record) (clock : Instant) :
    (f.resolveWait id resolution context clock).steps = f.steps ∧
      (f.resolveWait id resolution context clock).nextId = f.nextId := by
  rcases resolveWait_cases f id resolution context clock with
    ⟨-, heq⟩ | ⟨-, heq | ⟨-, p, heq, -⟩⟩ <;> rw [heq] <;> exact ⟨rfl, rfl⟩

theorem atMessage_remember (h : AtMessage specs spec node visit f)
    (hopen : f.row.state.isOpen = true) (r : Resolver) :
    AtMessage specs spec node visit (r.remember f) := by
  obtain ⟨thread, heq⟩ := remember_eq f r
  rw [heq]
  exact h.updateRow rfl rfl rfl rfl hopen rfl

theorem atMessage_resolveWait (h : AtMessage specs spec node visit f)
    (id : Nat) (resolution : String) (context : Record) (clock : Instant) :
    AtMessage specs spec node visit (f.resolveWait id resolution context clock) := by
  have hrow : ∀ {α : Type} (p : Enrollment → α), (∀ e context, p { e with context } = p e) →
      (∀ e context state nextRunAt, p { e with context, state, nextRunAt } = p e) →
      p (f.resolveWait id resolution context clock).row = p f.row := by
    intro α p hcontext hstate
    rcases resolveWait_cases f id resolution context clock with
      ⟨-, heq⟩ | ⟨-, heq | ⟨-, q, heq, rfl | rfl⟩⟩ <;> rw [heq]
    · rfl
    · exact hcontext f.row _
    · exact hstate f.row _ _ _
  have hversion := hrow (·.version) (fun _ _ => rfl) fun _ _ _ _ => rfl
  have hvisits := hrow (·.visits) (fun _ _ => rfl) fun _ _ _ _ => rfl
  exact
    { waits := waitsOk_resolveWait h.waits _ _ _ _
      asks := h.asks.resolveWait _ _ _ _
      inVersion := hversion ▸ h.inVersion
      conforms := h.conforms
      isNode := h.isNode
      current := (hrow (·.currentNode) (fun _ _ => rfl) fun _ _ _ _ => rfl).trans h.current
      count := hvisits ▸ h.count
      admitted := h.admitted
      company := (hrow (·.ofCompany) (fun _ _ => rfl) fun _ _ _ _ => rfl).trans h.company
      approval := h.approval }

/-- **The wait is resolved**: everyone is settled, or its time is up. -/
theorem Awaiting.resolve (hs : Awaiting specs spec node visit run s)
    {clock : Instant} (h : step specs s (.resolve r clock) = some t) :
    Woken specs spec node visit run t := by
  obtain ⟨w, hw, hof, hopen, hfound⟩ := hs.wait
  obtain ⟨hr, ht⟩ := Option.ite_none_right_eq_some.1 h
  have hresolves := hfound r hr
  have hremember : r.remember s.file = s.file := by
    cases r with
    | event id e named =>
      obtain ⟨-, rfl, -⟩ := hresolves
      rfl
    | due => rfl
  have hid : r.waitId = w.id := by
    cases r <;> exact hresolves.1
  rw [hremember, hid] at ht
  obtain rfl := Option.some.inj ht
  have hmem : w ∈ s.file.openWaits := hopen ▸ List.mem_singleton_self w
  have hactive : (s.file.resolveWait w.id r.resolution [] clock).row.state = .active := by
    have hkind : w.kind ≠ .conversationClose := by
      rw [hw.kind]
      decide
    refine (isWoken_resolveWait hs.place.waits hmem hkind _ _ _).resolve_right ?_
    rintro ⟨v, hv, -⟩
    obtain ⟨hv, hne⟩ := mem_openWaits_resolveWait hv
    rw [hopen] at hv
    exact hne (by rw [List.mem_singleton.1 hv])
  have hsteps := (steps_resolveWait s.file w.id r.resolution [] clock).1
  have hwaits := waitsOf_resolveWait hmem (by rw [hw.ofRun, hof]) r.resolution [] clock
  rw [hw.ofRun] at hwaits
  refine ⟨atMessage_resolveWait hs.place _ _ _ _, hactive, ?_, ⟨_, hwaits, rfl, ?_⟩, hs.proposed,
    hs.keyed⟩
  · obtain ⟨u, hu, hrow⟩ := hs.row
    exact ⟨u, hsteps ▸ hu, hrow⟩
  · cases r with
    | event id e named => exact .inl hresolves.2.2
    | due id timedOut now =>
      obtain ⟨-, rfl, -⟩ := hresolves
      exact .inr rfl

theorem Woken.resolve (hs : Woken specs spec node visit run s) {clock : Instant}
    (h : step specs s (.resolve r clock) = some t) : Woken specs spec node visit run t := by
  obtain ⟨-, ht⟩ := Option.ite_none_right_eq_some.1 h
  have hopen : s.file.row.state.isOpen = true := isOpen_iff.2 (.inl hs.active)
  obtain ⟨thread, heq⟩ := remember_eq s.file r
  have hplace := atMessage_remember hs.place hopen r
  have hnone : (r.remember s.file).openWaits = [] := by
    rw [heq]
    exact hs.place.waits.active hs.active
  rw [resolveWait_of_none hnone] at ht
  obtain rfl := Option.some.inj ht
  rw [heq] at hplace
  refine ⟨?_, ?_, ?_, ?_, hs.proposed, hs.keyed⟩ <;> dsimp only <;> rw [heq]
  · exact hplace
  · exact hs.active
  · exact hs.row
  · exact hs.wait

/-! ### Runs of the node -/

theorem companyDrafts_later (h : f.visitRun node.id visit = some u) :
    f.companyDrafts env (.message node) visit = [] := by
  unfold EnrollmentFile.companyDrafts
  simp [h]

/-- A later run of the node proposes nothing more. -/
theorem runNode_later (hplace : AtMessage specs spec node visit s.file)
    (hopen : s.file.row.state.isOpen = true) (hu : u ∈ s.file.steps)
    (hid : u.id = run) (hnode : u.nodeId = node.id) (hvisit : u.visit = visit)
    (hrun : s.runNode specs env = some t) :
    ∃ g more, s.file.runNode specs env = .ok (g, more) ∧ t = { s with file := g.clearErrors } ∧
      Reads env s.outbox run := by
  obtain ⟨g, more, hfile, ht, hreads⟩ := runNode_eq_some hplace hrun
  have hfind := visitRun_eq (hplace.asks.records hopen) hu hnode hvisit
  rw [companyDrafts_later hfind, ite_self, List.append_nil] at ht
  have hrunId : s.file.runIdOf (.message node) visit = run := by
    unfold EnrollmentFile.runIdOf
    rw [show (JourneyNode.message node).id = node.id from rfl, hfind]
    exact hid
  refine ⟨g, more, hfile, ?_, ?_⟩
  · rw [ht]
    unfold toldOf
    rw [List.filterMap_nil, List.append_nil]
  · rw [hrunId, ht] at hreads
    exact hreads

theorem Awaiting.runs (hs : Awaiting specs spec node visit run s)
    (h : step specs s (.run env) = some t) : Awaiting specs spec node visit run t := by
  obtain ⟨w, hw, hof, hopenWaits, hfound⟩ := hs.wait
  obtain ⟨u, hu, hid, hwaiting, hnode, hvisit⟩ := hs.row
  have hstate : s.file.row.state = .waiting :=
    hs.place.waits.state_of_open (hopenWaits ▸ List.mem_singleton_self w)
  have hopen : s.file.row.state.isOpen = true := isOpen_iff.2 (.inr hstate)
  obtain ⟨g, more, hfile, rfl, -⟩ := runNode_later hs.place hopen hu hid hnode hvisit h
  have hg : g = s.file := by
    unfold EnrollmentFile.runNode at hfile
    rw [hstate] at hfile
    exact (Prod.mk.inj (Except.ok.inj hfile)).1.symm
  subst hg
  obtain ⟨hsteps, hwaits, -, -⟩ := clearErrors_rows s.file
  refine ⟨atMessage_clearErrors hs.place hopen, ⟨u, hsteps ▸ hu, hid, hwaiting, hnode, hvisit⟩,
    ⟨w, hw, ?_, ?_, hfound⟩, hs.told, hs.proposed, hs.keyed⟩
  · unfold EnrollmentFile.waitsOf
    rw [hwaits]
    exact hof
  · unfold EnrollmentFile.openWaits
    rw [hwaits]
    exact hopenWaits

/-- **The step goes on**: once the node runs, it is left with what its proposals come to. -/
theorem Woken.runs (hs : Woken specs spec node visit run s) (h : step specs s (.run env) = some t) :
    (env.journeyLive = false ∧ Woken specs spec node visit run t) ∨
      (env.journeyLive = true ∧ Done specs run t ∧ Leaves node run s t) := by
  obtain ⟨u, hu, rfl, hwaiting, hnode, hvisit⟩ := hs.row
  obtain ⟨w, hof, hresolved, hwhy⟩ := hs.wait
  have hopen : s.file.row.state.isOpen = true := isOpen_iff.2 (.inl hs.active)
  obtain ⟨g, more, hfile, rfl, hreads⟩ := runNode_later hs.place hopen hu rfl hnode hvisit h
  have hkept := keepsDone_runNode hs.place.asks hfile
  have hasks := asksOk_runNode hs.place.asks hs.place.waits hfile
  have hwaitsOk := waitsOk_runNode hs.place.waits hfile
  rw [hs.place.runNode_eq hs.active] at hfile
  cases hlive : env.journeyLive with
  | false =>
    rw [hlive] at hfile
    obtain ⟨rfl, -⟩ := Prod.mk.inj (Except.ok.inj hfile)
    obtain ⟨hsteps, hwaits, -, hstate⟩ := clearErrors_rows s.file
    refine .inl ⟨rfl, atMessage_clearErrors hs.place hopen, hstate.trans hs.active,
      ⟨u, hsteps ▸ hu, rfl, hwaiting, hnode, hvisit⟩, ⟨w, ?_, hresolved, hwhy⟩, hs.proposed,
      hs.keyed⟩
    unfold EnrollmentFile.waitsOf
    rw [hwaits]
    exact hof
  | true =>
    rw [hlive, if_pos rfl, hs.place.runVisit_resumed
      (visitRun_eq (hs.place.asks.records hopen) hu hnode hvisit) hwaiting hof hresolved] at hfile
    split at hfile
    · cases hfile
    · have hdone : (∀ p ∈ env.runProposals, p.status.terminal = true) ∨
          w.resolution = some "timeout" := hwhy.imp_left fun hd => hreads.decided hd
      rw [companyMessageOutcome_eq (hreads.ne_nil hs.proposed) hdone, hreads.statuses_eq] at hfile
      have hg := congrArg Prod.fst (Except.ok.inj hfile)
      dsimp only at hg
      have hlt : u.id < s.file.nextId := (hs.place.asks.records hopen).fresh u hu
      have hconcluded : Concluded node g u.id (companyVerdict (s.statuses u.id)) := by
        rw [← hg]
        exact concluded_settle ⟨u, hu, rfl⟩ hs.active hs.place.next_ne _
          (not_completed_of_verdict _)
      have hcompleted : ∀ v ∈ g.steps, v.id = u.id → v.status = .completed := by
        rw [← hg]
        exact completed_settle hlt _ _
      obtain ⟨hsteps, -, hnextId, -⟩ := clearErrors_rows g
      refine .inr ⟨rfl, ⟨waitsOk_clearErrors hwaitsOk, hasks.clearErrors, ?_, ?_, ?_⟩,
        hconcluded.clearErrors, ?_⟩
      · exact hnextId ▸ Nat.lt_of_lt_of_le hlt hkept.nextId
      · obtain ⟨v, hv, hvid, -⟩ := hconcluded.step
        exact ⟨v, hsteps ▸ hv, hvid⟩
      · intro v hv
        exact hcompleted v (hsteps ▸ hv)
      · refine hwhy.imp (fun hd => hd) fun htime => ⟨w, ?_, ?_, htime⟩
        all_goals
          have hmem : w ∈ s.file.waitsOf u.id := hof ▸ List.mem_singleton_self w
          obtain ⟨hin, hkey⟩ := List.mem_filter.1 hmem
        · exact hin
        · simpa using (Bool.and_eq_true_iff.1 hkey).1

/-- The node runs, unless it is kept from running. -/
theorem Woken.enabled (hs : Woken specs spec node visit run s) (hlive : env.journeyLive = true)
    (hfailure : env.failure = none) (hreads : Reads env s.outbox run) :
    ∃ t, step specs s (.run env) = some t := by
  obtain ⟨u, hu, rfl, hwaiting, hnode, hvisit⟩ := hs.row
  obtain ⟨w, hof, hresolved, -⟩ := hs.wait
  have hfind := visitRun_eq (hs.place.asks.records (isOpen_iff.2 (.inl hs.active))) hu hnode hvisit
  have hfile := hs.place.runNode_eq hs.active env
  rw [if_pos hlive, hs.place.runVisit_resumed hfind hwaiting hof hresolved, hfailure] at hfile
  have hrunId : s.file.runIdOf (.message node) visit = u.id := by
    unfold EnrollmentFile.runIdOf
    rw [show (JourneyNode.message node).id = node.id from rfl, hfind]
    rfl
  change ∃ t, s.runNode specs env = some t
  unfold runNode
  rw [hfile, hs.place.visiting_eq]
  dsimp only
  rw [companyDrafts_later hfind, ite_self, List.append_nil, hrunId, if_pos hreads]
  exact ⟨_, rfl⟩

/-- One proposal for each recipient. -/
theorem companyDrafts_first (hplace : AtMessage specs spec node visit f)
    (hfirst : f.visitRun node.id visit = none) :
    f.companyDrafts env (.message node) visit = env.companyRecipients.map fun contactId =>
      let p := env.propose contactId
      ⟨f.nextId, ⟨p.id, contactId, p.status, p.scheduledSendAt⟩⟩ := by
  unfold EnrollmentFile.companyDrafts
  dsimp only
  rw [if_pos (by simp [hfirst, hplace.approval, hplace.company])]

/-- A run that opens the step's wait. -/
theorem Awaiting.opens (hs : Entering specs spec node visit run s) {k : EnrollmentFile}
    (hrow : k.row = s.file.row) (hwaits : k.waits = s.file.waits)
    (hstep : ∃ u ∈ k.steps, u.id = run ∧ u.nodeId = node.id ∧ u.visit = visit)
    {output : Option Record} {reason : Option String}
    (hok : WaitsOk True (k.settle env spec run 1 (.wait (companyWait env run) output reason)).1)
    (hasks : AsksOk specs (k.settle env spec run 1 (.wait (companyWait env run) output reason)).1)
    {outbox : List OutboxRow} {inbox : List ProposalEvent}
    (hopen : ∃ r ∈ outbox, r.stepRunId = run ∧ r.proposal.status.terminal = false)
    (hkeyed : (outbox.map (·.proposal.id)).Nodup) :
    Awaiting specs spec node visit run
      { s with
        file := (k.settle env spec run 1 (.wait (companyWait env run) output reason)).1
        outbox, inbox } := by
  have hrecords := hs.place.asks.records (isOpen_iff.2 (.inl hs.active))
  obtain ⟨u, hu, rfl, hnode, hvisit⟩ := hstep
  refine ⟨?_, ⟨_, List.mem_map_of_mem hu, ?_⟩, ⟨k.newWait u.id (companyWait env u.id) env.clock,
    ⟨rfl, rfl, rfl, rfl⟩, ?_, ?_, ?_⟩, fun hd => ?_, ?_, hkeyed⟩
  · have hsame : ∀ {α : Type} (p : Enrollment → α),
        (∀ e state nextRunAt, p { e with state, nextRunAt } = p e) → p ((k.settle env spec u.id 1
          (.wait (companyWait env u.id) output reason)).1).row = p s.file.row := by
      intro α p hp
      rw [← hrow]
      exact hp k.row _ _
    have hversion := hsame (·.version) fun _ _ _ => rfl
    have hvisits := hsame (·.visits) fun _ _ _ => rfl
    exact
      { waits := hok
        asks := hasks
        inVersion := hversion ▸ hs.place.inVersion
        conforms := hs.place.conforms
        isNode := hs.place.isNode
        current := (hsame (·.currentNode) fun _ _ _ => rfl).trans hs.place.current
        count := hvisits ▸ hs.place.count
        admitted := hs.place.admitted
        company := (hsame (·.ofCompany) fun _ _ _ => rfl).trans hs.place.company
        approval := hs.place.approval }
  · simp [hnode, hvisit]
  · have hnone : k.waitsOf u.id = [] := by
      refine List.filter_eq_nil_iff.2 fun w hw => ?_
      have hlt := hrecords.waitFresh w (hwaits ▸ hw)
      rw [hs.next] at hlt
      simp [Nat.ne_of_lt hlt]
    change ((k.updateStepRun u.id _).openWait u.id _ _).waitsOf u.id = _
    rw [waitsOf_openWait, if_pos ⟨rfl, fun h : WaitKind.proposal = .conversationClose => by cases h⟩]
    change k.waitsOf u.id ++ _ = _
    rw [hnone]
    rfl
  · have hnone : k.openWaits = [] := by
      unfold EnrollmentFile.openWaits
      rw [hwaits]
      exact hs.place.waits.active hs.active
    change ((k.updateStepRun u.id _).openWait u.id _ _).openWaits = _
    rw [openWaits_openWait]
    change k.openWaits ++ _ = _
    rw [hnone]
    rfl
  · intro r hr
    rw [hs.nobody] at hr
    cases hr
  · obtain ⟨r, hr, hrun, hstatus⟩ := hopen
    rw [decided_iff.1 hd r hr hrun] at hstatus
    cases hstatus
  · obtain ⟨r, hr, hrun, -⟩ := hopen
    exact ⟨r, hr, hrun⟩

/-- The step after its errors are cleared. -/
theorem Awaiting.clearErrors (h : Awaiting specs spec node visit run { s with file := f }) :
    Awaiting specs spec node visit run { s with file := f.clearErrors } := by
  obtain ⟨w, hw, hof, hopenWaits, hfound⟩ := h.wait
  obtain ⟨u, hu, hrow⟩ := h.row
  have hopen : f.row.state.isOpen = true := isOpen_iff.2 (.inr
    (h.place.waits.state_of_open (hopenWaits ▸ List.mem_singleton_self w)))
  obtain ⟨hsteps, hwaits, -, -⟩ := clearErrors_rows f
  refine ⟨atMessage_clearErrors h.place hopen, ⟨u, hsteps ▸ hu, hrow⟩, ⟨w, hw, ?_, ?_, hfound⟩,
    h.told, h.proposed, h.keyed⟩
  · unfold EnrollmentFile.waitsOf
    rw [hwaits]
    exact hof
  · unfold EnrollmentFile.openWaits
    rw [hwaits]
    exact hopenWaits

/-- A node that is not run leaves the step to come. -/
theorem Entering.unrun (hs : Entering specs spec node visit run s) {g : EnrollmentFile}
    (hplace : AtMessage specs spec node visit g) (hactive : g.row.state = .active)
    (hsteps : g.steps = s.file.steps) (hnext : g.nextId = s.file.nextId) :
    Entering specs spec node visit run { s with file := g.clearErrors } := by
  obtain ⟨hsteps', -, hnext', hstate⟩ := clearErrors_rows g
  refine ⟨atMessage_clearErrors hplace (isOpen_iff.2 (.inl hactive)), hstate.trans hactive, ?_,
    (hnext'.trans hnext).trans hs.next, hs.nobody, hs.older, hs.keyed⟩
  unfold EnrollmentFile.visitRun
  rw [hsteps', hsteps]
  exact hs.first

/-- **The first run of the node**: nothing, while the journey or the node is paused; the step's wait,
while a proposal is open; else the step is left at once. -/
theorem Entering.runs (hs : Entering specs spec node visit run s)
    (h : step specs s (.run env) = some t) :
    Entering specs spec node visit run t ∨ Awaiting specs spec node visit run t ∨
      (Done specs run t ∧ Leaves node run s t) := by
  have hopen : s.file.row.state.isOpen = true := isOpen_iff.2 (.inl hs.active)
  obtain ⟨g, more, hfile, ht, hreads⟩ := runNode_eq_some hs.place h
  have hrunId : s.file.runIdOf (.message node) visit = run := by
    unfold EnrollmentFile.runIdOf
    rw [show (JourneyNode.message node).id = node.id from rfl, hs.first]
    exact hs.next
  rw [hrunId] at hreads
  have hasks := asksOk_runNode hs.place.asks hs.place.waits hfile
  have hwaitsOk := waitsOk_runNode hs.place.waits hfile
  -- A node that is not run proposes nothing.
  have hunrun : g.visitRun node.id visit = none → t = { s with file := g.clearErrors } := by
    intro hnone
    rw [ht, hnone]
    simp [toldOf]
  rw [hs.place.runNode_eq hs.active] at hfile
  split at hfile
  · rcases hs.place.runVisit_first hs.first hfile with
      rfl | ⟨k, hrow, hwaits, hnextId, hstep, hg⟩
    · left
      rw [hunrun hs.first]
      exact hs.unrun (hs.place.updateRow rfl rfl rfl rfl hopen rfl) hs.active rfl rfl
    · right
      rw [hs.next] at hstep hg
      have hactive : k.row.state = .active := by rw [hrow, hs.active]
      have hlt : run < k.nextId := by
        rw [hnextId, hs.next]
        exact Nat.lt_succ_self run
      have hdrafts : (if (g.visitRun node.id visit).isSome then
          s.file.companyDrafts env (.message node) visit else []) =
            s.file.companyDrafts env (.message node) visit := by
        refine if_pos ?_
        obtain ⟨u, hu, -, hnode, hvisit⟩ := hstep
        have hrun : g.HasRun node.id visit := hg ▸ hasRun_settle ⟨u, hu, hnode, hvisit⟩ _
        cases hfind : g.visitRun node.id visit with
        | none => exact (visitRun_eq_none hfind hrun).elim
        | some _ => rfl
      rw [hdrafts] at ht
      have htfile : t.file = g.clearErrors := by rw [ht]
      have hleft : ∀ output, g = (k.settle env spec run 1
          (verdictOutcome node output (companyVerdict (t.statuses run)))).1 → t.Decided run →
          Done specs run t ∧ Leaves node run s t := by
        intro output hg hd
        have hconcluded : Concluded node g run (companyVerdict (t.statuses run)) := by
          rw [hg]
          exact concluded_settle (hstep.imp fun u hu => ⟨hu.1, hu.2.1⟩) hactive hs.place.next_ne _
            (not_completed_of_verdict _)
        have hcompleted : ∀ v ∈ g.steps, v.id = run → v.status = .completed := by
          rw [hg]
          exact completed_settle hlt _ _
        obtain ⟨hsteps, -, hnext, -⟩ := clearErrors_rows g
        refine ⟨⟨?_, ?_, ?_, ?_, ?_⟩, ?_, .inl hd⟩
        · exact htfile ▸ waitsOk_clearErrors hwaitsOk
        · exact htfile ▸ hasks.clearErrors
        · rw [htfile, hnext, hg]
          exact Nat.lt_of_lt_of_le hlt (nextId_settle _ _ _ _ _ _)
        · obtain ⟨v, hv, hvid, -⟩ := hconcluded.step
          exact ⟨v, by rw [htfile, hsteps]; exact hv, hvid⟩
        · rw [htfile, hsteps]
          exact hcompleted
        · exact htfile ▸ hconcluded.clearErrors
      split at hg
      · rename_i hnobody
        right
        have hnone : t.statuses run = 0 := by
          have hrows : rowsOf t.outbox run = [] := by
            rw [ht]
            dsimp only
            rw [companyDrafts_first hs.place hs.first, hnobody, List.map_nil, List.append_nil]
            refine List.filter_eq_nil_iff.2 fun r hr => ?_
            simp [Nat.ne_of_lt (hs.older r hr)]
          unfold statuses
          rw [hrows]
          rfl
        have hverdict : companyVerdict (t.statuses run) = (none, "no_recipients") := by
          rw [hnone]
          rfl
        refine hleft none ?_ fun st hst => ?_
        · rw [hverdict]
          exact hg
        · rw [hnone] at hst
          cases hst
      · rename_i hsome
        have hproposed : ∃ r ∈ t.outbox, r.stepRunId = run := by
          obtain ⟨c, cs, hc⟩ := List.exists_cons_of_ne_nil hsome
          rw [ht]
          dsimp only
          rw [companyDrafts_first hs.place hs.first, hc]
          exact ⟨_, List.mem_append_right _ List.mem_cons_self, hs.next⟩
        by_cases hdone : ∀ p ∈ env.runProposals, p.status.terminal = true
        · right
          rw [companyMessageOutcome_eq (hreads.ne_nil hproposed) (.inl hdone),
            hreads.statuses_eq] at hg
          refine hleft _ hg fun st hst => ?_
          rw [← hreads.statuses_eq] at hst
          obtain ⟨p, hp, rfl⟩ := List.mem_map.1 (Multiset.mem_coe.1 hst)
          exact hdone p hp
        · left
          simp only [not_forall, Bool.not_eq_true] at hdone
          obtain ⟨p, hp, hstatus⟩ := hdone
          have htime : (none : Option String) ≠ some "timeout" := nofun
          obtain ⟨output, reason, hwait⟩ := companyMessageOutcome_wait
            { run := s.file.newRun (.message node) visit, enrollment := s.file.row, spec }
            node ⟨p, hp, hstatus⟩ htime
          have hnewId : (s.file.newRun (.message node) visit).id = run := hs.next
          rw [hwait] at hg
          dsimp only at hg
          rw [hnewId] at hg
          have hmem := List.mem_map.1 (hreads.1.mem_iff.1 hp)
          obtain ⟨r, hr, rfl⟩ := hmem
          obtain ⟨hr, hof⟩ := List.mem_filter.1 hr
          subst hg
          rw [ht]
          rw [ht] at hr hreads
          exact (Awaiting.opens hs hrow hwaits hstep hwaitsOk hasks
            ⟨r, hr, of_decide_eq_true hof, hstatus⟩ hreads.2).clearErrors
  · left
    obtain ⟨rfl, -⟩ := Prod.mk.inj (Except.ok.inj hfile)
    rw [hunrun hs.first]
    exact hs.unrun hs.place hs.active rfl rfl

/-! ### After the end -/

/-- The step was left, with this edge and reason. -/
def LeftWith (s : CompanyState) (run : Nat) (verdict : Option String × String) : Prop :=
  ∃ u ∈ s.file.steps, u.id = run ∧ u.status = .completed ∧ u.edgeTaken = verdict.1 ∧
    u.reason = some verdict.2

/-- What leaves completed steps alone leaves a step that was left as it was. -/
theorem LeftWith.keeps {verdict : Option String × String} (h : s.LeftWith run verdict)
    (hkeeps : KeepsDone s.file t.file) : t.LeftWith run verdict := by
  obtain ⟨u, hu, hid, hdone, hverdict⟩ := h
  obtain ⟨p, hp⟩ := hkeeps.forth u hu hdone
  exact ⟨_, hp, hid, hdone, hverdict⟩

theorem Done.keeps (h : Done specs run s) (hkeeps : KeepsDone s.file t.file)
    (hwaits : WaitsOk True t.file) (hasks : AsksOk specs t.file) : Done specs run t where
  waits := hwaits
  asks := hasks
  fresh := Nat.lt_of_lt_of_le h.fresh hkeeps.nextId
  row := by
    obtain ⟨u, hu, hid⟩ := h.row
    obtain ⟨p, hp⟩ := hkeeps.forth u hu (h.completed u hu hid)
    exact ⟨_, hp, hid⟩
  completed u hu hid := by
    obtain ⟨v, hv, hvid, hdone⟩ := hkeeps.back u hu (hid ▸ h.fresh)
    exact hdone (h.completed v hv (hvid.trans hid))

/-- **What a step of the machine does to the file**, once the step was left. -/
theorem Done.step_file (h : Done specs run s) (hstep : step specs s a = some t) :
    KeepsDone s.file t.file ∧ WaitsOk True t.file ∧ AsksOk specs t.file := by
  have hsame : t.file = s.file →
      KeepsDone s.file t.file ∧ WaitsOk True t.file ∧ AsksOk specs t.file := by
    intro heq
    rw [heq]
    exact ⟨keepsDone_of_steps rfl (Nat.le_refl _), h.waits, h.asks⟩
  cases a with
  | run env =>
    have hfile : ∃ g more, s.file.runNode specs env = .ok (g, more) ∧ t.file = g.clearErrors := by
      change s.runNode specs env = some t at hstep
      unfold runNode at hstep
      split at hstep
      · cases hstep
      · rename_i g more hfile
        split at hstep
        · obtain rfl := Option.some.inj hstep
          exact ⟨g, more, hfile, rfl⟩
        · obtain ⟨-, ht⟩ := Option.ite_none_right_eq_some.1 hstep
          obtain rfl := Option.some.inj ht
          exact ⟨g, more, hfile, rfl⟩
    obtain ⟨g, more, hfile, ht⟩ := hfile
    rw [ht]
    exact ⟨(keepsDone_runNode h.asks hfile).trans (keepsDone_clearErrors g),
      waitsOk_clearErrors (waitsOk_runNode h.waits hfile),
      (asksOk_runNode h.asks h.waits hfile).clearErrors⟩
  | decide e status => exact hsame (rewritten_decide hstep : Rewritten run s t).file
  | revise id status at' => exact hsame (rewritten_revise hstep : Rewritten run s t).file
  | look e =>
    refine hsame ?_
    rcases step_look hstep with ⟨-, rfl⟩ | ⟨w, named, -, rfl⟩ <;> rfl
  | lookDue now =>
    obtain rfl := Option.some.inj hstep
    exact hsame rfl
  | drop r =>
    obtain rfl := Option.some.inj hstep
    exact hsame rfl
  | resolve r clock =>
    obtain ⟨-, ht⟩ := Option.ite_none_right_eq_some.1 hstep
    obtain rfl := Option.some.inj ht
    obtain ⟨thread, heq⟩ := remember_eq s.file r
    dsimp only
    rw [heq]
    obtain ⟨hsteps, hnext⟩ := steps_resolveWait
      (s.file.updateRow fun e => { e with conversationId := thread }) r.waitId r.resolution [] clock
    refine ⟨keepsDone_of_steps hsteps hnext.ge, waitsOk_resolveWait ?_ _ _ _ _,
      AsksOk.resolveWait ?_ _ _ _ _⟩
    · exact h.waits.updateRow rfl rfl (.inr rfl)
    · exact h.asks.updateRow rfl rfl rfl rfl

/-! ### Every step -/

/-- A step of the machine, by the stage that it finds. -/
theorem Entering.step (hs : Entering specs spec node visit run s) (h : step specs s a = some t) :
    Entering specs spec node visit run t ∨ Awaiting specs spec node visit run t ∨
      (Done specs run t ∧ Leaves node run s t) := by
  have hnone := hs.place.waits.active hs.active
  cases a with
  | run env => exact hs.runs h
  | decide e status => exact .inl (hs.rewritten (rewritten_decide h))
  | revise id status at' => exact .inl (hs.rewritten (rewritten_revise h))
  | look e => exact .inl (found_look hnone h ▸ { hs with })
  | lookDue now => exact .inl (found_lookDue hnone h ▸ hs)
  | drop r =>
    obtain rfl := Option.some.inj h
    refine .inl { hs with nobody := ?_ }
    rw [hs.nobody]
    rfl
  | resolve r clock =>
    obtain ⟨hr, -⟩ := Option.ite_none_right_eq_some.1 h
    rw [hs.nobody] at hr
    cases hr

theorem Awaiting.step (hs : Awaiting specs spec node visit run s) (h : step specs s a = some t) :
    Awaiting specs spec node visit run t ∨
      (Woken specs spec node visit run t ∧ ∃ r clock, a = .resolve r clock) := by
  cases a with
  | run env => exact .inl (hs.runs h)
  | decide e status => exact .inl (hs.rewritten (rewritten_decide h))
  | revise id status at' => exact .inl (hs.rewritten (rewritten_revise h))
  | look e => exact .inl (hs.look h)
  | lookDue now => exact .inl (hs.lookDue h)
  | drop r =>
    obtain rfl := Option.some.inj h
    exact .inl (hs.drop r)
  | resolve r clock => exact .inr ⟨hs.resolve h, r, clock, rfl⟩

theorem Woken.step (hs : Woken specs spec node visit run s) (h : step specs s a = some t) :
    Woken specs spec node visit run t ∨ (Done specs run t ∧ Leaves node run s t) := by
  have hnone := hs.place.waits.active hs.active
  cases a with
  | run env => exact (hs.runs h).imp (·.2) (·.2)
  | decide e status => exact .inl (hs.rewritten (rewritten_decide h))
  | revise id status at' => exact .inl (hs.rewritten (rewritten_revise h))
  | look e => exact .inl (found_look hnone h ▸ { hs with })
  | lookDue now => exact .inl (found_lookDue hnone h ▸ hs)
  | drop r =>
    obtain rfl := Option.some.inj h
    exact .inl { hs with }
  | resolve r clock => exact .inl (hs.resolve h)

end Stages

end CompanyState

end Munin
