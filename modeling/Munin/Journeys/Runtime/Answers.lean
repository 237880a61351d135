import Munin.Journeys.Runtime.Asks

/-!
# Answers to steps

Agents and people answer the steps that ask them: with a decision, a draft, values for fields, or by
approving or rejecting. A step is answered once, while it is open, and the answer decides how its
run goes on.

* **`RuntimeState.answered`** — the step that an accepted submission answers.
* **`EnrollmentFile.Spent`** — a step that can no longer be answered; it stays so.
* **`nodup_answers`** — no run answers a step twice.
-/

namespace Munin

open Foundations

/-! ### One step, one file -/

/-- What a step of the runtime does to a file that is there. -/
inductive FileStep (specs : Specs) (id : String) (a : RuntimeStep) (f g : EnrollmentFile) : Prop
  | same (hg : g = f)
  | node (env : StepEnv) (child : Option NewEnrollment) (running more : Bool) (k : EnrollmentFile)
      (ha : a = .node id env child running)
      (hrun : f.runNode (specs f.row.journeyId) (RuntimeState.answerEnroll env child) =
        .ok (k, more)) (hg : g = k.clearErrors)
  | act (act : FileAct) (running : Bool) (ha : a = .act id act running)
      (hact : act.apply (specs f.row.journeyId) f = some g)
  | event (event : RuntimeEvent) (clock : Instant) (hg : g = f.onEvent event clock)

variable {specs : Specs} {s t : RuntimeState} {id : String}

/-- An insertion leaves the files that are there. -/
theorem files_insert {e : NewEnrollment}
    {f : EnrollmentFile} (h : s.insert specs e = some t) (hf : s.files id = some f) :
    t.files id = some f := by
  obtain ⟨hnone, spec, -, -, hother, -⟩ := s.insert_eq_some h
  rw [hother id, hf]
  rintro rfl
  rw [hf] at hnone
  cases hnone

/-- What the run of a node does to the files. -/
theorem node_step {env : StepEnv} {child : Option NewEnrollment} {running : Bool}
    (h : (runtimeMachine specs).step s (.node id env child running) = some t) :
    ∃ f k more, s.files id = some f ∧
      f.runNode (specs f.row.journeyId) (RuntimeState.answerEnroll env child) = .ok (k, more) ∧
      t.files id = some k.clearErrors ∧
      ∀ id' f', id' ≠ id → s.files id' = some f' → t.files id' = some f' := by
  change RuntimeState.step specs s (.node id env child running) = some t at h
  simp only [RuntimeState.step, RuntimeState.runNode] at h
  obtain ⟨f, hf, h⟩ := Option.bind_eq_some_iff.1 h
  split at h
  · cases h
  · rename_i k more hrun
    have hself := s.files_write_self id f k.clearErrors running
    have hother : ∀ id' f', id' ≠ id → s.files id' = some f' →
        (s.write id f k.clearErrors running).files id' = some f' := by
      intro id' f' hid hf'
      rw [s.files_write_of_ne hid, hf']
    refine ⟨f, k, more, hf, hrun, ?_⟩
    split at h
    · cases h
      exact ⟨hself, hother⟩
    · split at h
      · cases h
      · exact ⟨files_insert h hself, fun id' f' hid hf' => files_insert h (hother id' f' hid hf')⟩

/-- **A file that is there** stays there, and a step does one of these to it. -/
theorem file_step {a : RuntimeStep}
    {f : EnrollmentFile} (h : (runtimeMachine specs).step s a = some t)
    (hf : s.files id = some f) : ∃ g, t.files id = some g ∧ FileStep specs id a f g := by
  have hwrite : ∀ (s' : RuntimeState), s'.files id = some f → ∀ (id' : String)
      (f' g' : EnrollmentFile) running, s'.files id' = some f' →
      (id' = id → f' = f → FileStep specs id a f g') →
      ∃ g, (s'.write id' f' g' running).files id = some g ∧ FileStep specs id a f g := by
    intro s' hs' id' f' g' running hf' hstep
    by_cases hid : id = id'
    · subst hid
      obtain rfl := Option.some.inj (hf'.symm.trans hs')
      exact ⟨g', s'.files_write_self .., hstep rfl rfl⟩
    · exact ⟨f, by rw [s'.files_write_of_ne hid, hs'], .same rfl⟩
  cases a with
  | enroll e => exact ⟨f, files_insert h hf, .same rfl⟩
  | node id' env child running =>
    obtain ⟨f', k, more, hf', hrun, hself, hother⟩ := node_step h
    by_cases hid : id = id'
    · subst hid
      obtain rfl := Option.some.inj (hf'.symm.trans hf)
      exact ⟨_, hself, .node env child running more k rfl hrun rfl⟩
    · exact ⟨f, hother id f hid hf, .same rfl⟩
  | act id' act running =>
    obtain ⟨f', hf', h⟩ := Option.bind_eq_some_iff.1 h
    obtain ⟨g', hg', rfl⟩ := Option.map_eq_some_iff.1 h
    exact hwrite s hf id' f' g' running hf' fun hid hsame =>
      .act act running (hid ▸ rfl) (hsame ▸ hg')
  | exited row eventId clock =>
    change RuntimeState.step specs s (.exited row eventId clock) = some t at h
    simp only [RuntimeState.step] at h
    split at h
    · split at h
      · rename_i f' parent hf' hparent
        cases h
        have hfile : s.files parent = some f' := by
          rw [hparent] at hf'
          exact hf'
        exact hwrite { s with inbox := s.inbox.erase row } hf parent f' _ true hfile
          fun _ hsame => .event _ clock (by rw [hsame])
      · cases h
        exact ⟨f, hf, .same rfl⟩
    · cases h
  | giveUp row =>
    change RuntimeState.step specs s (.giveUp row) = some t at h
    simp only [RuntimeState.step] at h
    split at h
    · cases h
      exact ⟨f, hf, .same rfl⟩
    · cases h

/-! ### Steps that were answered -/

/-- The step that an accepted submission answers: of an approval, the step that asked for it. -/
def RuntimeState.answered (s : RuntimeState) : RuntimeStep → Option (String × Nat)
  | .act id (.submit seen _ _) _ => some (id, seen.id)
  | .act id (.decideApproval approval _ _) _ =>
    (s.files id).bind fun f =>
      (f.approvals.find? fun a => a.id = approval && a.status = .pending).map fun a =>
        (id, a.stepRunId)
  | .act .. | .enroll _ | .node .. | .exited .. | .giveUp _ => none

/-- The steps that a run answers, in order. -/
def answers (specs : Specs) (s : RuntimeState) : List RuntimeStep → List (String × Nat)
  | [] => []
  | a :: as =>
    match (runtimeMachine specs).step s a with
    | none => []
    | some t => (s.answered a).toList ++ answers specs t as

/-- Nothing answers this step any more: its enrollment has ended, its agent's wait is resolved, or
its approval is decided or expired. -/
def EnrollmentFile.Spent (f : EnrollmentFile) (run : Nat) : Prop :=
  f.row.state.isOpen = false ∨
    (∃ w ∈ f.waits, w.stepRunId = run ∧ w.kind = .agent ∧ w.isOpen = false) ∨
      ∃ a ∈ f.approvals, a.stepRunId = run ∧ a.status ≠ .pending

section Spent

variable {specs : Nat → Option JourneySpec} {f g : EnrollmentFile} {run : Nat}

/-- Rows that stay keep a step spent. -/
theorem spent_of_rows (hf : f.Spent run)
    (hclosed : f.row.state.isOpen = false → g.row.state.isOpen = false)
    (hwaits : ∀ w ∈ f.waits, w.isOpen = false → w ∈ g.waits)
    (happrovals : ∀ a ∈ f.approvals, a.status ≠ .pending → a ∈ g.approvals) : g.Spent run := by
  rcases hf with hf | ⟨w, hw, hrun, hkind, hresolved⟩ | ⟨a, ha, hrun, hdecided⟩
  · exact .inl (hclosed hf)
  · exact .inr (.inl ⟨w, hwaits w hw hresolved, hrun, hkind, hresolved⟩)
  · exact .inr (.inr ⟨a, happrovals a ha hdecided, hrun, hdecided⟩)

theorem Rewrites.spent {onStep : StepRun → StepRun} (h : Rewrites f g onStep) (hf : f.Spent run)
    (hclosed : f.row.state.isOpen = false → g.row.state.isOpen = false) : g.Spent run := by
  obtain ⟨onWait, hwaits, hwait⟩ := h.waits
  obtain ⟨onApproval, happrovals, happroval⟩ := h.approvals
  refine spent_of_rows hf hclosed (fun w hw hresolved => ?_) fun a ha hdecided => ?_
  · rw [hwaits]
    exact List.mem_map.2 ⟨w, hw, (hwait w).resolved hresolved⟩
  · rw [happrovals]
    exact List.mem_map.2 ⟨a, ha, (happroval a).decided hdecided⟩

theorem Steady.spent {touched : Nat → Prop} (h : Steady touched f g) (hf : f.Spent run) :
    g.Spent run := by
  obtain ⟨onStep, hrewrites, -⟩ := h.rewrites
  exact hrewrites.spent hf fun hclosed => h.isOpen.trans hclosed

theorem spent_apply (hasks : AsksOk specs f) {a : FileAct} (h : a.apply specs f = some g)
    (hf : f.Spent run) : g.Spent run := by
  have hno : f.row.state.isOpen = true → f.row.state.isOpen = false →
      g.row.state.isOpen = false := fun hopen hclosed => by
    rw [hopen] at hclosed
    cases hclosed
  cases act_cases hasks h with
  | ended hclosed => exact .inl hclosed
  | steady hsteady => exact hsteady.spent hf
  | entered hopen onStep hrewrites => exact hrewrites.spent hf (hno hopen)
  | moved hopen hmoves p hg =>
    subst hg
    exact (rewrites_updateRow f p).spent hf (hno hopen)
  | reply hopen step hstep wait hkind clock p hg =>
    subst hg
    exact spent_of_rows hf (hno hopen) (fun w hw _ => List.mem_append_left _ hw) fun a ha _ => ha

/-- A step's result ends the run, or keeps the waits and the approvals. -/
theorem leave_keeps (f : EnrollmentFile) (env : StepEnv) (spec : JourneySpec) (outcome : Outcome) :
    (f.leave env spec outcome).1.row.state.isOpen = false ∨
      (f.leave env spec outcome).1.approvals = f.approvals ∧
        (f.leave env spec outcome).1.waits = f.waits := by
  unfold EnrollmentFile.leave
  split
  · exact .inl (isOpen_finish f _ _)
  · split
    · exact .inl (isOpen_finish f _ _)
    · exact .inr ⟨rfl, rfl⟩
  · exact .inr ⟨rfl, rfl⟩
  · exact .inr ⟨rfl, rfl⟩

/-- What is written of an outcome ends the run, or keeps the waits and the approvals. -/
theorem settle_keeps (f : EnrollmentFile) (env : StepEnv) (spec : JourneySpec) (run attempt : Nat)
    (outcome : Outcome) :
    (f.settle env spec run attempt outcome).1.row.state.isOpen = false ∨
      (f.settle env spec run attempt outcome).1.approvals = f.approvals ∧
        ∀ w ∈ f.waits, w ∈ (f.settle env spec run attempt outcome).1.waits := by
  unfold EnrollmentFile.settle
  split
  · exact .inr ⟨rfl, fun w hw => hw⟩
  · exact .inr ⟨rfl, fun w hw => List.mem_append_left _ hw⟩
  · dsimp only
    refine (leave_keeps _ _ _ _).imp_right fun h => ⟨h.1, fun w hw => ?_⟩
    rw [h.2]
    exact hw
  · dsimp only
    refine (leave_keeps _ _ _ _).imp_right fun h => ⟨h.1, fun w hw => ?_⟩
    rw [h.2]
    exact hw

theorem spent_runNode {env : StepEnv} {more : Bool} (h : f.runNode specs env = .ok (g, more))
    (hf : f.Spent run) : g.Spent run := by
  rcases EnrollmentFile.runNode_cases h with ⟨rfl, -⟩ | ⟨hactive, current, spec, -, -,
      ⟨reason, rfl, -⟩ | ⟨node, visit, -, -, -, hvisit⟩⟩
  · exact hf
  · exact .inl (isOpen_finish f reason env.clock)
  · have hno : f.row.state.isOpen = false → g.row.state.isOpen = false := by
      rw [hactive]
      intro hclosed
      cases hclosed
    rcases EnrollmentFile.runVisit_cases hvisit with
      ⟨-, rfl, -⟩ | ⟨stored, -, -, hg⟩ | ⟨k, outcome, hexec, hg⟩
    · exact (rewrites_updateRow f _).spent hf hno
    · have hg' : g = (f.leave env spec (storedOutcome node stored)).1 := congrArg Prod.fst hg
      rw [hg']
      rcases leave_keeps f env spec (storedOutcome node stored) with hended | ⟨happrovals, hwaits⟩
      · exact .inl hended
      · exact spent_of_rows hf (hg' ▸ hno) (fun w hw _ => hwaits ▸ hw)
          fun a ha _ => happrovals ▸ ha
    · have hg' : g = (k.settle env spec (f.enterRun node visit).2.1.id
        (f.enterRun node visit).2.2.2 outcome).1 := congrArg Prod.fst hg
      have hentered : (f.enterRun node visit).1.waits = f.waits ∧
          (f.enterRun node visit).1.approvals = f.approvals := by
        unfold EnrollmentFile.enterRun
        split <;> exact ⟨rfl, rfl⟩
      have happrovals : ∀ a ∈ f.approvals, a.status ≠ .pending → a ∈ k.approvals := by
        intro a ha hdecided
        rw [← hentered.2] at ha
        cases asking_execute hexec with
        | silent onApproval heq hsame =>
          rw [heq]
          exact List.mem_map.2 ⟨a, ha, (hsame a).decided hdecided⟩
        | agent _ _ hfile => exact hfile ▸ ha
        | approval _ _ b _ _ _ _ _ _ _ hfile =>
          rcases hfile with ⟨-, rfl⟩ | ⟨-, -, rfl⟩
          · exact ha
          · exact List.mem_append_left _ ha
      rw [hg']
      rcases settle_keeps k env spec (f.enterRun node visit).2.1.id
        (f.enterRun node visit).2.2.2 outcome with hended | ⟨hsame, hwaits⟩
      · exact .inl hended
      · refine spent_of_rows hf (hg' ▸ hno) (fun w hw _ => hwaits w ?_) fun a ha hdecided => ?_
        · rw [(kept_execute hexec).waits, hentered.1]
          exact hw
        · rw [hsame]
          exact happrovals a ha hdecided

end Spent

/-! ### Submissions that are accepted -/

section Accepted

variable {specs : Nat → Option JourneySpec} {f g : EnrollmentFile} {late : Prop}

variable {w : JourneyWait} {clock : Instant}

/-- An enrollment with an open wait waits. -/
theorem WaitsOk.state_of_open (hf : WaitsOk late f) (hw : w ∈ f.openWaits) :
    f.row.state = .waiting := by
  cases hstate : f.row.state with
  | waiting => rfl
  | active => simp [hf.active hstate] at hw
  | done | exited | failed => simp [(hf.finished (by rw [hstate]; rfl)).1] at hw

variable {input : Submission}

/-- An open wait that asks is the only wait of its step, which waits. -/
theorem only_wait (hasks : AsksOk specs f) (hwaits : WaitsOk late f)
    (hw : w ∈ f.openWaits) (hkind : w.kind.asks = true) :
    RecordsOk f ∧ StandingOk specs f ∧ f.waitsOf w.stepRunId = [w] ∧
      ∃ s ∈ f.steps, s.id = w.stepRunId ∧ s.status = .waiting := by
  obtain ⟨hmem, hopen⟩ := List.mem_filter.1 hw
  have hstate : f.row.state.isOpen = true := isOpen_iff.2 (.inr (hwaits.state_of_open hw))
  have hrecords := hasks.records hstate
  have hstanding := hasks.standing hstate
  obtain ⟨rest, hrest, -, hsingle⟩ := hrecords.asksFirst w hmem hkind
  exact ⟨hrecords, hstanding, by rw [hrest, hsingle hopen],
    hstanding.asking w hmem hopen hkind⟩

/-- An agent's step is no approval's. -/
theorem RecordsOk.type_of_agent (hf : RecordsOk f) (hw : w ∈ f.waits)
    (hkind : w.kind = .agent) {a : JourneyApproval} (ha : a ∈ f.approvals) :
    a.stepRunId ≠ w.stepRunId := by
  intro hsame
  obtain ⟨s, hs, hid, htype⟩ := hf.waitType w hw (by rw [hkind]; rfl)
  obtain ⟨t, ht, hid', htype'⟩ := hf.approvalType a ha
  obtain rfl := List.inj_on_of_nodup_map hf.ids hs ht (by rw [hid, hid', hsame])
  rw [hkind] at htype
  rcases htype with htype | htype <;> rw [htype'] at htype <;> cases htype

/-- **A submission of an agent** finds its step unanswered, and answers it. -/
theorem Submitted.answers (hasks : AsksOk specs f) (hwaits : WaitsOk late f) {seen : StepRun}
    {node : JourneyNode}
    {output context : Record} (h : Submitted specs f g seen input clock w node output context) :
    ¬ f.Spent seen.id ∧ g.Spent seen.id := by
  obtain ⟨hmem, hopen⟩ := List.mem_filter.1 h.wait
  obtain ⟨hrecords, -, honly, -⟩ := only_wait hasks hwaits h.wait (by rw [h.kind]; rfl)
  constructor
  · rintro (hclosed | ⟨v, hv, hrun, hkind, hresolved⟩ | ⟨a, ha, hrun, -⟩)
    · rw [hwaits.state_of_open h.wait] at hclosed
      cases hclosed
    · have hof : v ∈ f.waitsOf w.stepRunId :=
        List.mem_filter.2 ⟨hv, by simp [hrun, h.ofStep, hkind]⟩
      rw [honly, List.mem_singleton] at hof
      rw [hof, hopen] at hresolved
      cases hresolved
    · exact hrecords.type_of_agent hmem h.kind ha (hrun.trans h.ofStep.symm)
  · have hopen' : w ∈ ((f.updateRow fun e => { e with context }).updateSteps (·.id = seen.id)
        fun s => { s with output }).openWaits := h.wait
    have hwaits' : g.waits = f.waits.map fun v => if v.id = w.id && v.isOpen then
        { v with resolvedAt := clock, resolution := input.resolution } else v := by
      rw [h.file]
      rcases waits_resolveWait _ w.id input.resolution [] clock with ⟨hnone, -⟩ | heq
      · exact absurd rfl (hnone w hopen')
      · rw [heq]
        rfl
    refine .inr (.inl ⟨_, hwaits' ▸ List.mem_map_of_mem hmem, ?_⟩)
    rw [if_pos (by simp [hopen])]
    exact ⟨h.ofStep, h.kind, rfl⟩

/-- **A decision of an approval** finds its step unanswered, and answers it. -/
theorem decideApproval_answers (hasks : AsksOk specs f) {id : Nat} {approve : Bool}
    (h : f.decideApproval id approve clock = some g) :
    ∃ a ∈ f.approvals, a.id = id ∧ a.status = .pending ∧
      (f.approvals.find? fun a => a.id = id && a.status = .pending) = some a ∧
      f.row.state.isOpen = true ∧ ¬ f.Spent a.stepRunId ∧ g.Spent a.stepRunId := by
  unfold EnrollmentFile.decideApproval at h
  obtain ⟨a, hfind, rfl⟩ := Option.map_eq_some_iff.1 h
  obtain ⟨hid, hpending⟩ : a.id = id ∧ a.status = .pending := by
    simpa using List.find?_some hfind
  have ha : a ∈ f.approvals := List.mem_of_find?_eq_some hfind
  have hopen : f.row.state.isOpen = true := by
    by_contra hclosed
    exact hasks.ended (Bool.eq_false_iff.2 hclosed) a ha hpending
  have hrecords := hasks.records hopen
  refine ⟨a, ha, hid, hpending, hfind, hopen, ?_, ?_⟩
  · rintro (hclosed | ⟨v, hv, hrun, hkind, -⟩ | ⟨b, hb, hrun, hdecided⟩)
    · rw [hopen] at hclosed
      cases hclosed
    · exact hrecords.type_of_agent hv hkind ha hrun.symm
    · obtain rfl := List.inj_on_of_nodup_map hrecords.approvalRuns hb ha hrun
      exact hdecided hpending
  · dsimp only
    generalize hdecided : f.updateApprovals _ _ = k
    have hk : k.Spent a.stepRunId := by
      refine .inr (.inr ⟨{ a with status := if approve then .approved else .rejected }, ?_, rfl, ?_⟩)
      · rw [← hdecided]
        refine List.mem_map.2 ⟨a, ha, ?_⟩
        rw [if_pos (by simp [hid, hpending])]
      · cases approve <;> simp
    split
    · exact hk
    · have hsteady : ∀ w, Steady (fun _ => False) k
          (k.resolveWait w (if approve then "approved" else "rejected") [] clock) :=
        fun w => steady_resolveWait k w _ _ _
      exact (hsteady _).spent hk

end Accepted

/-- A step of some enrollment is spent. -/
def RuntimeState.Spent (s : RuntimeState) (key : String × Nat) : Prop :=
  ∃ f, s.files key.1 = some f ∧ f.Spent key.2

section Once

variable {specs : Specs} {s t : RuntimeState} {a : RuntimeStep}

variable {key : String × Nat}

/-- **A step that is spent stays so.** -/
theorem spent_step (hs : EveryFile (AsksAndWaits specs) s)
    (hspent : s.Spent key) (h : (runtimeMachine specs).step s a = some t) : t.Spent key := by
  obtain ⟨f, hf, hfspent⟩ := hspent
  obtain ⟨g, hg, hstep⟩ := file_step h hf
  refine ⟨g, hg, ?_⟩
  cases hstep with
  | same heq => exact heq ▸ hfspent
  | node env child running more k _ hrun heq =>
    rw [heq]
    unfold EnrollmentFile.clearErrors
    split
    · exact (rewrites_updateRow k _).spent (spent_runNode hrun hfspent) id
    · exact spent_runNode hrun hfspent
  | act act running _ hact => exact spent_apply (hs _ _ hf).2 hact hfspent
  | event event clock heq =>
    have hsteady : Steady (fun _ => False) f (f.onEvent event clock) := steady_onEvent f _ _
    exact heq ▸ hsteady.spent hfspent

/-- **An accepted submission** finds its step unanswered in an open enrollment, and answers it. -/
theorem answered_step (hs : EveryFile (AsksAndWaits specs) s)
    (h : (runtimeMachine specs).step s a = some t)
    (hanswered : s.answered a = some key) : ¬ s.Spent key ∧ t.Spent key := by
  have hone : ∀ {f g : EnrollmentFile}, s.files key.1 = some f → t.files key.1 = some g →
      ¬ f.Spent key.2 ∧ g.Spent key.2 → ¬ s.Spent key ∧ t.Spent key := by
    rintro f g hf hg ⟨hfresh, hspent⟩
    refine ⟨?_, g, hg, hspent⟩
    rintro ⟨f', hf', hspent'⟩
    exact hfresh (Option.some.inj (hf.symm.trans hf') ▸ hspent')
  cases a with
  | act id act running =>
    obtain ⟨f, hf, happly⟩ := Option.bind_eq_some_iff.1 h
    obtain ⟨g, hg, rfl⟩ := Option.map_eq_some_iff.1 happly
    have hwritten := s.files_write_self id f g running
    cases act with
    | submit seen input clock =>
      cases hanswered
      obtain ⟨w, node, output, context, hsubmitted⟩ := submit_eq_some hg
      exact hone hf hwritten (hsubmitted.answers (hs id f hf).2 (hs id f hf).1)
    | decideApproval approval approve clock =>
      obtain ⟨a, -, -, -, hfind, -, hanswers⟩ := decideApproval_answers (hs id f hf).2 hg
      simp only [RuntimeState.answered, hf, Option.bind_some, hfind, Option.map_some,
        Option.some.injEq] at hanswered
      subst hanswered
      exact hone hf hwritten hanswers
    | recordStepError | reschedule | resolveWait | event | reply | rememberThread | markGoal
    | finish | move | resumeNode | purgeTraces => cases hanswered
  | enroll | node | exited | giveUp => cases hanswered

/-- **No step is answered twice** in a run. -/
theorem nodup_answers {as : List RuntimeStep} (hs : EveryFile (AsksAndWaits specs) s) :
    (∀ key ∈ answers specs s as, ¬ s.Spent key) ∧ (answers specs s as).Nodup := by
  induction as generalizing s with
  | nil => exact ⟨fun key hkey => absurd hkey List.not_mem_nil, .nil⟩
  | cons a as ih =>
    rw [answers]
    cases hstep : (runtimeMachine specs).step s a with
    | none => exact ⟨fun key hkey => absurd hkey List.not_mem_nil, .nil⟩
    | some t =>
      obtain ⟨hfresh, hnodup⟩ := ih (asksAndWaits_step hs hstep)
      have hlater : ∀ key ∈ answers specs t as, ¬ s.Spent key :=
        fun key hkey hspent => hfresh key hkey (spent_step hs hspent hstep)
      cases hanswered : s.answered a with
      | none => exact ⟨hlater, hnodup⟩
      | some key =>
        obtain ⟨hopen, hspent⟩ := answered_step hs hstep hanswered
        refine ⟨fun k hk => ?_, List.nodup_cons.2 ⟨fun hmem => hfresh key hmem hspent, hnodup⟩⟩
        rcases List.mem_cons.1 hk with rfl | hk
        · exact hopen
        · exact hlater k hk

end Once

end Munin
