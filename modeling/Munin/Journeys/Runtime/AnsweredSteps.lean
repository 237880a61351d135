import Munin.Journeys.Runtime.Answers
import Munin.Journeys.Runtime.Replay

/-!
# What an answer leads to

An accepted submission resolves the wait of its step; the step runs again with what was submitted,
and its run goes on accordingly.

* **`Answer`** — what was submitted: a decision's edge, a draft, values, an approval or a rejection.
* **`Answered`** — an answered step that has not run since.
* **`Answer.Leads`** — where the answer leads.
* **`submissions_answer_once`** — steps are answered once, while they are open, and go on as they
  were answered.
-/

namespace Munin

open Foundations

/-! ### Answers -/

/-- What a submission answers its step. -/
inductive Answer where
  | decided (edge : String)
  | drafted
  | filled
  | approved
  | rejected

/-- The answer that an agent submits. -/
def Submission.answer : Submission → Answer
  | .decision edge _ => .decided edge
  | .draft .. => .drafted
  | .fields .. => .filled

/-- The answer that a step of the runtime submits. -/
def RuntimeStep.answer : RuntimeStep → Option Answer
  | .act _ (.submit _ input _) _ => some input.answer
  | .act _ (.decideApproval _ approve _) _ => some (if approve then .approved else .rejected)
  | .act .. | .enroll _ | .node .. | .exited .. | .giveUp _ => none

/-- The resolution of the wait that was answered. -/
def Answer.resolution : Answer → String
  | .decided _ => "agent_decided"
  | .drafted => "agent_drafted"
  | .filled => "agent_enriched"
  | .approved => "approved"
  | .rejected => "rejected"

/-- A node that can be answered so. -/
def Answer.Fits : Answer → JourneyNode → Prop
  | .decided edge, .agent n => n.mode = .decide ∧ truthy ((n.edges.getD []).lookup edge) = true
  | .filled, .agent n => n.mode = .enrich
  | .drafted, .message _ | .approved, .approval _ | .rejected, .approval _ => True
  | _, _ => False

/-- What a step has put out contains the answer, as far as the step reads it there. -/
def Answer.In : Answer → Record → Prop
  | .decided edge, output => ((output.object "decision").getD []).text "edge" = some edge
  | .drafted, _ | .filled, _ | .approved, _ | .rejected, _ => True

/-- An answered step that has not run since, in a version of its journey. -/
structure Answered (specs : Nat → Option JourneySpec) (answer : Answer) (version : Nat)
    (f : EnrollmentFile) (s : StepRun) : Prop where
  inVersion : f.row.version = version
  wait : ∃ w, f.waitsOf s.id = [w] ∧ w.resolvedAt.isSome = true ∧
    w.resolution = some answer.resolution
  output : answer.In s.output
  node : ∃ spec node, specs version = some spec ∧ spec.node s.nodeId = some node ∧
    answer.Fits node

/-- If the enrollment is open and the step still waits, it is an answered step that has not run
since. -/
def EnrollmentFile.Resuming (specs : Nat → Option JourneySpec) (answer : Answer) (version : Nat)
    (run : Nat) (f : EnrollmentFile) : Prop :=
  f.row.state.isOpen = true → ∀ s ∈ f.steps, s.id = run → s.status = .waiting →
    Answered specs answer version f s

/-- The step was left along an edge: completed with its label, and its run goes on at the target, or
has reached its end if there is none. -/
structure LeftAlong (g : EnrollmentFile) (run : Nat) (edge : String) (to' : Option NodeId) :
    Prop where
  step : ∃ s ∈ g.steps, s.id = run ∧ s.status = .completed ∧ s.edgeTaken = some edge
  place : match to' with
    | some node => g.row.state = .active ∧ g.row.currentNode = some node
    | none => g.row.state = .done ∧ g.row.exitReason = some "reached_end"

/-- The step was completed, and the run has ended with it. -/
structure EndedAt (g : EnrollmentFile) (run : Nat) : Prop where
  step : ∃ s ∈ g.steps, s.id = run ∧ s.status = .completed
  closed : g.row.state.isOpen = false

/-- **Where an answer leads.** A decision leads along its edge, the values of fields and an approval
along `next`, a rejection along `on_reject`; without that edge it ends the run. A draft leads on to
the message: the step asks nobody, but waits anew, is left along an edge or ends the run. -/
def Answer.Leads (run : Nat) (g : EnrollmentFile) : Answer → JourneyNode → Prop
  | .decided edge, .agent n => ∃ to', (n.edges.getD []).lookup edge = some to' ∧
    LeftAlong g run edge (some to')
  | .filled, .agent n => LeftAlong g run "next" n.next
  | .drafted, .message n => (∀ w ∈ g.openWaits, w.kind.asks = false) ∧
    ((∃ w ∈ g.openWaits, w.stepRunId = run) ∨
      (∃ edge, LeftAlong g run edge ((edgeTarget (.message n) edge).filter (· ≠ ""))) ∨
      EndedAt g run)
  | .approved, .approval n => LeftAlong g run "next" n.next
  | .rejected, .approval n =>
    match n.onReject with
    | some to' => LeftAlong g run "on_reject" (some to')
    | none => EndedAt g run ∧ g.row.exitReason = some "approval_rejected"
  | _, _ => False

/-! ### An answered step stays so -/

section Resuming

variable {specs : Nat → Option JourneySpec} {f g : EnrollmentFile} {answer : Answer}
  {version run : Nat}

theorem Steady.resuming {touched : Nat → Prop} (h : Steady touched f g)
    (hf : f.Resuming specs answer version run) (hrun : ¬ touched run) :
    g.Resuming specs answer version run := by
  obtain ⟨onStep, hrewrites, hstatus, houtput⟩ := h.rewrites
  obtain ⟨onWait, hwaits, hwait⟩ := hrewrites.waits
  intro hopen t ht hid hwaiting
  rw [hrewrites.steps] at ht
  obtain ⟨s, hs, rfl⟩ := List.mem_map.1 ht
  have hsame := hrewrites.same s
  have hid' : s.id = run := hsame.id ▸ hid
  obtain ⟨hversion, ⟨w, hw, hresolved, hresolution⟩, hin, hnode⟩ :=
    hf (h.isOpen ▸ hopen) s hs hid' (hstatus s ▸ hwaiting)
  have hclosed : w.isOpen = false := by simpa [JourneyWait.isOpen] using hresolved
  refine ⟨h.version.trans hversion, ⟨w, ?_, hresolved, hresolution⟩, ?_, ?_⟩
  · rw [hsame.id, waitsOf_map hwaits hwait, hw, List.map_singleton, (hwait w).resolved hclosed]
  · rw [houtput s (hid' ▸ hrun)]
    exact hin
  · rw [hsame.nodeId]
    exact hnode

/-- A step that was answered has no wait left to answer, so that no submission is for it. -/
theorem not_submits_of_resuming (hasks : AsksOk specs f) (hwaits : WaitsOk True f)
    (hf : f.Resuming specs answer version run) {a : FileAct} (h : a.apply specs f = some g) :
    ¬ a.Submits run := by
  cases a with
  | submit seen input clock =>
    intro hseen
    have hseen' : seen.id = run := hseen
    obtain ⟨w, node, output, context, hsubmitted⟩ := submit_eq_some h
    obtain ⟨-, -, honly, s, hs, hid, hwaiting⟩ :=
      only_wait hasks hwaits hsubmitted.wait (by rw [hsubmitted.kind]; rfl)
    have hrun : w.stepRunId = run := hsubmitted.ofStep.trans hseen'
    have hopen : f.row.state.isOpen = true :=
      isOpen_iff.2 (.inr (hwaits.state_of_open hsubmitted.wait))
    obtain ⟨v, hv, hresolved, -⟩ := (hf hopen s hs (hid.trans hrun) hwaiting).wait
    have heq : w = v := by
      rw [hid, honly] at hv
      exact (List.cons.inj hv).1
    have hwopen := (List.mem_filter.1 hsubmitted.wait).2
    subst heq
    simp only [JourneyWait.isOpen, Option.isNone_iff_eq_none] at hwopen
    rw [hwopen] at hresolved
    cases hresolved
  | recordStepError | reschedule | resolveWait | event | reply | decideApproval | rememberThread
  | markGoal | finish | move | resumeNode | purgeTraces => exact id

/-- **Nothing but a run of its node or a move** changes how an answered step goes on. -/
theorem resuming_apply (hasks : AsksOk specs f) (hwaits : WaitsOk True f)
    (hf : f.Resuming specs answer version run) {a : FileAct} (hmoves : ¬ a.Moves)
    (h : a.apply specs f = some g) : g.Resuming specs answer version run := by
  have hno := not_submits_of_resuming hasks hwaits hf h
  cases act_cases hasks h with
  | ended hclosed =>
    intro hopen
    rw [hclosed] at hopen
    cases hopen
  | steady hsteady => exact hsteady.resuming hf hno
  | entered hopen onStep hrewrites hclosed =>
    intro _ t ht _ hwaiting
    rw [hrewrites.steps] at ht
    obtain ⟨s, -, rfl⟩ := List.mem_map.1 ht
    have hshut := hclosed s
    rw [hwaiting] at hshut
    cases hshut
  | moved _ hmoved => exact absurd hmoved hmoves
  | reply hopen step hstep wait hkind clock p hg hrow =>
    subst hg
    intro _ s hs hid hwaiting
    obtain ⟨hversion, hwait, hin, hnode⟩ := hf hopen s hs hid hwaiting
    refine ⟨((hrow _).1).trans hversion, ?_, hin, hnode⟩
    have hsame : ((f.openWait step.id wait clock).updateRow p).waitsOf s.id = f.waitsOf s.id := by
      have hgrown := waitsOf_openWait f step.id wait clock s.id
      rw [if_neg fun h => h.2 hkind, List.append_nil] at hgrown
      exact hgrown
    rw [hsame]
    exact hwait

end Resuming

/-! ### Acceptance -/

section Acceptance

variable {specs : Nat → Option JourneySpec} {f g : EnrollmentFile}

/-- A decision is stored with its edge. -/
def Submission.StoresEdge : Submission → Prop
  | .decision edge stored => stored.text "edge" = some edge
  | .draft .. | .fields .. => True

/-- What a submission of an agent read of its step before the lock says which node it is, and a
decision is stored with its edge. -/
def SubmitsAsRead (f : EnrollmentFile) : FileAct → Prop
  | .submit seen input _ =>
    (∀ s ∈ f.steps, s.id = seen.id → s.nodeId = seen.nodeId) ∧ input.StoresEdge
  | _ => True

/-- The wait of an approval is still open as it is decided: it did not time out, and its run was not
moved to another node. -/
def DecidesInTime (f : EnrollmentFile) : FileAct → Prop
  | .decideApproval id _ _ => ∃ a ∈ f.approvals, a.id = id ∧ a.status = .pending ∧
    ∃ w ∈ f.openWaits, w.kind = .approval ∧ w.stepRunId = a.stepRunId
  | _ => True

variable {w : JourneyWait} {clock : Instant} {id : Nat} {approve : Bool} {a : JourneyApproval}

/-- The waits of a step after its open wait is resolved. -/
theorem waitsOf_resolveWait (hw : w ∈ f.openWaits)
    (honly : f.waitsOf w.stepRunId = [w]) (resolution : String) (context : Record)
    (clock : Instant) :
    (f.resolveWait w.id resolution context clock).waitsOf w.stepRunId =
      [{ w with resolvedAt := clock, resolution }] := by
  have hopen := (List.mem_filter.1 hw).2
  have hwaits : (f.resolveWait w.id resolution context clock).waits =
      f.waits.map fun v => if v.id = w.id && v.isOpen then
        { v with resolvedAt := clock, resolution } else v := by
    rcases waits_resolveWait f w.id resolution context clock with ⟨hnone, -⟩ | heq
    · exact absurd rfl (hnone w hw)
    · rw [heq]
      rfl
  rw [waitsOf_map hwaits, honly, List.map_singleton, if_pos (by simp [hopen])]
  intro v
  split
  · rename_i hv
    refine ⟨rfl, rfl, rfl, fun hresolved => ?_⟩
    rw [(Bool.and_eq_true_iff.1 hv).2] at hresolved
    cases hresolved
  · exact .refl v

variable {input : Submission}

/-- The node of an accepted submission can be answered so, and what is put out contains the
answer. -/
theorem fits_of_submission {seen : StepRun} {node : JourneyNode} {e : Enrollment}
    {output context : Record}
    (h : EnrollmentFile.submission seen node e input = some (output, context))
    (hread : input.StoresEdge) : input.answer.Fits node ∧ input.answer.In output := by
  cases input with
  | decision edge decision =>
    cases node with
    | agent n =>
      simp only [EnrollmentFile.submission, Option.ite_none_right_eq_some, Bool.and_eq_true,
        decide_eq_true_eq] at h
      obtain ⟨⟨hmode, hedge⟩, heq⟩ := h
      refine ⟨⟨hmode, hedge⟩, ?_⟩
      rw [← (Prod.mk.inj (Option.some.inj heq)).1]
      change ((Record.object (setField seen.output "decision" (.obj decision))
        "decision").getD []).text "edge" = some edge
      rw [Record.object, lookup_setField_self, Option.getD_some]
      exact hread
    | _ => cases h
  | draft subject body draft =>
    cases node with
    | message n => exact ⟨trivial, trivial⟩
    | _ => cases h
  | fields values filledBy =>
    cases node with
    | agent n =>
      simp only [EnrollmentFile.submission, Option.ite_none_right_eq_some, Bool.and_eq_true,
        decide_eq_true_eq] at h
      exact ⟨h.1.1, trivial⟩
    | _ => cases h

/-- A step's status and node are those before a write that moves no step. -/
theorem Steady.step {touched : Nat → Prop} (h : Steady touched f g) {t : StepRun}
    (ht : t ∈ g.steps) : ∃ s ∈ f.steps, s.id = t.id ∧ s.nodeId = t.nodeId ∧ s.status = t.status := by
  obtain ⟨onStep, hrewrites, hstatus, -⟩ := h.rewrites
  rw [hrewrites.steps] at ht
  obtain ⟨s, hs, rfl⟩ := List.mem_map.1 ht
  exact ⟨s, hs, (hrewrites.same s).id.symm, (hrewrites.same s).nodeId.symm, (hstatus s).symm⟩

/-- **A submission of an agent** leaves an answered step. -/
theorem Submitted.resuming (hasks : AsksOk specs f) (hwaits : WaitsOk True f) {seen : StepRun}
    {node : JourneyNode}
    {output context : Record} (h : Submitted specs f g seen input clock w node output context)
    (hread : SubmitsAsRead f (.submit seen input clock)) :
    g.Resuming specs input.answer f.row.version seen.id := by
  obtain ⟨hrecords, -, honly, -⟩ := only_wait hasks hwaits h.wait (by rw [h.kind]; rfl)
  obtain ⟨spec, hspec, hnode⟩ := h.found
  obtain ⟨hfits, hin⟩ := fits_of_submission h.checked hread.2
  -- The file between the write of what was submitted and the resolution of the wait.
  generalize hk : (f.updateRow fun e => { e with context }).updateSteps (·.id = seen.id)
    (fun s => { s with output }) = k at *
  have hfk : Steady (fun run => seen.id = run) f k := by
    rw [← hk]
    exact (steady_updateRow f rfl rfl rfl rfl).trans (steady_output _ seen.id output)
  have hkg : Steady (fun run => seen.id = run) k g := by
    rw [h.file, hk]
    exact steady_resolveWait k _ _ _ _
  have hkwaits : k.waits = f.waits := by
    rw [← hk]
    rfl
  have hkw : w ∈ k.openWaits := by
    rw [EnrollmentFile.openWaits, hkwaits]
    exact h.wait
  have hkonly : k.waitsOf w.stepRunId = [w] := by
    rw [EnrollmentFile.waitsOf, hkwaits]
    exact honly
  intro _ t ht hid _
  obtain ⟨s, hs, hid', hnodeId, -⟩ := (hfk.trans hkg).step ht
  refine ⟨(hfk.trans hkg).version, ⟨{ w with resolvedAt := clock, resolution :=
    input.resolution }, ?_, rfl, ?_⟩, ?_, spec, node, hspec, ?_, hfits⟩
  · rw [hid, ← h.ofStep, h.file, hk]
    exact waitsOf_resolveWait hkw hkonly _ _ _
  · cases input <;> rfl
  · have hsteps : g.steps = k.steps := by
      rw [h.file, hk]
      rcases resolveWait_cases k w.id input.resolution [] clock with
        ⟨-, heq⟩ | ⟨-, heq | ⟨-, p, heq, -⟩⟩ <;> rw [heq] <;> rfl
    rw [hsteps, ← hk] at ht
    obtain ⟨u, -, rfl⟩ := List.mem_map.1 ht
    have hu : u.id = seen.id := by
      split at hid
      · exact hid
      · exact hid
    rw [if_pos (decide_eq_true hu)]
    exact hin
  · rw [← hnodeId, hread.1 s hs (hid'.trans hid)]
    exact hnode

/-- The texts of distinct ids are distinct. -/
theorem toString_nat_inj {m n : Nat} (h : toString m = toString n) : m = n := by
  have hdigits : Nat.toDigits 10 m = Nat.toDigits 10 n := by
    simpa using congrArg String.toList h
  have hvalue := congrArg (Nat.ofDigitChars 10 · 0) hdigits
  simpa only [Nat.ofDigitChars_ten_toDigits] using hvalue

/-- What a decision of an approval in time finds: the approval of that id, and the wait of its
step. -/
structure DecidedInTime (f : EnrollmentFile) (id : Nat) (a : JourneyApproval) (w : JourneyWait) :
    Prop where
  approval : a ∈ f.approvals
  id_eq : a.id = id
  wait : w ∈ f.openWaits
  kind : w.kind = .approval
  ofStep : w.stepRunId = a.stepRunId
  find : f.openWaits.find? (fun w =>
    w.kind = .approval && w.payload.text "approvalId" = some (toString id)) = some w

/-- **The wait that a decision resolves** is the one of the approval's step. -/
theorem decidedInTime_of (hasks : AsksOk specs f) (hwaits : WaitsOk True f)
    (htime : DecidesInTime f (.decideApproval id approve clock))
    (hfind : (f.approvals.find? fun a => a.id = id && a.status = .pending) = some a) :
    ∃ w, DecidedInTime f id a w := by
  have ha : a ∈ f.approvals := List.mem_of_find?_eq_some hfind
  obtain ⟨haid, -⟩ : a.id = id ∧ a.status = .pending := by
    simpa using List.find?_some hfind
  obtain ⟨b, hb, hbid, -, w, hw, hkind, hrun⟩ := htime
  obtain ⟨hrecords, -, honly, -⟩ := only_wait hasks hwaits hw (by rw [hkind]; rfl)
  obtain rfl := List.inj_on_of_nodup_map hrecords.approvalIds hb ha (hbid.trans haid.symm)
  refine ⟨w, hb, haid, hw, hkind, hrun, ?_⟩
  have hnames : ∀ v ∈ f.openWaits, v.kind = .approval →
      (v.payload.text "approvalId" = some (toString id) ↔ v = w) := by
    intro v hv hvkind
    obtain ⟨hvmem, hvopen⟩ := List.mem_filter.1 hv
    obtain ⟨c, hc, hcrun, hpayload⟩ := hrecords.named v hvmem hvkind
    have htext : v.payload.text "approvalId" = some (toString c.id) := by
      rw [hpayload]
      rfl
    rw [htext]
    constructor
    · intro heq
      have hcid : c.id = id := toString_nat_inj (Option.some.inj heq)
      obtain rfl := List.inj_on_of_nodup_map hrecords.approvalIds hc ha (hcid.trans haid.symm)
      have hof : v ∈ f.waitsOf w.stepRunId :=
        List.mem_filter.2 ⟨hvmem, by simp [← hcrun, hrun, hvkind]⟩
      rw [honly, List.mem_singleton] at hof
      exact hof
    · rintro rfl
      obtain rfl := List.inj_on_of_nodup_map hrecords.approvalRuns hc ha (hcrun.trans hrun)
      rw [haid]
  cases hfound : f.openWaits.find? (fun v =>
      v.kind = .approval && v.payload.text "approvalId" = some (toString id)) with
  | none =>
    refine absurd ?_ (List.find?_eq_none.1 hfound w hw)
    rw [Bool.and_eq_true]
    exact ⟨decide_eq_true hkind, decide_eq_true ((hnames w hw hkind).2 rfl)⟩
  | some v =>
    have hv := List.find?_some hfound
    simp only [Bool.and_eq_true, decide_eq_true_eq] at hv
    exact congrArg some ((hnames v (List.mem_of_find?_eq_some hfound) hv.1).1 hv.2)

/-- The file that a decision in time leaves. -/
theorem DecidedInTime.file (hin : DecidedInTime f id a w)
    (h : f.decideApproval id approve clock = some g) :
    g = (f.updateApprovals (fun a => a.id = id && a.status = .pending)
      fun a => { a with status := if approve then .approved else .rejected }).resolveWait w.id
        (if approve then "approved" else "rejected") [] clock := by
  unfold EnrollmentFile.decideApproval at h
  obtain ⟨-, -, rfl⟩ := Option.map_eq_some_iff.1 h
  dsimp only
  rw [show (f.updateApprovals (fun a => a.id = id && a.status = .pending)
      fun a => { a with status := if approve then .approved else .rejected }).openWaits =
      f.openWaits from rfl, hin.find]

/-- **A decision of an approval** whose wait is open leaves an answered step. -/
theorem DecidedInTime.resuming (hasks : AsksOk specs f) (hwaits : WaitsOk True f)
    (hin : DecidedInTime f id a w) (h : f.decideApproval id approve clock = some g) :
    g.Resuming specs (if approve then .approved else .rejected) f.row.version a.stepRunId := by
  have hw := hin.wait
  have hrun := hin.ofStep
  obtain ⟨hrecords, hstanding, honly, s₀, hs₀, hid₀, hwaiting₀⟩ :=
    only_wait hasks hwaits hw (by rw [hin.kind]; rfl)
  obtain ⟨spec, node, hspec, hnode, htype⟩ := hstanding.typed s₀ hs₀ (by rw [hwaiting₀]; rfl)
  have hfits : (if approve then Answer.approved else .rejected).Fits node := by
    obtain ⟨s, hs, hid, hstype⟩ := hrecords.approvalType a hin.approval
    obtain rfl := List.inj_on_of_nodup_map hrecords.ids hs hs₀
      (by rw [hid, hid₀, hrun])
    rw [hstype] at htype
    cases node with
    | approval n => cases approve <;> trivial
    | _ => cases htype
  rw [hin.file h]
  generalize hk : f.updateApprovals _ _ = k
  have hkwaits : k.waits = f.waits := by
    rw [← hk]
    rfl
  have hkopen : k.openWaits = f.openWaits := by
    rw [EnrollmentFile.openWaits, EnrollmentFile.openWaits, hkwaits]
  have hfk : Steady (fun _ => False) f k := by
    rw [← hk]
    exact steady_updateApprovals f (fun a => decide (a.id = id) && decide (a.status = .pending))
      (if approve then .approved else .rejected)
      fun a ha => of_decide_eq_true (Bool.and_eq_true_iff.1 ha).2
  have hkg : Steady (fun _ => False) k
      (k.resolveWait w.id (if approve then "approved" else "rejected") [] clock) :=
    steady_resolveWait k _ _ _ _
  intro _ t ht hid _
  obtain ⟨s, hs, hid', hnodeId, -⟩ := (hfk.trans hkg).step ht
  obtain rfl := List.inj_on_of_nodup_map hrecords.ids hs hs₀ (by rw [hid', hid, hid₀, hrun])
  refine ⟨(hfk.trans hkg).version, ⟨{ w with
    resolvedAt := clock, resolution := some (if approve then "approved" else "rejected") },
    ?_, rfl, ?_⟩, ?_, spec, node, hspec, hnodeId ▸ hnode, hfits⟩
  · rw [hid, ← hrun]
    refine waitsOf_resolveWait (hkopen ▸ hw) ?_ _ _ _
    rw [EnrollmentFile.waitsOf, hkwaits]
    exact honly
  · cases approve <;> rfl
  · cases approve <;> trivial

end Acceptance

/-! ### The answered step runs -/

section Leads

variable {specs : Nat → Option JourneySpec} {f g k : EnrollmentFile} {env : StepEnv}
  {spec : JourneySpec} {run attempt : Nat}

/-- The rows after an end. -/
theorem rows_finish (hopen : k.row.state.isOpen = true) (reason : String) (clock : Instant) :
    (k.finish reason clock).row = { k.row with
      state := if reason ∈ COMPLETED_REASONS then .done else .exited
      exitReason := reason, exitedAt := clock, currentNode := none, nextRunAt := none } ∧
    (k.finish reason clock).steps =
      k.steps.map (closeStep ("the journey run ended (" ++ reason ++ ")") clock) := by
  unfold EnrollmentFile.finish
  rw [if_pos hopen]
  exact ⟨rfl, rfl⟩

/-- The end of a run leaves completed steps as they are. -/
theorem mem_steps_finish {t : StepRun} (ht : t ∈ k.steps) (hdone : t.status = .completed)
    (reason : String) (clock : Instant) : t ∈ (k.finish reason clock).steps := by
  by_cases hopen : k.row.state.isOpen = true
  · rw [(rows_finish hopen reason clock).2]
    refine List.mem_map.2 ⟨t, ht, ?_⟩
    rw [closeStep, hdone, if_neg (by simp [StepStatus.isOpen])]
  · unfold EnrollmentFile.finish
    rwa [if_neg hopen]

theorem mem_steps_leave {t : StepRun} (ht : t ∈ k.steps) (hdone : t.status = .completed)
    (outcome : Outcome) : t ∈ (k.leave env spec outcome).1.steps := by
  unfold EnrollmentFile.leave
  split
  · exact mem_steps_finish ht hdone _ _
  · split
    · exact mem_steps_finish ht hdone _ _
    · exact ht
  · exact ht
  · exact ht

/-- What is written of an advance leaves the step along its edge. -/
theorem leftAlong_settle (hrun : ∃ s ∈ k.steps, s.id = run) (hactive : k.row.state = .active)
    (edge : String) (to' : Option NodeId) (output : Option Record) (reason : Option String) :
    LeftAlong (k.settle env spec run attempt (.advance edge to' output reason)).1 run edge
      (to'.filter (· ≠ "")) := by
  obtain ⟨s, hs, rfl⟩ := hrun
  unfold EnrollmentFile.settle
  dsimp only
  generalize hdone : k.updateStepRun s.id _ = d
  have hdrow : d.row = k.row := by
    rw [← hdone]
    rfl
  obtain ⟨t, ht, hid, hstatus, hedge⟩ :
      ∃ t ∈ d.steps, t.id = s.id ∧ t.status = .completed ∧ t.edgeTaken = some edge := by
    rw [← hdone]
    exact ⟨_, List.mem_map_of_mem hs, by simp⟩
  refine ⟨⟨t, mem_steps_leave ht hstatus _, hid, hstatus, hedge⟩, ?_⟩
  unfold EnrollmentFile.leave
  dsimp only
  cases to'.filter (· ≠ "") with
  | none =>
    have hdopen : d.row.state.isOpen = true := hdrow ▸ isOpen_iff.2 (.inl hactive)
    have hcompletes : "reached_end" ∈ COMPLETED_REASONS := by decide
    have hrow := (rows_finish hdopen "reached_end" env.clock).1
    exact ⟨by rw [hrow, if_pos hcompletes], by rw [hrow]⟩
  | some id => exact ⟨(congrArg Enrollment.state hdrow).trans hactive, rfl⟩

theorem LeftAlong.of_ne {edge : String} {to' : Option NodeId}
    (h : LeftAlong g run edge (to'.filter (· ≠ ""))) (hne : to' ≠ some "") :
    LeftAlong g run edge to' := by
  cases to' with
  | none => exact h
  | some id => rwa [Option.filter_some, if_pos (by simpa using hne)] at h

/-- What is written of an exit ends the run at the step, with its reason. -/
theorem endedAt_settle (hrun : ∃ s ∈ k.steps, s.id = run) (hactive : k.row.state = .active)
    (reason : String) (output : Option Record) :
    EndedAt (k.settle env spec run attempt (.exit reason output)).1 run ∧
      (k.settle env spec run attempt (.exit reason output)).1.row.exitReason = some reason := by
  obtain ⟨s, hs, rfl⟩ := hrun
  unfold EnrollmentFile.settle
  dsimp only
  generalize hdone : k.updateStepRun s.id _ = d
  have hdopen : d.row.state.isOpen = true := by
    rw [← hdone]
    exact isOpen_iff.2 (.inl hactive)
  obtain ⟨t, ht, hid, hstatus⟩ : ∃ t ∈ d.steps, t.id = s.id ∧ t.status = .completed := by
    rw [← hdone]
    exact ⟨_, List.mem_map_of_mem hs, by simp⟩
  refine ⟨⟨⟨t, mem_steps_leave ht hstatus _, hid, hstatus⟩, ?_⟩, ?_⟩
  · rw [EnrollmentFile.leave, (rows_finish hdopen reason env.clock).1]
    dsimp only
    split <;> rfl
  · rw [EnrollmentFile.leave, (rows_finish hdopen reason env.clock).1]

/-- The waits that are open after an outcome is written are of its kind. -/
theorem openWaits_settle (hnone : k.openWaits = []) (outcome : Outcome) {w : JourneyWait}
    (hw : w ∈ (k.settle env spec run attempt outcome).1.openWaits) :
    outcome.waitKind = some w.kind := by
  have hleave : ∀ (d : EnrollmentFile) o, d.openWaits = [] → w ∈ (d.leave env spec o).1.openWaits →
      outcome.waitKind = some w.kind := by
    intro d o hd hmem
    rw [(told_leave hd env spec o).2] at hmem
    cases hmem
  unfold EnrollmentFile.settle at hw
  split at hw
  · have hmem : w ∈ k.openWaits := hw
    rw [hnone] at hmem
    cases hmem
  · dsimp only at hw
    rw [openWaits_openWait] at hw
    rcases List.mem_append.1 hw with hw | hw
    · have hmem : w ∈ k.openWaits := hw
      rw [hnone] at hmem
      cases hmem
    · rw [List.mem_singleton.1 hw]
      rfl
  · refine hleave _ _ ?_ hw
    exact hnone
  · refine hleave _ _ ?_ hw
    exact hnone

/-- A text that `isNodeId` admits is not empty. -/
theorem ne_of_all_isNodeId {id : Option NodeId} (h : id.all isNodeId = true) : id ≠ some "" := by
  rintro rfl
  exact absurd h (by decide)

/-- **An answered step, executed.** -/
theorem leads_execute {node : JourneyNode} (hconforms : node.conforms = true) {answer : Answer}
    (hfits : answer.Fits node) {s : StepRun} {w : JourneyWait} {e : Enrollment}
    (hresolution : w.resolution = some answer.resolution) (hin : answer.In s.output)
    {outcome : Outcome}
    (h : execute env { run := s, enrollment := e, spec, attempt, resumed := some w } node f =
      .ok (k, outcome)) (hs : ∃ t ∈ k.steps, t.id = s.id) (hactive : k.row.state = .active)
    (hnone : k.openWaits = []) :
    answer.Leads s.id (k.settle env spec s.id attempt outcome).1 node := by
  cases answer with
  | decided edge =>
    cases node with
    | agent n =>
      obtain ⟨hmode, hedge⟩ := hfits
      have hlookup : ∃ to', (n.edges.getD []).lookup edge = some to' ∧ to' ≠ "" := by
        cases hl : (n.edges.getD []).lookup edge with
        | none => simp [hl] at hedge
        | some to' => exact ⟨to', rfl, by simpa [hl, truthy] using hedge⟩
      obtain ⟨to', hto, hne⟩ := hlookup
      -- Labels of conforming nodes are not empty.
      have hlabel : edge ≠ "" := by
        rintro rfl
        obtain ⟨e', he', hkey⟩ : ∃ e' ∈ n.edges.getD [], e'.1 = "" := by
          by_contra hnot
          have hnone' := List.lookup_eq_none_iff.2 fun e' he' =>
            bne_iff_ne.2 fun hkey => hnot ⟨e', he', hkey.symm⟩
          rw [hnone'] at hto
          cases hto
        simp only [JourneyNode.conforms, Bool.and_eq_true, List.all_eq_true] at hconforms
        have hid := (hconforms.2.1.1.1.1.1.1 e' he').1
        rw [hkey] at hid
        exact absurd hid (by decide)
      have hdecided : decidedEdge (n.edges.getD []) s.output w = some edge := by
        have hres : w.resolution = some "agent_decided" := hresolution
        unfold decidedEdge
        rw [if_pos hres]
        have hin' : ((s.output.object "decision").getD []).text "edge" = some edge := hin
        rw [hin', Option.filter_some, if_pos]
        simp [hlabel, hto]
      have hout : ∃ output reason, outcome = .advance edge (some to') output reason := by
        cases h
        simp only [executeAgent, hmode, hdecided, hto]
        exact ⟨_, _, rfl⟩
      obtain ⟨output, reason, rfl⟩ := hout
      exact ⟨to', hto, (leftAlong_settle hs hactive _ _ _ _).of_ne fun h => hne (Option.some.inj h)⟩
    | _ => exact hfits.elim
  | drafted =>
    cases node with
    | message n =>
      -- With its draft there a message asks no agent again: it may wait for something else.
      have hsilent : outcome.Silent (.message n) := by
        cases asking_execute h with
        | silent _ _ _ _ hsilent => exact hsilent
        | agent hresumed => cases hresumed
        | approval hresumed => cases hresumed
      have hfollows : outcome.Follows (.message n) := by
        have hsnd : (executeMessage env _ n f).2 = outcome := congrArg Prod.snd (Except.ok.inj h)
        exact hsnd ▸ follows_executeMessage env _ hconforms f
      refine ⟨fun v hv => ?_, ?_⟩
      · have hkind := openWaits_settle hnone outcome hv
        cases outcome with
        | wait wait output reason =>
          have hsilent' : wait.kind.asks = false := hsilent
          rw [← Option.some.inj hkind]
          exact hsilent'
        | advance | exit | retry => cases hkind
      · cases outcome with
        | wait wait output reason =>
          refine .inl ⟨_, List.mem_filter.2 ⟨List.mem_append_right _ (List.mem_singleton_self _), ?_⟩,
            rfl⟩
          rfl
        | advance edge to' output reason =>
          exact .inr (.inl ⟨edge, hfollows.2 ▸ leftAlong_settle hs hactive edge _ output reason⟩)
        | exit reason output => exact .inr (.inr (endedAt_settle hs hactive reason output).1)
        | retry => cases hsilent
    | _ => exact hfits.elim
  | filled =>
    cases node with
    | agent n =>
      have hmode : n.mode = .enrich := hfits
      simp only [JourneyNode.conforms, Bool.and_eq_true] at hconforms
      have hout : ∃ output reason, outcome = .advance "next" n.next output reason := by
        cases h
        simp only [executeAgent, hmode, Outcome.next]
        exact ⟨_, _, rfl⟩
      obtain ⟨output, reason, rfl⟩ := hout
      exact (leftAlong_settle hs hactive _ _ _ _).of_ne (ne_of_all_isNodeId hconforms.2.2)
    | _ => exact hfits.elim
  | approved =>
    cases node with
    | approval n =>
      simp only [JourneyNode.conforms, Bool.and_eq_true] at hconforms
      have hres : w.resolution = some "approved" := hresolution
      have hout : outcome = .next n.next "approved" := by
        have hsnd := congrArg Prod.snd (Except.ok.inj h)
        simp only [executeApproval, hres, if_true] at hsnd
        exact hsnd.symm
      rw [hout]
      exact (leftAlong_settle hs hactive _ _ _ _).of_ne (ne_of_all_isNodeId hconforms.2.1.1.2)
    | _ => exact hfits.elim
  | rejected =>
    cases node with
    | approval n =>
      simp only [JourneyNode.conforms, Bool.and_eq_true] at hconforms
      have hreject := hconforms.2.1.2
      have hres : w.resolution = some "rejected" := hresolution
      have hsnd := congrArg Prod.snd (Except.ok.inj h)
      have hnot : (some "rejected" : Option String) ≠ some "approved" := by decide
      simp only [executeApproval, hres, if_neg hnot, if_true] at hsnd
      rw [truthy_of_isNodeId hreject] at hsnd
      unfold Answer.Leads
      dsimp only
      cases honReject : n.onReject with
      | some to' =>
        rw [honReject, Option.isSome_some, if_pos rfl] at hsnd
        rw [← hsnd]
        exact (leftAlong_settle hs hactive _ _ _ _).of_ne (honReject ▸ ne_of_all_isNodeId hreject)
      | none =>
        rw [honReject, Option.isSome_none, if_neg Bool.false_ne_true] at hsnd
        rw [← hsnd]
        exact endedAt_settle hs hactive _ _
    | _ => exact hfits.elim

/-- What a run that goes on with an answer is not changed in by the record of errors. -/
theorem Answer.Leads.clearErrors {answer : Answer} {node : JourneyNode}
    (h : answer.Leads run g node) : answer.Leads run g.clearErrors node := by
  have hrow : ∃ p : Enrollment → Enrollment, g.clearErrors = g.updateRow p ∧
      (p g.row).state = g.row.state ∧ (p g.row).currentNode = g.row.currentNode ∧
      (p g.row).exitReason = g.row.exitReason := by
    unfold EnrollmentFile.clearErrors
    split
    · exact ⟨_, rfl, rfl, rfl, rfl⟩
    · exact ⟨id, rfl, rfl, rfl, rfl⟩
  obtain ⟨p, hp, hstate, hnode, hreason⟩ := hrow
  have halong : ∀ {edge : String} {to' : Option NodeId}, LeftAlong g run edge to' →
      LeftAlong (g.updateRow p) run edge to' := by
    rintro edge to' ⟨hstep, hplace⟩
    refine ⟨hstep, ?_⟩
    cases to' with
    | none => exact ⟨hstate.trans hplace.1, hreason.trans hplace.2⟩
    | some to' => exact ⟨hstate.trans hplace.1, hnode.trans hplace.2⟩
  have hended : EndedAt g run → EndedAt (g.updateRow p) run := fun h =>
    ⟨h.step, (congrArg EnrollmentState.isOpen hstate).trans h.closed⟩
  rw [hp]
  unfold Answer.Leads at h ⊢
  split at h
  · exact h.imp fun to' hto => ⟨hto.1, halong hto.2⟩
  · exact halong h
  · exact ⟨h.1, h.2.imp_right (Or.imp (Exists.imp fun _ => halong) hended)⟩
  · exact halong h
  · split at h
    · exact halong h
    · exact ⟨hended h.1, hreason.trans h.2⟩
  · exact h.elim

/-- A waiting run is entered again with its only wait. -/
theorem EnrollmentFile.enterRun_of_resumed {node : JourneyNode} {visit : Nat} {s : StepRun}
    (hrun : f.visitRun node.id visit = some s) (hstatus : s.status = .waiting) {w : JourneyWait}
    (hw : f.waitsOf s.id = [w]) (hresolved : w.resolvedAt.isSome = true) :
    f.enterRun node visit = (f, s, some w, 1) := by
  have hlatest : f.latestWait s.id = some w := by
    have hnewest : f.latestWait s.id = (some w).filter (·.resolvedAt.isSome) := by
      have hfold := congrArg (List.foldl (fun (best : Option JourneyWait) w =>
        if best.any fun b => w.createdAt < b.createdAt then best else some w) none) hw
      exact congrArg (Option.filter fun v : JourneyWait => v.resolvedAt.isSome) hfold
    rw [hnewest, Option.filter_some, if_pos hresolved]
  unfold EnrollmentFile.enterRun
  rw [hrun]
  simp [hstatus, hlatest]

/-- **The run of an answered step**: nothing happens while the journey is not live; a run beyond the
visit cap ends; else the step leads where its answer leads. -/
theorem leads_runNode (hasks : AsksOk specs f) (hwaits : WaitsOk True f)
    (hconforms : ∀ version spec, specs version = some spec → spec.conforms = true)
    {answer : Answer} {version : Nat} {s : StepRun} (hs : s ∈ f.steps)
    (hstatus : s.status = .waiting) (hanswered : Answered specs answer version f s)
    (hactive : f.row.state = .active) {more : Bool} (h : f.runNode specs env = .ok (g, more)) :
    g = f ∧ env.journeyLive = false ∨
      ∃ spec node, specs version = some spec ∧ spec.node s.nodeId = some node ∧
        (spec.settings.maxVisitsPerNode < s.visit ∧ g = f.finish "loop_detected" env.clock ∨
          answer.Leads s.id g node) := by
  obtain ⟨hversion, ⟨w, hw, hresolved, hresolution⟩, hin, spec, node, hspec, hnode, hfits⟩ :=
    hanswered
  have hopen : f.row.state.isOpen = true := isOpen_iff.2 (.inl hactive)
  have hrecords := hasks.records hopen
  have hat : f.row.AtVisit s :=
    (hasks.standing hopen).current s hs (by rw [hstatus]; rfl)
  have hid := (node_eq_some hnode).1
  have hnode' := spec.conforms_node (hconforms _ _ hspec) (List.mem_of_find?_eq_some hnode)
  have hnonempty : s.nodeId ≠ "" := hid ▸ JourneyNode.id_ne_empty hnode'
  unfold EnrollmentFile.runNode at h
  split at h
  · rename_i current _ hcurrent
    have hsame : current = s.nodeId :=
      Option.some.inj ((Option.filter_eq_some_iff.1 hcurrent).1.symm.trans hat.1)
    split at h
    · rename_i hlive
      cases h
      exact .inl ⟨rfl, by simpa using hlive⟩
    · rw [hversion, hspec] at h
      dsimp only at h
      rw [hsame, hnode] at h
      dsimp only at h
      have hvisit : f.row.visits.current node.id = .count s.visit := by
        rw [hid, Visits.current, hat.2, Option.getD_some]
      rw [hvisit] at h
      dsimp only at h
      refine .inr ⟨spec, node, hspec, hnode, ?_⟩
      split at h
      · rename_i hcap
        cases h
        exact .inl ⟨hcap, rfl⟩
      · right
        have hrun : f.visitRun node.id s.visit = some s := visitRun_eq hrecords hs hid.symm rfl
        have hentered := EnrollmentFile.enterRun_of_resumed hrun hstatus hw hresolved
        unfold EnrollmentFile.runVisit at h
        rw [hrun] at h
        simp only [Option.isNone_some, Bool.false_and, Bool.false_eq_true, if_false] at h
        rw [Option.filter_some, hstatus, if_neg (by decide), hentered] at h
        dsimp only at h
        split at h
        · cases h
        · split at h
          · cases h
          · rename_i k outcome hexec
            have hg : (k.settle env spec s.id 1 outcome).1 = g :=
              congrArg Prod.fst (Except.ok.inj h)
            rw [← hg]
            obtain ⟨thread, goal, hrow⟩ := (kept_execute hexec).row
            obtain ⟨proposal, hsteps⟩ := (kept_execute hexec).steps
            refine leads_execute ?_ hfits hresolution hin hexec ?_ ?_ ?_
            · exact hnode'
            · refine ⟨{ s with proposalId := proposal s }, ?_, rfl⟩
              rw [hsteps]
              exact List.mem_map.2 ⟨s, hs, rfl⟩
            · rw [hrow]
              exact hactive
            · rw [EnrollmentFile.openWaits, (kept_execute hexec).waits]
              exact hwaits.active hactive
  · rename_i hstuck
    refine absurd ?_ (hstuck s.nodeId hactive)
    rw [hat.1, Option.filter_some, if_pos (decide_eq_true hnonempty)]

end Leads

/-! ### Every run -/

/-- The step runs no node of this enrollment and moves it to no other version. -/
def RuntimeStep.Keeps (id : String) : RuntimeStep → Prop
  | .node id' .. => id' ≠ id
  | .act id' a _ => id' = id → ¬ a.Moves
  | .enroll _ | .exited .. | .giveUp _ => True

/-- An enrollment that is woken runs again at once, or once the conversation of a reply is
closed. -/
def EnrollmentFile.IsWoken (f : EnrollmentFile) : Prop :=
  f.row.state = .active ∨ ∃ w ∈ f.openWaits, w.kind = .conversationClose

/-- **How an answered step goes on**: whatever comes between, short of a move to another version, as
long as the step still waits the next run of its node leads where the answer leads. Only a journey
that is not live or an enrollment that still waits keeps it, and only a visit beyond the cap of its
version ends it otherwise. -/
def GoesOn (specs : Specs) (t : RuntimeState) (key : String × Nat) (answer : Answer)
    (journeyId : String) (version : Nat) : Prop :=
  ∀ bs u f s, (runtimeMachine specs).run t bs = some u → (∀ b ∈ bs, b.Keeps key.1) →
    u.files key.1 = some f → s ∈ f.steps → s.id = key.2 → s.status = .waiting →
    ∀ env child running v, (runtimeMachine specs).step u (.node key.1 env child running) = some v →
      ∃ g, v.files key.1 = some g ∧
        (g = f.clearErrors ∧ (env.journeyLive = false ∨ f.row.state ≠ .active) ∨
          ∃ spec node, specs journeyId version = some spec ∧ spec.node s.nodeId = some node ∧
            (spec.settings.maxVisitsPerNode < s.visit ∧
                g = (f.finish "loop_detected" env.clock).clearErrors ∨
              answer.Leads key.2 g node))

section Runs

variable {specs : Specs} {s t : RuntimeState} {a : RuntimeStep} {answer : Answer}
  {journeyId : String} {version : Nat} {key : String × Nat}

/-- The file of an enrollment whose step was answered. -/
def RuntimeState.Resumes (specs : Specs) (journeyId : String) (answer : Answer) (version : Nat)
    (key : String × Nat) (s : RuntimeState) : Prop :=
  ∃ f, s.files key.1 = some f ∧ f.row.journeyId = journeyId ∧
    f.Resuming (specs journeyId) answer version key.2

/-- **An answered step stays so** until its node runs or the enrollment moves. -/
theorem resumes_step (hs : EveryFile (AsksAndWaits specs) s)
    (hresumes : s.Resumes specs journeyId answer version key) (hkeeps : a.Keeps key.1)
    (h : (runtimeMachine specs).step s a = some t) :
    t.Resumes specs journeyId answer version key := by
  obtain ⟨f, hf, rfl, hresuming⟩ := hresumes
  obtain ⟨hwaits, hasks⟩ := hs _ _ hf
  obtain ⟨g, hg, hstep⟩ := file_step h hf
  cases hstep with
  | same heq => exact ⟨g, hg, heq ▸ rfl, heq ▸ hresuming⟩
  | node env child running more k ha =>
    subst ha
    exact absurd rfl hkeeps
  | act act running ha hact =>
    subst ha
    exact ⟨g, hg, (noNewAwait_apply hact).journey,
      resuming_apply hasks hwaits hresuming (hkeeps rfl) hact⟩
  | event event clock heq =>
    have hsteady : Steady (fun _ => False) f (f.onEvent event clock) := steady_onEvent f _ _
    have hevent : NoNewAwait (specs f.row.journeyId) f (f.onEvent event clock) :=
      noNewAwait_onEvent f event clock
    exact ⟨g, hg, heq ▸ hevent.journey, heq ▸ hsteady.resuming hresuming id⟩

theorem resumes_run {bs : List RuntimeStep} {u : RuntimeState}
    (hs : EveryFile (AsksAndWaits specs) s)
    (hresumes : s.Resumes specs journeyId answer version key) (hkeeps : ∀ b ∈ bs, b.Keeps key.1)
    (h : (runtimeMachine specs).run s bs = some u) :
    EveryFile (AsksAndWaits specs) u ∧ u.Resumes specs journeyId answer version key := by
  induction bs generalizing s with
  | nil =>
    obtain rfl : s = u := Option.some.inj h
    exact ⟨hs, hresumes⟩
  | cons b bs ih =>
    obtain ⟨t, ht, hrun⟩ := Option.bind_eq_some_iff.1 h
    exact ih (asksAndWaits_step hs ht)
      (resumes_step hs hresumes (hkeeps b List.mem_cons_self) ht)
      (fun c hc => hkeeps c (List.mem_cons_of_mem b hc)) hrun

theorem goesOn_of_resumes
    (hconforms : ∀ version spec, specs journeyId version = some spec → spec.conforms = true)
    (ht : EveryFile (AsksAndWaits specs) t)
    (hresumes : t.Resumes specs journeyId answer version key) :
    GoesOn specs t key answer journeyId version := by
  intro bs u f s hrun hkeeps hf hs hid hstatus env child running v hstep
  obtain ⟨hu, f', hf', hjourney, hresuming⟩ := resumes_run ht hresumes hkeeps hrun
  obtain rfl := Option.some.inj (hf.symm.trans hf')
  obtain ⟨hwaits, hasks⟩ := hu _ _ hf
  obtain ⟨f'', k, more, hf'', hrun', hg, -⟩ := node_step hstep
  obtain rfl := Option.some.inj (hf.symm.trans hf'')
  refine ⟨_, hg, ?_⟩
  by_cases hactive : f.row.state = .active
  · have hanswered := hresuming (isOpen_iff.2 (.inl hactive)) s hs hid hstatus
    obtain ⟨hclock, hlive⟩ : (RuntimeState.answerEnroll env child).clock = env.clock ∧
        (RuntimeState.answerEnroll env child).journeyLive = env.journeyLive := by
      unfold RuntimeState.answerEnroll
      split
      · exact ⟨rfl, rfl⟩
      · split <;> exact ⟨rfl, rfl⟩
    rw [hjourney] at hasks hrun'
    rcases leads_runNode hasks hwaits hconforms hs hstatus hanswered hactive hrun' with
      ⟨rfl, hdown⟩ | ⟨spec, node, hspec, hnode, ⟨hcap, rfl⟩ | hleads⟩
    · exact .inl ⟨rfl, .inl (hlive.symm.trans hdown)⟩
    · exact .inr ⟨spec, node, hspec, hnode, .inl ⟨hcap, by rw [hclock]⟩⟩
    · exact .inr ⟨spec, node, hspec, hnode, .inr (hid ▸ hleads.clearErrors)⟩
  · rcases EnrollmentFile.runNode_cases hrun' with ⟨rfl, -⟩ | ⟨hrunning, -⟩
    · exact .inl ⟨rfl, .inr hactive⟩
    · exact absurd hrunning hactive

variable {f : EnrollmentFile} {w : JourneyWait}

/-- The enrollment of a wait that is resolved is woken. -/
theorem isWoken_resolveWait {late : Prop} (hwaits : WaitsOk late f) (hw : w ∈ f.openWaits)
    (hkind : w.kind ≠ .conversationClose)
    (resolution : String) (context : Record) (clock : Instant) :
    (f.resolveWait w.id resolution context clock).IsWoken := by
  generalize hg : f.resolveWait w.id resolution context clock = g
  have hgwaits : WaitsOk late g := hg ▸ waitsOk_resolveWait hwaits _ _ _ _
  have hopen : g.row.state.isOpen = true := by
    rw [← hg, isOpen_resolveWait]
    exact isOpen_iff.2 (.inr (hwaits.state_of_open hw))
  rcases isOpen_iff.1 hopen with hactive | hwaiting
  · exact .inl hactive
  · obtain ⟨v, hv⟩ := List.exists_mem_of_ne_nil _ (hgwaits.waiting hwaiting)
    refine .inr ⟨v, hv, ?_⟩
    by_contra hclose
    -- Both would be waits of steps, and there is only one.
    obtain ⟨hvf, hne⟩ := mem_openWaits_resolveWait (hg ▸ hv)
    have hv' : v ∈ f.stepWaits := List.mem_filter.2 ⟨hvf, by simpa using hclose⟩
    have hw' : w ∈ f.stepWaits := List.mem_filter.2 ⟨hw, by simpa using hkind⟩
    have hlen := hwaits.single
    cases hlist : f.stepWaits with
    | nil => simp [hlist] at hv'
    | cons x rest =>
      rw [hlist] at hlen hv' hw'
      obtain rfl : rest = [] := by simpa using hlen
      rw [List.mem_singleton] at hv' hw'
      exact hne (by rw [hv', hw'])

theorem Submitted.isWoken {specs : Nat → Option JourneySpec} {g : EnrollmentFile}
    (hwaits : WaitsOk True f) {seen : StepRun} {input : Submission} {clock : Instant}
    {node : JourneyNode} {output context : Record}
    (h : Submitted specs f g seen input clock w node output context) : g.IsWoken := by
  rw [h.file]
  generalize hk : (f.updateRow _).updateSteps _ _ = k
  have hkw : w ∈ k.openWaits := hk ▸ h.wait
  have hkwaits : WaitsOk True k :=
    hk ▸ ⟨hwaits.active, hwaits.waiting, hwaits.single, hwaits.finished⟩
  exact isWoken_resolveWait hkwaits hkw (by rw [h.kind]; decide) _ _ _

theorem DecidedInTime.isWoken {g : EnrollmentFile} (hwaits : WaitsOk True f) {id : Nat}
    {a : JourneyApproval} (hin : DecidedInTime f id a w) {approve : Bool}
    {clock : Instant} (h : f.decideApproval id approve clock = some g) : g.IsWoken := by
  rw [hin.file h]
  generalize hk : f.updateApprovals _ _ = k
  have hkw : w ∈ k.openWaits := hk ▸ hin.wait
  have hkwaits : WaitsOk True k :=
    hk ▸ ⟨hwaits.active, hwaits.waiting, hwaits.single, hwaits.finished⟩
  exact isWoken_resolveWait hkwaits hkw (by rw [hin.kind]; decide) _ _ _

/-- A submission that was read before the lock as the step is, and a decision whose wait is open. -/
def RuntimeState.AnswersInTime (s : RuntimeState) : RuntimeStep → Prop
  | .act id act _ => ∀ f, s.files id = some f → SubmitsAsRead f act ∧ DecidesInTime f act
  | .enroll _ | .node .. | .exited .. | .giveUp _ => True

/-- **An accepted submission** wakes its enrollment, with its step answered. -/
theorem resumes_of_answered (hs : EveryFile (AsksAndWaits specs) s)
    (h : (runtimeMachine specs).step s a = some t) (hanswered : s.answered a = some key)
    (hanswer : a.answer = some answer) (hin : s.AnswersInTime a) :
    ∃ f g, s.files key.1 = some f ∧ t.files key.1 = some g ∧ g.IsWoken ∧
      t.Resumes specs f.row.journeyId answer f.row.version key := by
  cases a with
  | act id act running =>
    obtain ⟨f, hf, happly⟩ := Option.bind_eq_some_iff.1 h
    obtain ⟨g, hg, rfl⟩ := Option.map_eq_some_iff.1 happly
    obtain ⟨hread, htime⟩ := hin f hf
    obtain ⟨hwaits, hasks⟩ := hs id f hf
    have hwritten := s.files_write_self id f g running
    have hjourney := (noNewAwait_apply hg).journey
    cases act with
    | submit seen input clock =>
      cases hanswered
      cases hanswer
      obtain ⟨w, node, output, context, hsubmitted⟩ := submit_eq_some hg
      exact ⟨f, g, hf, hwritten, hsubmitted.isWoken hwaits, g, hwritten, hjourney,
        hsubmitted.resuming hasks hwaits hread⟩
    | decideApproval approval approve clock =>
      cases hanswer
      obtain ⟨a, -, -, -, hfind, -⟩ := decideApproval_answers hasks hg
      simp only [RuntimeState.answered, hf, Option.bind_some, hfind, Option.map_some,
        Option.some.injEq] at hanswered
      subst hanswered
      obtain ⟨w, hdecided⟩ := decidedInTime_of hasks hwaits htime hfind
      exact ⟨f, g, hf, hwritten, hdecided.isWoken hwaits hg, g, hwritten, hjourney,
        hdecided.resuming hasks hwaits hg⟩
    | recordStepError | reschedule | resolveWait | event | reply | rememberThread | markGoal
    | finish | move | resumeNode | purgeTraces => cases hanswered
  | enroll | node | exited | giveUp => cases hanswered

end Runs

/-- **Steps are answered once, and go on as they were answered.** In every run of the runtime, over
journeys of the schema's form, no step is answered twice; once it was answered, its agent's wait was
resolved, its approval was decided or expired, or its enrollment ended, no submission is accepted
for it; and a submission that is accepted wakes the enrollment, whose next run leads where the
answer leads. -/
theorem submissions_answer_once {specs : Specs}
    (hconforms : ∀ journeyId version spec, specs journeyId version = some spec →
      spec.conforms = true) :
    (∀ s as t, NoEnrollments s → (runtimeMachine specs).run s as = some t →
      (answers specs s as).Nodup) ∧
    ∀ s, (runtimeMachine specs).Reachable NoEnrollments s →
      (∀ key, s.Spent key → ∀ as, key ∉ answers specs s as) ∧
      ∀ a t key answer, (runtimeMachine specs).step s a = some t → s.answered a = some key →
        a.answer = some answer → s.AnswersInTime a →
        ∃ f g, s.files key.1 = some f ∧ t.files key.1 = some g ∧ g.IsWoken ∧
          GoesOn specs t key answer f.row.journeyId f.row.version := by
  constructor
  · intro s as t hstart _
    refine (nodup_answers fun id f hf => ?_).2
    rw [hstart] at hf
    cases hf
  · intro s hreachable
    have hs := asksAndWaits_reachable hreachable
    refine ⟨fun key hspent as hmem => (nodup_answers hs).1 key hmem hspent, ?_⟩
    intro a t key answer hstep hanswered hanswer hin
    obtain ⟨f, g, hf, hg, hwoken, hresumes⟩ := resumes_of_answered hs hstep hanswered hanswer hin
    exact ⟨f, g, hf, hg, hwoken, goesOn_of_resumes (hconforms _) (asksAndWaits_step hs hstep)
      hresumes⟩

/-- An approval whose rejection leads nowhere. -/
def approveNode : ApprovalNode where
  id := "approve"
  title := "Launch"
  next := "won"

/-- Its journey. -/
def approvalSpecs : Specs := fun _ _ => some (sampleJourney (.approval approveNode))

/-- A contact put into it, whose step asks for the approval. -/
def approvalAsked : List RuntimeStep :=
  [.enroll sampleEntry, .node "e1" { now := 0, clock := 0 } none true]

/-- The decision of the approval. -/
def decideSample (approve : Bool) : RuntimeStep :=
  .act "e1" (.decideApproval 1 approve 1) true

/-- The state after a few steps of the sample. -/
def approvalState (steps : List RuntimeStep) : RuntimeState :=
  ((runtimeMachine approvalSpecs).run {} steps).getD {}

theorem conforms_approvalSpecs (journeyId : String) (version : Nat) (spec : JourneySpec)
    (h : approvalSpecs journeyId version = some spec) : spec.conforms = true := by
  obtain rfl := Option.some.inj h
  decide

theorem reachable_approvalAsked :
    (runtimeMachine approvalSpecs).Reachable NoEnrollments (approvalState approvalAsked) := by
  have hstart : NoEnrollments {} := rfl
  have hrun : (runtimeMachine approvalSpecs).run {} approvalAsked =
      some (approvalState approvalAsked) := rfl
  exact Machine.reachable_of_run hstart hrun

/-- The decision is in time. -/
theorem inTime_decideSample (approve : Bool) :
    (approvalState approvalAsked).AnswersInTime (decideSample approve) := by
  intro f hf
  refine ⟨trivial, ?_⟩
  cases hf
  refine ⟨_, List.mem_cons_self, rfl, rfl, _, List.mem_cons_self, rfl, rfl⟩

theorem submissions_answer_once_sample :
    (answers approvalSpecs {} (approvalAsked ++ [decideSample true, decideSample true])).Nodup ∧
    GoesOn approvalSpecs (approvalState (approvalAsked ++ [decideSample true])) ("e1", 0) .approved
      "j1" 1 := by
  obtain ⟨hnodup, hreachable⟩ := submissions_answer_once conforms_approvalSpecs
  have hstart : NoEnrollments {} := rfl
  constructor
  · have hrun : answers approvalSpecs {}
        (approvalAsked ++ [decideSample true, decideSample true]) =
        answers approvalSpecs {} (approvalAsked ++ [decideSample true]) := rfl
    rw [hrun]
    exact hnodup {} _ (approvalState (approvalAsked ++ [decideSample true])) hstart rfl
  · obtain ⟨f, g, hf, -, -, hgoesOn⟩ := (hreachable _ reachable_approvalAsked).2
      (decideSample true) (approvalState (approvalAsked ++ [decideSample true])) ("e1", 0)
      .approved rfl rfl rfl (inTime_decideSample true)
    cases hf
    exact hgoesOn

/-- **A rejection without its edge** ends the run: the step was left along no edge. -/
theorem rejection_takes_no_edge :
    ¬ ∀ (specs : Specs) (s t u : RuntimeState) (a : RuntimeStep) (key : String × Nat)
        (env : StepEnv) (child : Option NewEnrollment) (running : Bool),
      (∀ journeyId version spec, specs journeyId version = some spec → spec.conforms = true) →
      (runtimeMachine specs).Reachable NoEnrollments s →
      (runtimeMachine specs).step s a = some t → s.answered a = some key → s.AnswersInTime a →
      env.journeyLive = true →
      (runtimeMachine specs).step t (.node key.1 env child running) = some u →
      ∃ g, u.files key.1 = some g ∧ ∃ r ∈ g.steps, r.id = key.2 ∧ r.edgeTaken.isSome = true := by
  intro h
  obtain ⟨g, hg, r, hr, -, hedge⟩ := h approvalSpecs (approvalState approvalAsked)
    (approvalState (approvalAsked ++ [decideSample false]))
    (approvalState (approvalAsked ++ [decideSample false,
      .node "e1" { now := 2, clock := 2 } none true]))
    (decideSample false) ("e1", 0) { now := 2, clock := 2 } none true conforms_approvalSpecs
    reachable_approvalAsked rfl rfl (inTime_decideSample false) rfl rfl
  cases hg
  cases hr with
  | head => exact absurd hedge (by decide)
  | tail _ hr => cases hr

end Munin
