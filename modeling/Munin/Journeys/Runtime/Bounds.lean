import Munin.Journeys.Runtime.Waits
import Mathlib.Data.List.ProdSigma
import Mathlib.Data.List.Nodup
import Mathlib.Algebra.Order.BigOperators.Group.List
import Mathlib.Algebra.Order.Ring.Nat

/-!
# How much an enrollment runs

Every visit to a node is one row of `journey_step_runs`, and the visits are counted on every way
into a node: the start, the end of a step, a reply and a move to another version. Hence no key of a
step run is inserted twice, and the cap on visits bounds the steps that are executed.

* **`BoundsOk`** — the invariant of one file, about every insertion there ever was.
* **`runs_bounded`** — what follows for the number of steps, and for the loop of `runEnrollment`.
-/

namespace Munin

open Foundations

/-- The key of an insertion. -/
def StepKey.key (k : StepKey) : NodeId × Nat :=
  (k.nodeId, k.visit)

/-- The rows of the step runs have this key. -/
def EnrollmentFile.HasRun (f : EnrollmentFile) (nodeId : NodeId) (visit : Nat) : Prop :=
  ∃ s ∈ f.steps, s.nodeId = nodeId ∧ s.visit = visit

theorem visitRun_eq_none {f : EnrollmentFile} {nodeId : NodeId} {visit : Nat}
    (h : f.visitRun nodeId visit = none) : ¬ f.HasRun nodeId visit := by
  rintro ⟨s, hs, rfl, rfl⟩
  have hne := List.find?_eq_none.1 h s hs
  simp at hne

theorem visitRun_eq_some {f : EnrollmentFile} {nodeId : NodeId} {visit : Nat} {run : StepRun}
    (h : f.visitRun nodeId visit = some run) :
    run ∈ f.steps ∧ run.nodeId = nodeId ∧ run.visit = visit :=
  ⟨List.mem_of_find?_eq_some h, by simpa using List.find?_some h⟩

/-- The counts of a visit record are at least one. -/
def Visits.Positive (visits : Visits) : Prop :=
  ∀ id n, visits.get id = some (.count n) → 1 ≤ n

theorem Visits.Positive.enter {visits : Visits} (h : visits.Positive) (id : NodeId) :
    (visits.enter id).Positive := by
  intro other n hn
  by_cases hid : other = id
  · subst hid
    rw [Visits.get_enter_self, Option.some.injEq] at hn
    unfold Visits.nextVisit at hn
    split at hn <;> cases hn <;> omega
  · rw [visits.get_enter_of_ne hid] at hn
    exact h other n hn

theorem Visits.Positive.current {visits : Visits} (h : visits.Positive) {id : NodeId} {n : Nat}
    (hn : visits.current id = .count n) : 1 ≤ n := by
  unfold Visits.current at hn
  cases hget : visits.get id with
  | none =>
    rw [hget] at hn
    cases hn
    exact Nat.le_refl 1
  | some c =>
    rw [hget] at hn
    exact h id n (by rw [hget, ← hn, Option.getD_some])

/-- An execution that the spec of its version allows. -/
def Allowed (specs : Nat → Option JourneySpec) (k : StepKey) : Prop :=
  ∃ spec, specs k.version = some spec ∧ k.nodeId ∈ spec.nodes.map (·.id) ∧
    1 ≤ k.visit ∧ k.visit ≤ spec.settings.maxVisitsPerNode

/-- The invariant of an enrollment's step runs. -/
structure BoundsOk (specs : Specs) (f : EnrollmentFile) : Prop where
  nodup : (f.inserted.map StepKey.key).Nodup
  stored : f.row.state.isOpen = true → ∀ k ∈ f.inserted, f.HasRun k.nodeId k.visit
  positive : f.row.visits.Positive
  allowed : ∀ k ∈ f.inserted, k.executed = true → Allowed (specs f.row.journeyId) k

/-- What no write takes from the step runs of an enrollment that stays open, nor from the record of
insertions. -/
structure KeepsRuns (f g : EnrollmentFile) : Prop where
  inserted : g.inserted = f.inserted
  journey : g.row.journeyId = f.row.journeyId
  isOpen : g.row.state.isOpen = true → f.row.state.isOpen = true
  runs : g.row.state.isOpen = true → ∀ nodeId visit, f.HasRun nodeId visit → g.HasRun nodeId visit

variable {specs : Specs} {f g : EnrollmentFile}

theorem KeepsRuns.refl (f : EnrollmentFile) : KeepsRuns f f :=
  ⟨rfl, rfl, id, fun _ _ _ => id⟩

theorem KeepsRuns.trans {h : EnrollmentFile} (hfg : KeepsRuns f g) (hgh : KeepsRuns g h) :
    KeepsRuns f h where
  inserted := hgh.inserted.trans hfg.inserted
  journey := hgh.journey.trans hfg.journey
  isOpen hopen := hfg.isOpen (hgh.isOpen hopen)
  runs hopen nodeId visit hrun :=
    hgh.runs hopen nodeId visit (hfg.runs (hgh.isOpen hopen) nodeId visit hrun)

theorem BoundsOk.frame (hf : BoundsOk specs f) (h : KeepsRuns f g)
    (hvisits : g.row.visits.Positive) : BoundsOk specs g where
  nodup := by
    rw [h.inserted]
    exact hf.nodup
  stored hopen k hk := by
    rw [h.inserted] at hk
    exact h.runs hopen _ _ (hf.stored (h.isOpen hopen) k hk)
  positive := hvisits
  allowed k hk hexec := by
    rw [h.inserted] at hk
    rw [h.journey]
    exact hf.allowed k hk hexec

/-! ### What the writes keep -/

theorem hasRun_map {steps : List StepRun} {g : StepRun → StepRun} {nodeId : NodeId} {visit : Nat}
    (hg : ∀ s, (g s).nodeId = s.nodeId ∧ (g s).visit = s.visit)
    (h : ∃ s ∈ steps, s.nodeId = nodeId ∧ s.visit = visit) :
    ∃ s ∈ steps.map g, s.nodeId = nodeId ∧ s.visit = visit := by
  obtain ⟨s, hs, rfl, rfl⟩ := h
  exact ⟨g s, List.mem_map_of_mem hs, (hg s).1, (hg s).2⟩

/-- A write to step runs that leaves their keys alone. -/
theorem keepsRuns_updateSteps (f : EnrollmentFile) (p : StepRun → Bool) {g : StepRun → StepRun}
    (hg : ∀ s, (g s).nodeId = s.nodeId ∧ (g s).visit = s.visit) :
    KeepsRuns f (f.updateSteps p g) := by
  refine ⟨rfl, rfl, id, fun _ nodeId visit hrun => hasRun_map (fun s => ?_) hrun⟩
  split
  · exact hg s
  · exact ⟨rfl, rfl⟩

theorem keepsRuns_updateRow (f : EnrollmentFile) {g : Enrollment → Enrollment}
    (hjourney : (g f.row).journeyId = f.row.journeyId)
    (hopen : (g f.row).state.isOpen = true → f.row.state.isOpen = true) :
    KeepsRuns f (f.updateRow g) :=
  ⟨rfl, hjourney, hopen, fun _ _ _ hrun => hrun⟩

theorem Kept.keepsRuns (h : Kept f g) : KeepsRuns f g := by
  obtain ⟨thread, goal, hrow⟩ := h.row
  obtain ⟨proposal, hsteps⟩ := h.steps
  refine ⟨h.inserted, by rw [hrow], fun hopen => by rwa [hrow] at hopen, ?_⟩
  intro _ nodeId visit hrun
  have hmapped := hasRun_map (g := fun s => { s with proposalId := proposal s })
    (fun _ => ⟨rfl, rfl⟩) hrun
  rwa [← hsteps] at hmapped

theorem keepsRuns_closeOpenSteps (f : EnrollmentFile) (reason : String) (clock : Instant) :
    KeepsRuns f (f.closeOpenSteps reason clock) := by
  have hsteps : KeepsRuns f (f.updateSteps (·.status.isOpen)
      fun s => { s with status := .cancelled, reason, finishedAt := clock }) :=
    keepsRuns_updateSteps f _ fun _ => ⟨rfl, rfl⟩
  exact ⟨hsteps.inserted, hsteps.journey, hsteps.isOpen, hsteps.runs⟩

/-- The visits of an enrollment after its end are those before. -/
theorem visits_finish (f : EnrollmentFile) (reason : String) (clock : Instant) :
    (f.finish reason clock).row.visits = f.row.visits := by
  unfold EnrollmentFile.finish
  split <;> rfl

theorem keepsRuns_finish (f : EnrollmentFile) (reason : String) (clock : Instant) :
    KeepsRuns f (f.finish reason clock) := by
  unfold EnrollmentFile.finish
  split
  · rename_i hopen
    dsimp only
    generalize hu : f.updateRow _ = u
    have hfu : KeepsRuns f u := hu ▸ keepsRuns_updateRow f rfl fun _ => hopen
    generalize "the journey run ended (" ++ reason ++ ")" = text
    have hclosed := keepsRuns_closeOpenSteps u text clock
    exact hfu.trans ⟨hclosed.inserted, hclosed.journey, hclosed.isOpen, hclosed.runs⟩
  · exact .refl f

theorem keepsRuns_resolveWait (f : EnrollmentFile) (id : Nat) (resolution : String)
    (context : Record) (clock : Instant) :
    KeepsRuns f (f.resolveWait id resolution context clock) ∧
      (f.resolveWait id resolution context clock).row.visits = f.row.visits := by
  unfold EnrollmentFile.resolveWait
  split
  · exact ⟨.refl f, rfl⟩
  · dsimp only
    split
    · exact ⟨⟨rfl, rfl, fun h => h, fun _ _ _ hrun => hrun⟩, rfl⟩
    · rename_i hwaiting
      have hstate : f.row.state = .waiting := not_not.1 hwaiting
      have hopen : f.row.state.isOpen = true := isOpen_iff.2 (.inr hstate)
      split
      · exact ⟨⟨rfl, rfl, fun _ => hopen, fun _ _ _ hrun => hrun⟩, rfl⟩
      · exact ⟨⟨rfl, rfl, fun _ => hopen, fun _ _ _ hrun => hrun⟩, rfl⟩

/-- Whatever keeps the runs and the visits keeps the invariant. -/
theorem BoundsOk.keep (hf : BoundsOk specs f)
    (h : KeepsRuns f g ∧ g.row.visits = f.row.visits) : BoundsOk specs g :=
  hf.frame h.1 (h.2 ▸ hf.positive)

theorem BoundsOk.kept (hf : BoundsOk specs f) (h : Kept f g) : BoundsOk specs g := by
  obtain ⟨thread, goal, hrow⟩ := h.row
  exact hf.keep ⟨h.keepsRuns, by rw [hrow]⟩

theorem boundsOk_finish (hf : BoundsOk specs f) (reason : String) (clock : Instant) :
    BoundsOk specs (f.finish reason clock) :=
  hf.keep ⟨keepsRuns_finish f reason clock, visits_finish f reason clock⟩

theorem boundsOk_onEvent (hf : BoundsOk specs f) (event : RuntimeEvent) (clock : Instant) :
    BoundsOk specs (f.onEvent event clock) := by
  unfold EnrollmentFile.onEvent
  dsimp only
  generalize f.openWaits.filter _ = waits
  induction waits generalizing f with
  | nil => exact hf
  | cons w ws ih => exact ih (hf.keep (keepsRuns_resolveWait _ _ _ _ _))

/-- **An insertion** adds a key that was not there. -/
theorem boundsOk_insertRun (hf : BoundsOk specs f) (hopen : f.row.state.isOpen = true)
    {run : StepRun} {executed : Bool} (hnew : f.visitRun run.nodeId run.visit = none)
    (hallowed : executed = true →
      Allowed (specs f.row.journeyId) ⟨run.nodeId, run.visit, run.version, executed⟩) :
    BoundsOk specs (f.insertRun run executed) where
  nodup := by
    have hfresh : ∀ k ∈ f.inserted, k.key ≠ (run.nodeId, run.visit) := by
      intro k hk heq
      obtain ⟨hnode, hvisit⟩ := Prod.mk.inj heq
      exact visitRun_eq_none hnew (hnode ▸ hvisit ▸ hf.stored hopen k hk)
    have hkeys : (f.insertRun run executed).inserted.map StepKey.key =
        f.inserted.map StepKey.key ++ [(run.nodeId, run.visit)] := List.map_append ..
    rw [hkeys]
    refine List.nodup_append.2 ⟨hf.nodup, by simp, fun a ha b hb => ?_⟩
    obtain ⟨k, hk, rfl⟩ := List.mem_map.1 ha
    rw [List.mem_singleton.1 hb]
    exact hfresh k hk
  stored _ k hk := by
    rcases List.mem_append.1 hk with hk | hk
    · obtain ⟨s, hs, hkey⟩ := hf.stored hopen k hk
      exact ⟨s, List.mem_append_left _ hs, hkey⟩
    · obtain rfl := List.mem_singleton.1 hk
      exact ⟨run, List.mem_append_right _ (List.mem_singleton_self run), rfl, rfl⟩
  positive := hf.positive
  allowed k hk hexec := by
    rcases List.mem_append.1 hk with hk | hk
    · exact hf.allowed k hk hexec
    · obtain rfl := List.mem_singleton.1 hk
      exact hallowed hexec

/-! ### Runs -/

section Run

variable {env : StepEnv} {spec : JourneySpec}

theorem boundsOk_leave (hf : BoundsOk specs f) (outcome : Outcome) :
    BoundsOk specs (f.leave env spec outcome).1 := by
  unfold EnrollmentFile.leave
  split
  · exact boundsOk_finish hf _ _
  · split
    · exact boundsOk_finish hf _ _
    · exact hf.frame ⟨rfl, rfl, id, fun _ _ _ h => h⟩ (hf.positive.enter _)
  · exact hf
  · exact hf

theorem boundsOk_settle (hf : BoundsOk specs f) (hopen : f.row.state.isOpen = true)
    (runId attempt : Nat) (outcome : Outcome) :
    BoundsOk specs (f.settle env spec runId attempt outcome).1 := by
  have hupdate : ∀ g : StepRun → StepRun, (∀ s, (g s).nodeId = s.nodeId ∧ (g s).visit = s.visit) →
      BoundsOk specs (f.updateStepRun runId g) :=
    fun g hg => hf.keep ⟨keepsRuns_updateSteps f _ hg, rfl⟩
  unfold EnrollmentFile.settle
  split
  · rename_i at' reason
    have hstep := hupdate (fun s => { s with
      status := .retrying, attempt, reason := some reason }) fun _ => ⟨rfl, rfl⟩
    exact hstep.keep ⟨⟨rfl, rfl, id, fun _ _ _ h => h⟩, rfl⟩
  · rename_i wait output reason
    have hstep := hupdate (fun s => { s with
      status := .waiting, attempt, output := output.getD s.output
      reason := reason.orElse fun _ => s.reason }) fun _ => ⟨rfl, rfl⟩
    exact hstep.keep ⟨⟨rfl, rfl, fun _ => hopen, fun _ _ _ h => h⟩, rfl⟩
  · refine boundsOk_leave (hupdate _ ?_) _
    exact fun _ => ⟨rfl, rfl⟩
  · refine boundsOk_leave (hupdate _ ?_) _
    exact fun _ => ⟨rfl, rfl⟩

variable {node : JourneyNode}

theorem boundsOk_enterRun (hf : BoundsOk specs f) (hopen : f.row.state.isOpen = true) {visit : Nat}
    (hallowed : Allowed (specs f.row.journeyId) ⟨node.id, visit, f.row.version, true⟩) :
    BoundsOk specs (f.enterRun node visit).1 := by
  unfold EnrollmentFile.enterRun
  split
  · exact hf
  · rename_i hnone
    exact boundsOk_insertRun hf hopen hnone fun _ => hallowed

theorem boundsOk_runVisit (hf : BoundsOk specs f) (hopen : f.row.state.isOpen = true) {visit : Nat}
    {more : Bool} (hallowed : Allowed (specs f.row.journeyId) ⟨node.id, visit, f.row.version, true⟩)
    (h : f.runVisit env spec node visit = .ok (g, more)) : BoundsOk specs g := by
  rcases EnrollmentFile.runVisit_cases h with
    ⟨-, rfl, -⟩ | ⟨run, -, -, hg⟩ | ⟨k, outcome, hexec, hg⟩
  · exact hf.keep ⟨keepsRuns_updateRow f rfl id, rfl⟩
  · have hleft : g = (f.leave env spec (storedOutcome node run)).1 := congrArg Prod.fst hg
    rw [hleft]
    exact boundsOk_leave hf _
  · have hentered := boundsOk_enterRun hf hopen hallowed
    obtain ⟨thread, goal, hk⟩ := (kept_execute hexec).row
    have hk' : BoundsOk specs k := hentered.kept (kept_execute hexec)
    have hkopen : k.row.state.isOpen = true := by
      rw [hk, (enterRun_frame f node visit).1]
      exact hopen
    have hsettled : g = (k.settle env spec _ _ outcome).1 := congrArg Prod.fst hg
    rw [hsettled]
    exact boundsOk_settle hk' hkopen _ _ outcome

/-- The node that a spec finds has the id that was looked up, and is one of its nodes. -/
theorem node_eq_some {id : NodeId} (h : spec.node id = some node) :
    node.id = id ∧ node.id ∈ spec.nodes.map (·.id) := by
  have hid : node.id = id := by simpa using List.find?_some h
  exact ⟨hid, List.mem_map_of_mem (List.mem_of_find?_eq_some h)⟩

/-- **A node that runs** keeps the invariant. -/
theorem boundsOk_runNode (hf : BoundsOk specs f) {more : Bool}
    (h : f.runNode (specs f.row.journeyId) env = .ok (g, more)) : BoundsOk specs g := by
  rcases EnrollmentFile.runNode_cases h with
    ⟨rfl, -⟩ | ⟨hactive, current, spec, -, hspec, ⟨reason, rfl, -⟩ | ⟨node, visit, hnode, hvisit,
      hcap, hrun⟩⟩
  · exact hf
  · exact boundsOk_finish hf _ _
  · have hallowed : Allowed (specs f.row.journeyId) ⟨node.id, visit, f.row.version, true⟩ :=
      ⟨spec, hspec, (node_eq_some hnode).2, hf.positive.current hvisit, hcap⟩
    exact boundsOk_runVisit hf (isOpen_iff.2 (.inl hactive)) hallowed hrun

theorem boundsOk_clearErrors (hf : BoundsOk specs f) : BoundsOk specs f.clearErrors := by
  unfold EnrollmentFile.clearErrors
  split
  · exact hf.keep ⟨keepsRuns_updateRow f rfl id, rfl⟩
  · exact hf

theorem boundsOk_recordStepError (hf : BoundsOk specs f) {message : String} {now clock : Instant}
    (h : f.recordStepError (specs f.row.journeyId) message now clock = .ok g) :
    BoundsOk specs g := by
  rcases EnrollmentFile.recordStepError_eq_ok h with rfl | ⟨hactive, k, hk, hcase⟩
  · exact hf
  have hopen : f.row.state.isOpen = true := isOpen_iff.2 (.inl hactive)
  have hcounted : BoundsOk specs k := hk ▸ hf.keep ⟨keepsRuns_updateRow f rfl id, rfl⟩
  subst hk
  rcases hcase with ⟨_, rfl⟩ | ⟨l, hfailed, rfl⟩
  · exact hcounted.keep ⟨keepsRuns_updateRow _ rfl id, rfl⟩
  · refine boundsOk_finish ?_ _ _
    rcases EnrollmentFile.recordFailed_eq_ok hfailed with
      rfl | ⟨_, _, ⟨_, rfl⟩ | ⟨hnone, _, rfl⟩⟩
    · exact hcounted
    · exact hcounted.keep ⟨keepsRuns_updateSteps _ _ fun _ => ⟨rfl, rfl⟩, rfl⟩
    · exact boundsOk_insertRun hcounted hopen hnone fun hfalse => by cases hfalse

end Run

/-! ### The other steps -/

theorem boundsOk_apply (hf : BoundsOk specs f) {a : FileAct}
    (h : a.apply (specs f.row.journeyId) f = some g) : BoundsOk specs g := by
  cases a with
  | recordStepError message now clock =>
    exact boundsOk_recordStepError hf (recordStepError_of_apply h)
  | reschedule now =>
    cases h
    exact hf.keep ⟨keepsRuns_updateRow f rfl id, rfl⟩
  | resolveWait id resolution cause clock =>
    cases h
    exact hf.keep (keepsRuns_resolveWait _ _ _ _ _)
  | event e clock =>
    cases h
    exact boundsOk_onEvent hf e clock
  | reply r clock =>
    rcases handleReply_eq_some h with
      rfl | ⟨hopen, _, _, _, -, -, ⟨_, to', -, -, -, rfl⟩ | ⟨_, -, rfl⟩⟩
    · exact hf
    · have hclosed := keepsRuns_closeOpenSteps f "the contact replied" clock
      exact hf.frame (hclosed.trans (keepsRuns_updateRow _ rfl fun _ => hopen))
        (hf.positive.enter to')
    · exact hf.keep ⟨⟨rfl, rfl, fun _ => hopen, fun _ _ _ h => h⟩, rfl⟩
  | submit seen input clock =>
    obtain ⟨_, _, output, context, hsubmitted⟩ := submit_eq_some h
    have hrow : BoundsOk specs (f.updateRow fun e => { e with context }) :=
      hf.keep ⟨keepsRuns_updateRow f rfl id, rfl⟩
    have hsteps := hrow.keep ⟨keepsRuns_updateSteps _ (·.id = seen.id)
      (g := fun s => { s with output }) fun _ => ⟨rfl, rfl⟩, rfl⟩
    rw [hsubmitted.file]
    exact hsteps.keep (keepsRuns_resolveWait _ _ _ _ _)
  | decideApproval id approve clock =>
    obtain ⟨approval, -, rfl⟩ := Option.map_eq_some_iff.1 h
    have happrovals : ∀ p k, BoundsOk specs (f.updateApprovals p k) :=
      fun p k => hf.keep ⟨⟨rfl, rfl, fun h => h, fun _ _ _ h => h⟩, rfl⟩
    dsimp only
    split
    · exact happrovals _ _
    · exact (happrovals _ _).keep (keepsRuns_resolveWait _ _ _ _ _)
  | rememberThread conversationId =>
    cases h
    exact hf.kept (kept_rememberThread f conversationId)
  | markGoal clock =>
    cases h
    exact hf.kept (kept_markGoal f clock)
  | finish reason clock =>
    cases h
    exact boundsOk_finish hf _ _
  | move toVersion nodeMap seen held now =>
    obtain ⟨fromSpec, -, h⟩ := Option.bind_eq_some_iff.1 h
    obtain ⟨toSpec, -, rfl⟩ := Option.map_eq_some_iff.1 h
    split
    · exact hf
    · rename_i plan _
      rcases move_cases f plan toVersion now with
        hsame | ⟨-, -, hopen, _, ⟨-, hmove⟩ | hmove⟩
      · rwa [hsame]
      · rw [hmove]
        exact hf.keep ⟨keepsRuns_updateRow f rfl id, rfl⟩
      · have hsteps : KeepsRuns f (f.updateSteps (·.status.isOpen) fun s => { s with
            status := .completed, reason := some ("moved to v" ++ toString toVersion)
            finishedAt := now }) := keepsRuns_updateSteps f _ fun _ => ⟨rfl, rfl⟩
        rw [hmove]
        exact hf.frame ⟨hsteps.inserted, hsteps.journey, fun _ => hopen,
          fun _ => hsteps.runs hopen⟩ (hf.positive.enter plan.to')
  | resumeNode node clock =>
    cases h
    unfold EnrollmentFile.resumeNode
    split
    · exact hf.keep ⟨keepsRuns_updateRow f rfl id, rfl⟩
    · exact hf
  | purgeTraces =>
    cases h
    rcases purgeTraces_cases f with hsame | ⟨hclosed, hpurged⟩
    · rwa [hsame]
    · rw [hpurged]
      refine hf.keep ⟨⟨rfl, rfl, fun h => h, fun hopen => ?_⟩, rfl⟩
      exact absurd (hopen.symm.trans hclosed) (by decide)

/-! ### The loop -/

section Loop

variable {specs : Nat → Option JourneySpec} {env : StepEnv} {spec : JourneySpec}

theorem leave_continues {outcome : Outcome} (h : (g, true) = f.leave env spec outcome) :
    ∃ to', g = f.moveOn env spec to' := by
  unfold EnrollmentFile.leave at h
  split at h
  · cases h
  · split at h
    · cases h
    · exact ⟨_, congrArg Prod.fst h⟩
  · cases h
  · cases h

theorem settle_continues {runId attempt : Nat} {outcome : Outcome}
    (h : (g, true) = f.settle env spec runId attempt outcome) :
    ∃ (k : EnrollmentFile) (to' : NodeId), k.row = f.row ∧ g = k.moveOn env spec to' := by
  unfold EnrollmentFile.settle at h
  split at h
  · cases h
  · cases h
  · obtain ⟨to', hg⟩ := leave_continues h
    refine ⟨_, to', ?_, hg⟩
    rfl
  · obtain ⟨to', hg⟩ := leave_continues h
    refine ⟨_, to', ?_, hg⟩
    rfl

/-- **A round that goes on** visited an admitted node and entered another. -/
theorem runNode_continues (h : f.runNode specs env = .ok (g, true)) :
    ∃ current spec visit to', f.row.currentNode = some current ∧
      specs f.row.version = some spec ∧ current ∈ spec.nodes.map (·.id) ∧
      f.row.visits.current current = .count visit ∧ visit ≤ spec.settings.maxVisitsPerNode ∧
      g.row.version = f.row.version ∧ g.row.currentNode = some to' ∧
      g.row.visits = f.row.visits.enter to' := by
  rcases EnrollmentFile.runNode_cases h with
    ⟨-, hfalse⟩ | ⟨-, current, spec, hcurrent, hspec, ⟨reason, -, hfalse⟩ | ⟨node, visit, hnode,
      hvisit, hcap, hrun⟩⟩
  · cases hfalse
  · cases hfalse
  · obtain ⟨hid, hmem⟩ := node_eq_some hnode
    have hmoved : ∃ (k : EnrollmentFile) (to' : NodeId), k.row.version = f.row.version ∧
        k.row.visits = f.row.visits ∧ g = k.moveOn env spec to' := by
      rcases EnrollmentFile.runVisit_cases hrun with
        ⟨-, -, hfalse⟩ | ⟨run, -, -, hg⟩ | ⟨k, outcome, hexec, hg⟩
      · cases hfalse
      · obtain ⟨to', hg⟩ := leave_continues hg
        exact ⟨f, to', rfl, rfl, hg⟩
      · obtain ⟨k', to', hk', hg⟩ := settle_continues hg
        obtain ⟨thread, goal, hk⟩ := (kept_execute hexec).row
        have hrow := (enterRun_frame f node visit).1
        exact ⟨k', to', by rw [hk', hk, hrow], by rw [hk', hk, hrow], hg⟩
    obtain ⟨k, to', hversion, hvisits, rfl⟩ := hmoved
    refine ⟨current, spec, visit, to', hcurrent, hspec, hid ▸ hmem, hid ▸ hvisit, hcap, hversion,
      rfl, ?_⟩
    rw [← hvisits]
    rfl

/-- How often a node can still be entered under a cap. -/
def Visits.room (visits : Visits) (cap : Nat) (id : NodeId) : Nat :=
  match visits.get id with
  | none => cap
  | some (.count n) => cap - n
  | some .text => 0

/-- How often some node can still be entered. -/
def JourneySpec.room (spec : JourneySpec) (visits : Visits) : Nat :=
  (spec.nodes.map fun node => visits.room spec.settings.maxVisitsPerNode node.id).sum

theorem room_le (spec : JourneySpec) (visits : Visits) :
    spec.room visits ≤ spec.nodes.length * spec.settings.maxVisitsPerNode := by
  unfold JourneySpec.room
  have hbound := List.sum_le_card_nsmul
    (spec.nodes.map fun node => visits.room spec.settings.maxVisitsPerNode node.id)
    spec.settings.maxVisitsPerNode (fun x hx => ?_)
  · simpa using hbound
  · obtain ⟨node, -, rfl⟩ := List.mem_map.1 hx
    unfold Visits.room
    split <;> omega

/-- **Entering a node within the cap uses up room.** -/
theorem room_enter {visits : Visits} {id : NodeId} {n : Nat}
    (hid : id ∈ spec.nodes.map (·.id)) (hn : visits.nextVisit id = .count n)
    (hcap : n ≤ spec.settings.maxVisitsPerNode) :
    spec.room (visits.enter id) < spec.room visits := by
  have hself : (visits.enter id).room spec.settings.maxVisitsPerNode id <
      visits.room spec.settings.maxVisitsPerNode id := by
    unfold Visits.room
    rw [Visits.get_enter_self, hn]
    unfold Visits.nextVisit at hn
    cases hget : visits.get id with
    | none =>
      obtain rfl : 1 = n := by simpa [hget] using hn
      dsimp only
      omega
    | some c =>
      cases c with
      | count k =>
        obtain rfl : k + 1 = n := by simpa [hget] using hn
        dsimp only
        omega
      | text => simp [hget] at hn
  have hother : ∀ other, (visits.enter id).room spec.settings.maxVisitsPerNode other ≤
      visits.room spec.settings.maxVisitsPerNode other := by
    intro other
    by_cases heq : other = id
    · rw [heq]
      exact hself.le
    · rw [Visits.room, Visits.room, visits.get_enter_of_ne heq]
  obtain ⟨node, hnode, hnodeId⟩ := List.mem_map.1 hid
  exact List.sum_lt_sum _ _ (fun m _ => hother m.id) ⟨node, hnode, hnodeId ▸ hself⟩

/-- **The loop ends.** It makes no use of answers beyond what the room of the visits needs. -/
theorem runLoop_ends {envs : List StepEnv} (hspec : specs f.row.version = some spec)
    (hlen : spec.room f.row.visits + 2 ≤ envs.length) (more : List StepEnv) :
    f.runLoop specs (envs ++ more) = f.runLoop specs envs := by
  induction envs generalizing f with
  | nil => exact absurd hlen (by simp)
  | cons env envs ih =>
    rw [List.cons_append, EnrollmentFile.runLoop, EnrollmentFile.runLoop]
    cases hrun : f.runNode specs env with
    | error message => rfl
    | ok p =>
      obtain ⟨g, goesOn⟩ := p
      cases goesOn with
      | false => rfl
      | true =>
        obtain ⟨-, -, -, to', -, -, -, -, -, hversion, hcurrent, hvisits⟩ := runNode_continues hrun
        have hclear : g.clearErrors.row.version = f.row.version ∧
            g.clearErrors.row.currentNode = some to' ∧
            g.clearErrors.row.visits = f.row.visits.enter to' := by
          unfold EnrollmentFile.clearErrors
          split <;> exact ⟨hversion, hcurrent, hvisits⟩
        obtain ⟨hversion', hcurrent', hvisits'⟩ := hclear
        simp only [if_true]
        simp only [List.length_cons] at hlen
        by_cases hroom : spec.room (f.row.visits.enter to') < spec.room f.row.visits
        · refine ih (by rw [hversion', hspec]) ?_
          rw [hvisits']
          omega
        · -- Without room, the next round is the last.
          cases envs with
          | nil => exact absurd hlen (by simp)
          | cons env' envs' =>
            rw [List.cons_append, EnrollmentFile.runLoop, EnrollmentFile.runLoop]
            cases hnext : g.clearErrors.runNode specs env' with
            | error message => rfl
            | ok q =>
              obtain ⟨k, goesOn'⟩ := q
              cases goesOn' with
              | false => rfl
              | true =>
                obtain ⟨current, spec', visit, -, hcur, hspec', hmem, hvisit, hcap, -⟩ :=
                  runNode_continues hnext
                rw [hversion', hspec, Option.some.injEq] at hspec'
                subst hspec'
                rw [hcurrent', Option.some.injEq] at hcur
                subst hcur
                rw [hvisits', Visits.current_enter_self] at hvisit
                exact absurd (room_enter hmem hvisit hcap) hroom

/-- A journey that has room for fewer than fifty visits ends or waits within one `runEnrollment`. -/
theorem runEnrollment_eq_runLoop (hactive : f.row.state = .active)
    (hspec : specs f.row.version = some spec)
    (hroom : spec.room f.row.visits + 2 ≤ MAX_NODES_PER_RUN) (envs : List StepEnv) :
    f.runEnrollment specs envs = f.runLoop specs envs := by
  rw [EnrollmentFile.runEnrollment, if_pos hactive]
  rcases Nat.le_total envs.length MAX_NODES_PER_RUN with hshort | hlong
  · rw [List.take_of_length_le hshort]
  · have hlen : (envs.take MAX_NODES_PER_RUN).length = MAX_NODES_PER_RUN :=
      List.length_take_of_le hlong
    calc f.runLoop specs (envs.take MAX_NODES_PER_RUN)
        = f.runLoop specs (envs.take MAX_NODES_PER_RUN ++ envs.drop MAX_NODES_PER_RUN) :=
          (runLoop_ends hspec (by rw [hlen]; exact hroom) _).symm
      _ = f.runLoop specs envs := by rw [List.take_append_drop]

end Loop

/-! ### The bounds -/

/-- The steps that an enrollment executed and that meet a condition. -/
def EnrollmentFile.executions (f : EnrollmentFile) (p : StepKey → Bool) : List StepKey :=
  f.inserted.filter fun k => k.executed && p k

section Bounds

variable {p : StepKey → Bool}

theorem mem_executions {k : StepKey} :
    k ∈ f.executions p ↔ k ∈ f.inserted ∧ k.executed = true ∧ p k = true := by
  rw [EnrollmentFile.executions, List.mem_filter, Bool.and_eq_true]

theorem BoundsOk.nodup_executions (hf : BoundsOk specs f) (p : StepKey → Bool) :
    ((f.executions p).map StepKey.key).Nodup :=
  (List.filter_sublist.map _).nodup hf.nodup

/-- The executions of one node are at most as many as the visits that the versions admit. -/
theorem BoundsOk.length_executions_node (hf : BoundsOk specs f)
    (node : NodeId) {cap : Nat} (hnode : ∀ k, p k = true → k.nodeId = node)
    (hcap : ∀ k ∈ f.executions p, k.visit ≤ cap) : (f.executions p).length ≤ cap := by
  have hvisits : ((f.executions p).map (·.visit)).Nodup := by
    have hkeys := hf.nodup_executions p
    refine List.Nodup.of_map (fun visit => (node, visit)) ?_
    rw [List.map_map]
    have hsame : (f.executions p).map ((fun visit => (node, visit)) ∘ (·.visit)) =
        (f.executions p).map StepKey.key := by
      refine List.map_congr_left fun k hk => ?_
      rw [Function.comp_apply, StepKey.key, hnode k (mem_executions.1 hk).2.2]
    rw [hsame]
    exact hkeys
  have hsub : (f.executions p).map (·.visit) ⊆ List.range' 1 cap := by
    intro visit hvisit
    obtain ⟨k, hk, rfl⟩ := List.mem_map.1 hvisit
    obtain ⟨hmem, hexec, -⟩ := mem_executions.1 hk
    obtain ⟨spec, -, -, hpos, -⟩ := hf.allowed k hmem hexec
    have hle := hcap k hk
    exact List.mem_range'_1.2 ⟨hpos, by omega⟩
  have hlen := hvisits.length_le_of_subset hsub
  simpa using hlen

/-- The executions of one version are at most as many as its nodes have visits. -/
theorem BoundsOk.length_executions_version (hf : BoundsOk specs f) {version : Nat}
    {spec : JourneySpec} (hspec : specs f.row.journeyId version = some spec) :
    (f.executions (·.version = version)).length ≤
      spec.nodes.length * spec.settings.maxVisitsPerNode := by
  have hsub : (f.executions (·.version = version)).map StepKey.key ⊆
      (spec.nodes.map (·.id)) ×ˢ (List.range' 1 spec.settings.maxVisitsPerNode) := by
    intro key hkey
    obtain ⟨k, hk, rfl⟩ := List.mem_map.1 hkey
    obtain ⟨hmem, hexec, hversion⟩ := mem_executions.1 hk
    obtain ⟨spec', hspec', hnode, hpos, hcap⟩ := hf.allowed k hmem hexec
    rw [of_decide_eq_true hversion, hspec, Option.some.injEq] at hspec'
    subst hspec'
    exact List.mem_product.2 ⟨hnode, List.mem_range'_1.2 ⟨hpos, by omega⟩⟩
  have hlen := (hf.nodup_executions _).length_le_of_subset hsub
  rw [List.length_map, List.length_product, List.length_map, List.length_range'] at hlen
  exact hlen

end Bounds

/-- How much an enrollment runs at most. A step that waits or is tried again goes on in the run that
was inserted for its visit; the version of a step is the one that the run was inserted in. -/
structure RunLaw (specs : Specs) (f : EnrollmentFile) : Prop where
  once : (f.inserted.map StepKey.key).Nodup
  nodes : ∀ k ∈ f.inserted, k.executed = true → ∃ spec,
    specs f.row.journeyId k.version = some spec ∧ k.nodeId ∈ spec.nodes.map (·.id)
  perNode : ∀ version spec, specs f.row.journeyId version = some spec → ∀ node,
    (f.executions fun k => k.version = version && k.nodeId = node).length ≤
      spec.settings.maxVisitsPerNode
  moved : ∀ cap, (∀ version spec, specs f.row.journeyId version = some spec →
    spec.settings.maxVisitsPerNode ≤ cap) → ∀ node,
      (f.executions fun k => k.nodeId = node).length ≤ cap
  total : ∀ version spec, specs f.row.journeyId version = some spec →
    (f.executions (·.version = version)).length ≤
      spec.nodes.length * spec.settings.maxVisitsPerNode
  loop : ∀ spec, specs f.row.journeyId f.row.version = some spec → ∀ envs more,
    spec.nodes.length * spec.settings.maxVisitsPerNode + 2 ≤ envs.length →
      f.runLoop (specs f.row.journeyId) (envs ++ more) = f.runLoop (specs f.row.journeyId) envs

theorem BoundsOk.law (hf : BoundsOk specs f) : RunLaw specs f where
  once := hf.nodup
  nodes k hk hexec := by
    obtain ⟨spec, hspec, hnode, -⟩ := hf.allowed k hk hexec
    exact ⟨spec, hspec, hnode⟩
  perNode version spec hspec node := by
    refine hf.length_executions_node node (fun k hk => ?_) fun k hk => ?_
    · exact of_decide_eq_true (Bool.and_eq_true_iff.1 hk).2
    · obtain ⟨hmem, hexec, hp⟩ := mem_executions.1 hk
      obtain ⟨spec', hspec', -, -, hcap⟩ := hf.allowed k hmem hexec
      rw [of_decide_eq_true (Bool.and_eq_true_iff.1 hp).1, hspec, Option.some.injEq] at hspec'
      exact hspec' ▸ hcap
  moved cap hle node := by
    refine hf.length_executions_node node (fun k hk => of_decide_eq_true hk)
      fun k hk => ?_
    obtain ⟨hmem, hexec, -⟩ := mem_executions.1 hk
    obtain ⟨spec, hspec, -, -, hcap⟩ := hf.allowed k hmem hexec
    exact hcap.trans (hle _ spec hspec)
  total version spec hspec := hf.length_executions_version hspec
  loop spec hspec envs more hlen := by
    have hroom := room_le spec f.row.visits
    exact runLoop_ends hspec (by omega) more

theorem boundsOk_file (specs : Specs) (e : NewEnrollment) (spec : JourneySpec) :
    BoundsOk specs (e.file spec) where
  nodup := List.nodup_nil
  stored _ k hk := by cases hk
  positive id n hn := by
    simp only [NewEnrollment.file, Visits.get] at hn
    by_cases hheld : stableBucket [e.subjectKey, e.journeyId] < spec.settings.holdoutPct
    · rw [if_pos hheld, List.lookup_nil] at hn
      dsimp only at hn
      split at hn <;> cases hn
    · rw [if_neg hheld, List.lookup_cons] at hn
      cases hid : id == spec.start with
      | true =>
        rw [hid] at hn
        cases hn
        exact Nat.le_refl 1
      | false =>
        rw [hid, List.lookup_nil] at hn
        dsimp only at hn
        split at hn <;> cases hn
  allowed k hk := by cases hk

/-- **How much an enrollment runs.** In every state that any steps at any times reach, each file has
no key of a step run inserted twice, and no node and no version executed more often than the caps on
visits say. -/
theorem runs_bounded {specs : Specs} {s : RuntimeState}
    (h : (runtimeMachine specs).Reachable NoEnrollments s) {id : String} {f : EnrollmentFile}
    (hf : s.files id = some f) : RunLaw specs f := by
  have hall : EveryFile (BoundsOk specs) s := by
    refine h.invariant (I := EveryFile (BoundsOk specs)) (fun s hs id f hf => ?_) ?_
    · rw [hs] at hf
      cases hf
    · intro s t a _ hs _ hstep
      refine everyFile_step hs (boundsOk_file specs)
        (fun f g env more hf hrun => boundsOk_clearErrors (boundsOk_runNode hf hrun)) ?_
        (fun f event clock hf => boundsOk_onEvent hf event clock) hstep
      rintro id act running f g - - hf happly
      exact boundsOk_apply hf happly
  exact (hall id f hf).law

theorem runs_bounded_sample :
    ∃ f, (sampleState waitingRun).files "e1" = some f ∧ (f.executions fun _ => true).length = 1 ∧
      RunLaw (fun _ _ => some waitingSpec) f := by
  have hstart : NoEnrollments {} := rfl
  have hrun : (runtimeMachine fun _ _ => some waitingSpec).run {} waitingRun =
      some (sampleState waitingRun) := rfl
  obtain ⟨f, hf, hone⟩ : ∃ f, (sampleState waitingRun).files "e1" = some f ∧
      (f.executions fun _ => true).length = 1 := ⟨_, rfl, rfl⟩
  exact ⟨f, hf, hone, runs_bounded (Machine.reachable_of_run hstart hrun) hf⟩

end Munin
